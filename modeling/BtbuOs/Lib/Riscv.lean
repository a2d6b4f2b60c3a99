import Mathlib.Data.List.Nodup
import Mathlib.Logic.Function.Basic
import Mathlib.Tactic.Common

namespace Riscv

abbrev Word := BitVec 64

/-- The registers but for `zero`. -/
inductive Reg where
  | ra | sp | gp | tp | t0 | t1 | t2 | s0 | s1 | a0 | a1 | a2 | a3 | a4 | a5 | a6 | a7
  | s2 | s3 | s4 | s5 | s6 | s7 | s8 | s9 | s10 | s11 | t3 | t4 | t5 | t6
  deriving DecidableEq

inductive Csr where
  | satp | sscratch | sepc
  deriving DecidableEq

/-- A hart; of `sstatus` it has the bits SIE, SPIE and SPP. -/
structure Hart where
  regs : Reg → Word
  csrs : Csr → Word
  stvec : Word
  pc : Word
  user : Bool
  sie : Bool
  spie : Bool
  spp : Bool

/-- Memory is named by doublewords at physical addresses. -/
structure State where
  hart : Hart
  mem : Nat → Word

/-- The last three instructions leave a routine. -/
inductive Instr where
  | sd (src : Reg) (offset : Word) (base : Reg)
  | ld (dst : Reg) (offset : Word) (base : Reg)
  | addi (dst src : Reg) (value : Word)
  | csrrw (dst : Reg) (csr : Csr) (src : Reg)
  | csrr (dst : Reg) (csr : Csr)
  | csrw (csr : Csr) (src : Reg)
  | sfenceVma
  | jr (target : Reg)
  | ret
  | sret

namespace Hart

def setReg (h : Hart) (r : Reg) (value : Word) : Hart := { h with regs := Function.update h.regs r value }

def setCsr (h : Hart) (csr : Csr) (value : Word) : Hart := { h with csrs := Function.update h.csrs csr value }

/-- A trap into supervisor mode. -/
def trap (h : Hart) : Hart :=
  { h.setCsr .sepc h.pc with pc := h.stvec, user := false, sie := false, spie := h.sie, spp := !h.user }

/-- The return from a trap. -/
def sret (h : Hart) : Hart := { h with pc := h.csrs .sepc, user := !h.spp, sie := h.spie, spie := true, spp := false }

end Hart

/-- What the page tables that `satp` names give: the doubleword that the supervisor finds at an address. -/
abbrev Access := Word → Word → Option Nat

/-- An access that is not aligned traps. -/
def place (access : Access) (h : Hart) (base : Reg) (offset : Word) : Option Nat :=
  if (h.regs base + offset).toNat % 8 = 0 then access (h.csrs .satp) (h.regs base + offset) else none

/-- An instruction; `none` stands for a trap. -/
def exec (access : Access) (s : State) : Instr → Option State
  | .sd src offset base => (place access s.hart base offset).map fun pa => { s with mem := Function.update s.mem pa (s.hart.regs src) }
  | .ld dst offset base => (place access s.hart base offset).map fun pa => { s with hart := s.hart.setReg dst (s.mem pa) }
  | .addi dst src value => some { s with hart := s.hart.setReg dst (s.hart.regs src + value) }
  | .csrrw dst csr src => some { s with hart := (s.hart.setCsr csr (s.hart.regs src)).setReg dst (s.hart.csrs csr) }
  | .csrr dst csr => some { s with hart := s.hart.setReg dst (s.hart.csrs csr) }
  | .csrw csr src => some { s with hart := s.hart.setCsr csr (s.hart.regs src) }
  | .sfenceVma => some s
  | .jr target => some { s with hart := { s.hart with pc := s.hart.regs target } }
  | .ret => some { s with hart := { s.hart with pc := s.hart.regs .ra } }
  | .sret => some { s with hart := s.hart.sret }

/-- Instructions of one page, which has to be mapped for code before each of them. -/
def run (access : Access) (mapped : Word → Bool) : List Instr → State → Option State
  | [], s => some s
  | instr :: rest, s => if mapped (s.hart.csrs .satp) then (exec access s instr).bind (run access mapped rest) else none

theorem run_append (access : Access) (mapped : Word → Bool) (first second : List Instr) (s : State) :
    run access mapped (first ++ second) s = (run access mapped first s).bind (run access mapped second) := by
  induction first generalizing s with
  | nil => rfl
  | cons instr rest ih =>
      rw [List.cons_append, run, run]
      split
      · cases exec access s instr with
        | none => rfl
        | some after => exact ih after
      · rfl

/-- A register and its offset in a block of memory. -/
abbrev Field := Reg × Nat

/-- The registers are stored to a block. -/
def saves (base : Reg) (fields : List Field) : List Instr := fields.map fun field => .sd field.1 (BitVec.ofNat 64 field.2) base

/-- The registers are loaded from a block. -/
def loads (base : Reg) (fields : List Field) : List Instr := fields.map fun field => .ld field.1 (BitVec.ofNat 64 field.2) base

/-- The fields of a block at a register are doublewords from an address on. -/
def Block (access : Access) (h : Hart) (base : Reg) (block : Nat) (fields : List Field) : Prop :=
  ∀ field ∈ fields, place access h base (BitVec.ofNat 64 field.2) = some (block + field.2)

variable {access : Access} {mapped : Word → Bool} {base : Reg} {block : Nat} {fields : List Field} {s : State}

/-- Stores to a block put each register into its field and change nothing else. -/
theorem run_saves (code : mapped (s.hart.csrs .satp) = true) (there : Block access s.hart base block fields)
    (apart : (fields.map Prod.snd).Nodup) :
    ∃ mem, run access mapped (saves base fields) s = some { s with mem } ∧
      (∀ field ∈ fields, mem (block + field.2) = s.hart.regs field.1) ∧
      ∀ pa, (∀ field ∈ fields, pa ≠ block + field.2) → mem pa = s.mem pa := by
  induction fields generalizing s with
  | nil => exact ⟨s.mem, rfl, fun _ member => absurd member (List.not_mem_nil), fun _ _ => rfl⟩
  | cons field rest ih =>
      rw [List.map_cons, List.nodup_cons] at apart
      have first := there field List.mem_cons_self
      let next : State := { s with mem := Function.update s.mem (block + field.2) (s.hart.regs field.1) }
      obtain ⟨mem, ran, stored, kept⟩ := ih (s := next) code (fun other member => there other (List.mem_cons_of_mem field member)) apart.2
      have away (other : Field) (member : other ∈ rest) : block + field.2 ≠ block + other.2 := by
        intro same
        exact apart.1 (List.mem_map.mpr ⟨other, member, (Nat.add_left_cancel same).symm⟩)
      refine ⟨mem, ?_, fun other member => ?_, fun pa outside => ?_⟩
      · simp only [saves, List.map_cons, run, code, if_true, exec, first, Option.map_some, Option.bind_some]
        exact ran
      · rcases List.mem_cons.mp member with rfl | later
        · rw [kept _ away]
          exact Function.update_self ..
        · exact stored other later
      · rw [kept pa fun other member => outside other (List.mem_cons_of_mem field member)]
        exact Function.update_of_ne (outside field List.mem_cons_self) ..

/-- Loads from a block put each field into its register and change nothing else; the base may be loaded with the value that it has. -/
theorem run_loads (code : mapped (s.hart.csrs .satp) = true) (there : Block access s.hart base block fields)
    (apart : (fields.map Prod.fst).Nodup) (steady : ∀ field ∈ fields, field.1 = base → s.mem (block + field.2) = s.hart.regs base) :
    ∃ regs, run access mapped (loads base fields) s = some { s with hart := { s.hart with regs } } ∧
      (∀ field ∈ fields, regs field.1 = s.mem (block + field.2)) ∧ ∀ r, r ∉ fields.map Prod.fst → regs r = s.hart.regs r := by
  induction fields generalizing s with
  | nil => exact ⟨s.hart.regs, rfl, fun _ member => absurd member (List.not_mem_nil), fun _ _ => rfl⟩
  | cons field rest ih =>
      rw [List.map_cons, List.nodup_cons] at apart
      have first := there field List.mem_cons_self
      let next : State := { s with hart := s.hart.setReg field.1 (s.mem (block + field.2)) }
      have same : next.hart.regs base = s.hart.regs base := by
        by_cases own : field.1 = base
        · rw [← steady field List.mem_cons_self own, ← own]
          exact Function.update_self ..
        · exact Function.update_of_ne (Ne.symm own) ..
      have shown : Block access next.hart base block rest := by
        intro other member
        have old := there other (List.mem_cons_of_mem field member)
        rw [place] at old ⊢
        rw [same]
        exact old
      obtain ⟨regs, ran, loaded, kept⟩ := ih (s := next) code shown apart.2 fun other member own => by
        rw [same]
        exact steady other (List.mem_cons_of_mem field member) own
      refine ⟨regs, ?_, fun other member => ?_, fun r outside => ?_⟩
      · simp only [loads, List.map_cons, run, code, if_true, exec, first, Option.map_some, Option.bind_some]
        exact ran
      · rcases List.mem_cons.mp member with rfl | later
        · rw [kept _ apart.1]
          exact Function.update_self ..
        · exact loaded other later
      · rw [List.map_cons, List.mem_cons, not_or] at outside
        rw [kept r outside.2]
        exact Function.update_of_ne outside.1 ..

end Riscv
