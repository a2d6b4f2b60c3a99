import BtbuOs.Vm.Exec
import BtbuOs.Vm.Wait

namespace BtbuOs.Vm

open Machine Partition
open Sync (Tid)
open Sched (Slot)

/-- The macro `MAX_ARG_NUM`. -/
def maxArgNum : Nat := 32

/-- The words `sp`, `a1` and `epc` of `struct trapframe` are at the offsets 48, 120 and 24. -/
def spWord : Fin 36 := 6
def a1 : Fin 36 := 15
def epc : Fin 36 := 3

/-- The bytes that `copyinstr` stores: those that it reads, and the null byte when it meets it. -/
def copyinstrStores (m : Memory) (root : Page) : Nat → Nat → Nat → Ram → Except String (List Byte)
  | 0, _, _, _ => .ok []
  | rounds + 1, srcva, max, ram =>
      if max = 0 then .ok []
      else do
        let pa0 ← walkaddr m root (srcva / 4096)
        if pa0 = 0 then return []
        else
          let n := min (4096 - srcva % 4096) max
          let ((chunk, gotNull), mid) := moveString pa0 srcva n ram
          if gotNull then return chunk ++ [0]
          else
            let rest ← copyinstrStores m root rounds (srcva / 4096 * 4096 + 4096) (max - n) mid
            return chunk ++ rest

/-- Stores to consecutive bytes of the kernel's own memory. -/
def writeAt (mem : Nat → Byte) (start : Nat) (src : List Byte) : Nat → Byte := fun a =>
  if start ≤ a then src[a - start]?.getD (mem a) else mem a

/-- The string that starts at an address, unless it goes on beyond the limit. -/
def cstring (mem : Nat → Byte) : Nat → Nat → Option (List Byte)
  | 0, _ => none
  | limit + 1, a => if mem a = 0 then some [] else (cstring mem limit (a + 1)).map (mem a :: ·)

/-- The value of bytes, the lowest one first. -/
def wordOf : List Byte → Nat
  | [] => 0
  | value :: rest => value.toNat + 256 * wordOf rest

/-- The bytes of a word, the lowest one first. -/
def wordBytes (word : BitVec 64) : List Byte := (List.range 8).map fun i => word.extractLsb' (8 * i) 8

/-- The word at the physical address that an address of the user has; a load through NULL or beyond memory is a fault. -/
def fetchaddr (l : Layout) (m : Memory) (root : Page) (b : Bytes) (va : BitVec 64) : Except String (Option (BitVec 64)) := do
  let addr ← useraddr m root va
  if addr / 4096 = 0 ∨ l.phystop ≤ (addr + 7) / 4096 then return none
  else return some (BitVec.ofNat 64 (wordOf ((List.range 8).map fun i => b ((addr + i) / 4096) ((addr + i) % 4096))))

/-- The loop of `sys_exec` ends with the number of strings in `strpool`, faults, or leaves its arrays. -/
inductive Collected where
  | stopped (count : Nat) (strpool : Nat → Byte)
  | faulted
  | outside

/-- The first argument counts the rows of `strpool` that are left. -/
def collect (l : Layout) (m : Memory) (root : Page) (b : Bytes) :
    Nat → Nat → BitVec 64 → (Nat → Byte) → Except String Collected
  | 0, i, uargv, strpool =>
      if uargv = 0 then .ok (.stopped i strpool)
      else do
        let arg ← fetchaddr l m root b uargv
        match arg with
        | none => return .faulted
        | some arg => return if arg = 0 then .stopped i strpool else .outside
  | rows + 1, i, uargv, strpool =>
      if uargv = 0 then .ok (.stopped i strpool)
      else do
        let arg ← fetchaddr l m root b uargv
        match arg with
        | none => return .faulted
        | some arg =>
            if arg = 0 then return .stopped i strpool
            else
              let stores ← copyinstrStores m root maxStrLen arg.toNat maxStrLen { byte := b, log := [] }
              collect l m root b rows (i + 1) (uargv + 8) (writeAt strpool (maxStrLen * i) stores)

/-- The address below another one that leaves room for some bytes and is a multiple of 16. -/
def below (sp : BitVec 64) (n : Nat) : BitVec 64 :=
  let sp := sp - BitVec.ofNat 64 n
  sp - sp % 16

/-- The loop of `push_argv` over the strings that are left; there is no result when it reads beyond `strpool`. -/
def pushStrings (m : Memory) (root : Page) (spb : BitVec 64) (strpool : Nat → Byte) :
    Nat → Nat → BitVec 64 → Bytes → Except String (Option (BitVec 64 × List (BitVec 64) × Bytes))
  | 0, _, sp, b => .ok (some (sp, [], b))
  | n + 1, argc, sp, b =>
      if maxArgNum ≤ argc then .error "too many args!"
      else
        match cstring strpool (maxStrLen * maxArgNum - maxStrLen * argc) (maxStrLen * argc) with
        | none => .ok none
        | some str =>
            let sp := below sp (str.length + 1)
            if sp < spb then .error "uset stack overflow!"
            else do
              let (copied, ram) ← copyout m root sp (str ++ [0]) { byte := b, log := [] }
              if !copied then .error "copy argv failed!"
              else
                let rest ← pushStrings m root spb strpool n (argc + 1) sp ram.byte
                return rest.map fun (last, ptrs, b) => (last, sp :: ptrs, b)

/-- The address of the stack of the main thread. -/
def stackBase (p : Process) : BitVec 64 := BitVec.ofNat 64 (4096 * ustackVpn p 0)

/-- The result is the address of the array and the bytes of the pages. -/
def pushArgs (k : Kernel) (s : Slot) (b : Bytes) (count : Nat) (strpool : Nat → Byte) :
    Except String (Option (BitVec 64 × Bytes)) :=
  match (k.pool s).pagetable with
  | none => .error "fault"
  | some root => do
      let spb := stackBase (k.pool s)
      let pushed ← pushStrings k.memory root spb strpool count 0 (spb + 4096) b
      match pushed with
      | none => return none
      | some (sp, ptrs, b) =>
          let sp := below sp (8 * (count + 1))
          if sp < spb then .error "uset stack overflow!"
          else do
            let (copied, ram) ← copyout k.memory root sp ((ptrs ++ [0]).flatMap wordBytes) { byte := b, log := [] }
            if copied then return some (sp, ram.byte) else .error "copy argc failed!"

/-- The kernel with the bytes of its pages, the static array `strpool` with the memory behind it, and the trap frames. -/
structure ArgWorld where
  kernel : Kernel
  bytes : Bytes
  strpool : Nat → Byte
  frames : Slot → Tid → Trapframe

namespace ArgWorld

def setFrame (w : ArgWorld) (s : Slot) (t : Tid) (frame : Trapframe) : ArgWorld :=
  { w with frames := Function.update w.frames s (Function.update (w.frames s) t frame) }

/-- The system call leaves its result in the caller's `a0`. -/
def setResult (w : ArgWorld) (s : Slot) (t : Tid) (value : Int) : ArgWorld :=
  w.setFrame s t (Function.update (w.frames s t) a0 (BitVec.ofInt 64 value))

end ArgWorld

/-- A call returns a value, faults, or stores or reads outside the arrays for the arguments. -/
inductive ExecOutcome where
  | returned (value : Int)
  | faulted
  | outside
  deriving DecidableEq

/-- The frame of a main thread that starts with arguments. -/
def startFrame (sp : BitVec 64) : Trapframe := fun i =>
  if i = spWord ∨ i = a1 then sp else if i = epc then 0x1000 else 0

/-- The part of the call from `exec` on, with the bytes that the pages have when the new program is loaded. -/
def execArgs (l : Layout) (w : ArgWorld) (s : Slot) (t : Tid) (root : Page) (count : Nat) (program : Option (BitVec 32))
    (image : Bytes) : Except String (ArgWorld × ExecOutcome) :=
  match program with
  | none => .ok (w.setResult s t (-1), .returned (-1))
  | some length => do
      let k ← execFree l w.kernel s t root
      let (loaded, k) ← binLoader l k s length
      match loaded with
      | .done =>
          let pushed ← pushArgs k s image count w.strpool
          match pushed with
          | none => return (w, .outside)
          | some (sp, b) =>
              let w := { w with kernel := k.setThread s t .running, bytes := b }
              return ((w.setFrame s 0 (startFrame sp)).setResult s t count, .returned count)
      | _ => .error "fault"

/-- The disk gives the length of the program that has the name; the results of the three calls of `copyinstr` and of the
translation are not tested. -/
def sysExec (l : Layout) (w : ArgWorld) (s : Slot) (t : Tid) (path uargv : BitVec 64) (name : Nat → Byte)
    (disk : (Nat → Byte) → Option (BitVec 32)) (image : Bytes) : Except String (ArgWorld × ExecOutcome) :=
  match (w.kernel.pool s).pagetable with
  | none => .error "fault"
  | some root => do
      let stores ← copyinstrStores w.kernel.memory root maxStrLen path.toNat maxStrLen { byte := w.bytes, log := [] }
      let collected ← collect l w.kernel.memory root w.bytes maxArgNum 0 uargv w.strpool
      match collected with
      | .faulted => return ({ w with kernel := { w.kernel with fault := some (s, t) } }, .faulted)
      | .outside => return (w, .outside)
      | .stopped count strpool =>
          if maxArgNum ≤ count then return (w, .outside)
          else execArgs l { w with strpool } s t root count (disk (writeAt name 0 stores)) image

variable {l : Layout} {m : Memory} {root page : Page} {b : Bytes} {va max : Nat} {ram last : Ram} {str : List Byte}
  {strs : List (List Byte)} {uargv ptr : BitVec 64} {mem : Nat → Byte}

/-- The user reads bytes at an address. -/
def ReadsAt (m : Memory) (root : Page) (b : Bytes) (va : Nat) (bytes : List Byte) : Prop :=
  ∀ i (inside : i < bytes.length), ∃ page, userTarget m root (va + i) = some page ∧ b page ((va + i) % 4096) = bytes[i]

/-- A string of the user ends with its only null byte. -/
def CString (m : Memory) (root : Page) (b : Bytes) (va : Nat) (str : List Byte) : Prop :=
  ReadsAt m root b va (str ++ [0]) ∧ 0 ∉ str

/-- A word of the user at a multiple of 8. -/
def Word (m : Memory) (root : Page) (b : Bytes) (va word : BitVec 64) : Prop :=
  va.toNat % 8 = 0 ∧ ReadsAt m root b va.toNat (wordBytes word)

/-- An array of pointers to strings with a null pointer at its end. -/
inductive ArgArray (m : Memory) (root : Page) (b : Bytes) : BitVec 64 → List (List Byte) → Prop where
  | stop {va : BitVec 64} (word : Word m root b va 0) : ArgArray m root b va []
  | string {va ptr : BitVec 64} {str : List Byte} {strs : List (List Byte)} (word : Word m root b va ptr) (real : ptr ≠ 0)
      (shown : CString m root b ptr.toNat str) (rest : ArgArray m root b (va + 8) strs) : ArgArray m root b va (str :: strs)

/-- What a program passes to `exec`: an array of strings, or a null pointer. -/
def Passed (m : Memory) (root : Page) (b : Bytes) (uargv : BitVec 64) (strs : List (List Byte)) : Prop :=
  uargv = 0 ∧ strs = [] ∨ uargv ≠ 0 ∧ ArgArray m root b uargv strs

theorem ReadsAt.head {value : Byte} {bytes : List Byte} (shows : ReadsAt m root b va (value :: bytes)) :
    ∃ page, userTarget m root va = some page ∧ b page (va % 4096) = value :=
  shows 0 (Nat.succ_pos _)

theorem ReadsAt.tail {value : Byte} {bytes : List Byte} (shows : ReadsAt m root b va (value :: bytes)) :
    ReadsAt m root b (va + 1) bytes := by
  intro i inside
  have next := shows (i + 1) (by rw [List.length_cons]; omega)
  rwa [show va + (i + 1) = va + 1 + i by omega] at next

/-- A string is read up to its null byte. -/
theorem inBytes_cstring (shown : CString m root b va str) (short : str.length < max) (log : List Access) :
    (inBytes m root (· = 0) va max { byte := b, log }).1 = some str := by
  obtain ⟨shows, clean⟩ := shown
  induction str generalizing va max log with
  | nil =>
      obtain ⟨page, mapped, value⟩ := ReadsAt.head (by simpa using shows)
      obtain ⟨n, rfl⟩ : ∃ n, max = n + 1 := ⟨max - 1, by simp at short; omega⟩
      simp [inBytes, mapped, value]
  | cons value rest ih =>
      rw [List.length_cons] at short
      obtain ⟨page, mapped, byte⟩ := ReadsAt.head (by simpa using shows)
      obtain ⟨n, rfl⟩ : ∃ n, max = n + 1 := ⟨max - 1, by omega⟩
      have real : value ≠ 0 := fun null => clean (by simp [null])
      have later : (inBytes m root (· = 0) (va + 1) n { byte := b, log := log ++ [.loaded va] }).1 = some rest := by
        apply ih (by omega)
        · exact ReadsAt.tail (by simpa using shows)
        · exact fun listed => clean (List.mem_cons_of_mem value listed)
      simp only [inBytes, mapped, byte, decide_eq_true_eq, real, if_false, Ram.load]
      rw [later]
      rfl

/-- The bytes of a chunk end before the null byte or with the chunk. -/
theorem moveString_length (page : Page) (va n : Nat) (ram : Ram) :
    ((moveString page va n ram).1.2 = true → (moveString page va n ram).1.1.length < n) ∧
      ((moveString page va n ram).1.2 = false → (moveString page va n ram).1.1.length = n) := by
  induction n generalizing va ram with
  | zero => simp [moveString]
  | succ n ih =>
      rw [moveString]
      split
      · simp
      · simpa using ih (va + 1) (ram.load va)

/-- A copy that returns a length has stored the bytes of the string, and the null byte when the string ended in time. -/
theorem copyinstrStores_copied (rounds : Nat) (enough : max ≤ rounds)
    (copied : copyinstrLoop m root rounds va max ram = .ok (some str, last)) :
    copyinstrStores m root rounds va max ram = .ok (str ++ if str.length < max then [0] else []) := by
  induction rounds generalizing va max ram str with
  | zero =>
      simp only [copyinstrLoop, Except.ok.injEq, Prod.mk.injEq, Option.some.injEq] at copied
      obtain ⟨rfl, _⟩ := copied
      obtain rfl : max = 0 := by omega
      rfl
  | succ rounds ih =>
      rw [copyinstrLoop] at copied
      rw [copyinstrStores]
      split
      · rename_i full
        rw [if_pos full] at copied
        simp only [Except.ok.injEq, Prod.mk.injEq, Option.some.injEq] at copied
        obtain ⟨rfl, _⟩ := copied
        simp [full]
      · rename_i more
        rw [if_neg more] at copied
        obtain ⟨pa0, translated, rest⟩ := bind_ok.mp copied
        rw [translated]
        simp only at rest
        change (if pa0 = 0 then _ else _) = _
        split at rest
        · simp [pure, Except.pure] at rest
        · rename_i real
          rw [if_neg real]
          obtain ⟨early, whole⟩ := moveString_length pa0 va (min (4096 - va % 4096) max) ram
          generalize moveString pa0 va (min (4096 - va % 4096) max) ram = moved at early whole rest ⊢
          obtain ⟨⟨chunk, gotNull⟩, mid⟩ := moved
          simp only at early whole rest ⊢
          cases gotNull with
          | true =>
              simp only [if_true, pure, Except.pure, Except.ok.injEq, Prod.mk.injEq, Option.some.injEq] at rest ⊢
              obtain ⟨rfl, _⟩ := rest
              have short := early rfl
              rw [if_pos (by omega)]
          | false =>
              simp only [Bool.false_eq_true, if_false] at rest ⊢
              obtain ⟨⟨tail, final⟩, later, result⟩ := bind_ok.mp rest
              cases tail with
              | none => simp [pure, Except.pure] at result
              | some tail =>
                  simp only [Option.map_some, pure, Except.pure, Except.ok.injEq, Prod.mk.injEq, Option.some.injEq] at result
                  obtain ⟨rfl, rfl⟩ := result
                  have length := whole rfl
                  rw [ih (by omega) later, List.length_append, List.append_assoc]
                  have same : tail.length < max - min (4096 - va % 4096) max ↔ chunk.length + tail.length < max := by omega
                  simp only [same, bind, Except.bind, pure, Except.pure]

/-- A short string is stored with its null byte. -/
theorem copyinstrStores_cstring (shown : CString m root b va str) (short : str.length < max) :
    copyinstrStores m root max va max { byte := b, log := [] } = .ok (str ++ [0]) := by
  have copied : copyinstrLoop m root max va max { byte := b, log := [] } =
      .ok (some str, (inBytes m root (· = 0) va max { byte := b, log := [] }).2) := by
    rw [copyinstrLoop_bytes max (Nat.le_refl max), ← inBytes_cstring shown short []]
  rw [copyinstrStores_copied max (Nat.le_refl max) copied, if_pos short]

/-- No call of `copyinstr` stores more bytes than it may. -/
theorem copyinstrStores_length (rounds : Nat) {stores : List Byte}
    (stored : copyinstrStores m root rounds va max ram = .ok stores) : stores.length ≤ max := by
  induction rounds generalizing va max ram stores with
  | zero =>
      simp only [copyinstrStores, Except.ok.injEq] at stored
      subst stored
      exact Nat.zero_le max
  | succ rounds ih =>
      rw [copyinstrStores] at stored
      split at stored
      · simp only [Except.ok.injEq] at stored
        subst stored
        exact Nat.zero_le max
      · obtain ⟨pa0, _, rest⟩ := bind_ok.mp stored
        simp only at rest
        split at rest
        · simp only [pure, Except.pure, Except.ok.injEq] at rest
          subst rest
          exact Nat.zero_le max
        · obtain ⟨early, whole⟩ := moveString_length pa0 va (min (4096 - va % 4096) max) ram
          generalize moveString pa0 va (min (4096 - va % 4096) max) ram = moved at early whole rest
          obtain ⟨⟨chunk, gotNull⟩, mid⟩ := moved
          simp only at early whole rest
          cases gotNull with
          | true =>
              simp only [if_true, pure, Except.pure, Except.ok.injEq] at rest
              subst rest
              have short := early rfl
              rw [List.length_append, List.length_singleton]
              omega
          | false =>
              simp only [Bool.false_eq_true, if_false] at rest
              obtain ⟨tail, later, result⟩ := bind_ok.mp rest
              simp only [pure, Except.pure, Except.ok.injEq] at result
              subst result
              have length := whole rfl
              have bound := ih later
              rw [List.length_append]
              omega

theorem writeAt_outside {start a : Nat} (src : List Byte) (outside : a < start ∨ start + src.length ≤ a) :
    writeAt mem start src a = mem a := by
  rw [writeAt]
  split
  · rw [List.getElem?_eq_none (by omega), Option.getD_none]
  · rfl

theorem writeAt_inside {start i : Nat} (src : List Byte) (inside : i < src.length) :
    writeAt mem start src (start + i) = src[i] := by
  rw [writeAt, if_pos (Nat.le_add_right start i), Nat.add_sub_cancel_left, List.getElem?_eq_getElem inside, Option.getD_some]

/-- Memory holds a string with its null byte. -/
def Holds (mem : Nat → Byte) (start : Nat) (bytes : List Byte) : Prop :=
  ∀ i (inside : i < bytes.length), mem (start + i) = bytes[i]

instance (mem : Nat → Byte) (start : Nat) (bytes : List Byte) : Decidable (Holds mem start bytes) :=
  inferInstanceAs (Decidable (∀ i (inside : i < bytes.length), mem (start + i) = bytes[i]))

theorem Holds.cstring {start limit : Nat} (holds : Holds mem start (str ++ [0])) (clean : 0 ∉ str)
    (room : str.length < limit) : cstring mem limit start = some str := by
  induction str generalizing start limit with
  | nil =>
      obtain ⟨n, rfl⟩ : ∃ n, limit = n + 1 := ⟨limit - 1, by simp at room; omega⟩
      have null := holds 0 (Nat.succ_pos _)
      simp only [Nat.add_zero, List.nil_append, List.getElem_cons_zero] at null
      simp [Vm.cstring, null]
  | cons value rest ih =>
      rw [List.length_cons] at room
      obtain ⟨n, rfl⟩ : ∃ n, limit = n + 1 := ⟨limit - 1, by omega⟩
      have first : mem start = value := holds 0 (Nat.succ_pos _)
      have real : value ≠ 0 := fun null => clean (by simp [null])
      have later : Vm.cstring mem n (start + 1) = some rest := by
        apply ih
        · intro i inside
          have next := holds (i + 1) (by rw [List.cons_append, List.length_cons]; omega)
          rwa [show start + (i + 1) = start + 1 + i by omega] at next
        · exact fun listed => clean (List.mem_cons_of_mem value listed)
        · omega
      rw [Vm.cstring, first, if_neg real, later]
      rfl

theorem wordBytes_length (word : BitVec 64) : (wordBytes word).length = 8 := by
  simp [wordBytes]

/-- The bytes of a word have its value. -/
theorem wordOf_wordBytes (word : BitVec 64) : wordOf (wordBytes word) = word.toNat := by
  have bound := word.isLt
  simp only [wordBytes, show List.range 8 = [0, 1, 2, 3, 4, 5, 6, 7] from rfl, List.map_cons, List.map_nil, wordOf,
    BitVec.extractLsb'_toNat, Nat.shiftRight_eq_div_pow]
  omega

/-- Page numbers of the user are page numbers of memory. -/
theorem Sound.target_below {h : Holding} {s : Slot} (sound : Sound l m h) (rooted : h.roots s = some root)
    (mapped : userTarget m root va = some page) : page < l.phystop := by
  obtain ⟨_, mine, _⟩ := userTarget_some.mp mapped
  have occupied : occupant m h (.leaf s (px 0 (va / 4096)) (tablePath (va / 4096))) = some page := by
    rw [occupant_leaf rfl, rooted]
    exact mine
  exact (sound.owned.roleManaged _ page occupied).2

theorem address_offset (page offset : Nat) : (page * 4096 + offset) % 4096 = offset % 4096 := by
  omega

/-- A word of the user is fetched. -/
theorem fetchaddr_word {h : Holding} {s : Slot} {va word : BitVec 64} (sound : Sound l m h) (rooted : h.roots s = some root)
    (shown : Word m root b va word) : fetchaddr l m root b va = .ok (some word) := by
  obtain ⟨aligned, reads⟩ := shown
  have length := wordBytes_length word
  obtain ⟨page, mapped, _⟩ := reads 0 (by omega)
  rw [Nat.add_zero] at mapped
  have real : page ≠ 0 := fun null => userTarget_ne_zero m root va.toNat (null ▸ mapped)
  have inside := sound.target_below rooted mapped
  have low : va.toNat % 4096 + 7 < 4096 := by omega
  have pageOf (i : Nat) (small : i < 8) : (page * 4096 + va.toNat % 4096 + i) / 4096 = page := by
    rw [Nat.add_assoc, address_page (by omega)]
  have offset (i : Nat) (small : i < 8) : (page * 4096 + va.toNat % 4096 + i) % 4096 = (va.toNat + i) % 4096 := by
    rw [Nat.add_assoc, address_offset, Nat.mod_add_mod]
  have bytes : ((List.range 8).map fun i => b ((page * 4096 + va.toNat % 4096 + i) / 4096)
      ((page * 4096 + va.toNat % 4096 + i) % 4096)) = wordBytes word := by
    apply List.ext_getElem
    · rw [length, List.length_map, List.length_range]
    · intro i small bound
      obtain ⟨other, same, value⟩ := reads i bound
      have near : userTarget m root (va.toNat + i) = some page := by
        rw [userTarget_page (show (va.toNat + i) / 4096 = va.toNat / 4096 by omega), mapped]
      obtain rfl : page = other := Option.some.inj (near.symm.trans same)
      simp only [List.getElem_map, List.getElem_range]
      rw [pageOf i (by omega), offset i (by omega), value]
  have first := pageOf 0 (by decide)
  rw [Nat.add_zero] at first
  simp only [fetchaddr, useraddr_physical, physical, mapped, bind, Except.bind, first, pageOf 7 (by decide), bytes]
  rw [if_neg (not_or.mpr ⟨real, Nat.not_le.mpr inside⟩), wordOf_wordBytes, BitVec.ofNat_toNat, BitVec.setWidth_eq]
  rfl

/-- The strings stand in the rows of `strpool`. -/
def Rows (strpool : Nat → Byte) (i : Nat) (strs : List (List Byte)) : Prop :=
  ∀ j (inside : j < strs.length), Holds strpool (maxStrLen * (i + j)) (strs[j] ++ [0])

/-- The loop collects an array of a few short strings, and stores in their rows alone. -/
theorem collect_passed {h : Holding} {s : Slot} (sound : Sound l m h) (rooted : h.roots s = some root) (strpool : Nat → Byte)
    (rows i : Nat) (array : ArgArray m root b uargv strs) (few : strs.length ≤ rows) (short : ∀ str ∈ strs, str.length < maxStrLen)
    (positive : uargv ≠ 0) : ∃ pool, collect l m root b rows i uargv strpool = .ok (.stopped (i + strs.length) pool) ∧
      Rows pool i strs ∧ ∀ a, a < maxStrLen * i ∨ maxStrLen * (i + strs.length) ≤ a → pool a = strpool a := by
  induction array generalizing rows i strpool with
  | stop word =>
      have fetched := fetchaddr_word sound rooted word
      refine ⟨strpool, ?_, fun j inside => by simp at inside, fun _ _ => rfl⟩
      cases rows with
      | zero => simp [collect, fetched, bind, Except.bind, pure, Except.pure]
      | succ rows => simp [collect, fetched, bind, Except.bind, pure, Except.pure]
  | @string va ptr str strs word real shown rest ih =>
      rw [List.length_cons] at few
      obtain ⟨n, rfl⟩ : ∃ n, rows = n + 1 := ⟨rows - 1, by omega⟩
      have fetched := fetchaddr_word sound rooted word
      have stored := copyinstrStores_cstring shown (short str List.mem_cons_self)
      have next : va + 8 ≠ 0 := by
        obtain ⟨page, mapped, _⟩ := word.2 0 (by rw [wordBytes_length]; omega)
        have limit := (userTarget_some.mp mapped).1
        simp only [maxVpn] at limit
        intro wrapped
        have sum : (va.toNat + 8) % 2 ^ 64 = 0 := congrArg BitVec.toNat wrapped
        omega
      obtain ⟨pool, collected, held, outside⟩ := ih
        (writeAt strpool (maxStrLen * i) (str ++ [0])) n (i + 1) (by omega) (fun other listed => short other (List.mem_cons_of_mem str listed)) next
      refine ⟨pool, ?_, ?_, ?_⟩
      · rw [collect, if_neg positive, fetched]
        simp only [bind, Except.bind, real, if_false, stored, collected]
        rw [show i + 1 + strs.length = i + (strs.length + 1) by omega, List.length_cons]
      · intro j inside
        cases j with
        | zero =>
            intro o bound
            have small := short str List.mem_cons_self
            simp only [List.getElem_cons_zero, Nat.add_zero, List.length_append, List.length_singleton] at bound ⊢
            rw [outside _ (.inl (by simp only [maxStrLen] at small ⊢; omega)), writeAt_inside _ (by simpa using bound)]
        | succ j =>
            have row := held j (by rw [List.length_cons] at inside; omega)
            rwa [show i + 1 + j = i + (j + 1) by omega] at row
      · intro a away
        have small := short str List.mem_cons_self
        rw [List.length_cons] at away
        simp only [maxStrLen] at small away outside ⊢
        rw [outside a (by omega), writeAt_outside _ (by rw [List.length_append, List.length_singleton]; omega)]

end BtbuOs.Vm
