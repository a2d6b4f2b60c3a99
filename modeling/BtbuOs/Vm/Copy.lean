import BtbuOs.Vm.Walk

namespace BtbuOs.Vm

open Machine

abbrev Byte := BitVec 8

/-- An access of kernel code to a byte of the user, by its user address; a store knows the byte before and after it. -/
inductive Access where
  | loaded (va : Nat)
  | stored (va : Nat) (old new : Byte)
  deriving DecidableEq

/-- The bytes of the user pages and the accesses of kernel code to them, the first one first. -/
structure Ram where
  byte : Page → Nat → Byte
  log : List Access

namespace Ram

def store (ram : Ram) (page : Page) (va : Nat) (value : Byte) : Ram where
  byte := Function.update ram.byte page (Function.update (ram.byte page) (va % 4096) value)
  log := ram.log ++ [.stored va (ram.byte page (va % 4096)) value]

def load (ram : Ram) (va : Nat) : Ram := { ram with log := ram.log ++ [.loaded va] }

end Ram

/-- `memmove` to a page of the user. -/
def moveOut (page : Page) : Nat → List Byte → Ram → Ram
  | _, [], ram => ram
  | va, value :: rest, ram => moveOut page (va + 1) rest (ram.store page va value)

/-- `memmove` from a page of the user. -/
def moveIn (page : Page) : Nat → Nat → Ram → List Byte × Ram
  | _, 0, ram => ([], ram)
  | va, n + 1, ram =>
      let (rest, after) := moveIn page (va + 1) n (ram.load va)
      (ram.byte page (va % 4096) :: rest, after)

/-- The inner loop of `copyinstr`; the flag is `got_null`. -/
def moveString (page : Page) : Nat → Nat → Ram → (List Byte × Bool) × Ram
  | _, 0, ram => (([], false), ram)
  | va, n + 1, ram =>
      if ram.byte page (va % 4096) = 0 then (([], true), ram.load va)
      else
        let ((rest, gotNull), after) := moveString page (va + 1) n (ram.load va)
        ((ram.byte page (va % 4096) :: rest, gotNull), after)

/-- The loop of `copyout`. Every round copies a byte at least, so that the first argument bounds the rounds; the flag is
false when the C function returns -1. -/
def copyoutLoop (m : Memory) (root : Page) : Nat → Nat → List Byte → Ram → Except String (Bool × Ram)
  | 0, _, _, ram => .ok (true, ram)
  | rounds + 1, dstva, src, ram =>
      if src = [] then .ok (true, ram)
      else do
        let pa0 ← walkaddr m root (dstva / 4096)
        if pa0 = 0 then return (false, ram)
        else
          let n := min (4096 - dstva % 4096) src.length
          copyoutLoop m root rounds (dstva / 4096 * 4096 + 4096) (src.drop n) (moveOut pa0 dstva (src.take n) ram)

def copyout (m : Memory) (root : Page) (dstva : BitVec 64) (src : List Byte) (ram : Ram) : Except String (Bool × Ram) :=
  copyoutLoop m root src.length dstva.toNat src ram

/-- The loop of `copyin`; there are no bytes when the C function returns -1. -/
def copyinLoop (m : Memory) (root : Page) : Nat → Nat → Nat → Ram → Except String (Option (List Byte) × Ram)
  | 0, _, _, ram => .ok (some [], ram)
  | rounds + 1, srcva, len, ram =>
      if len = 0 then .ok (some [], ram)
      else do
        let pa0 ← walkaddr m root (srcva / 4096)
        if pa0 = 0 then return (none, ram)
        else
          let n := min (4096 - srcva % 4096) len
          let (rest, after) ← copyinLoop m root rounds (srcva / 4096 * 4096 + 4096) (len - n) (moveIn pa0 srcva n ram).2
          return (rest.map ((moveIn pa0 srcva n ram).1 ++ ·), after)

def copyin (m : Memory) (root : Page) (srcva : BitVec 64) (len : Nat) (ram : Ram) :
    Except String (Option (List Byte) × Ram) :=
  copyinLoop m root len srcva.toNat len ram

/-- The loop of `copyinstr`; the length that it returns is the length of the string. -/
def copyinstrLoop (m : Memory) (root : Page) : Nat → Nat → Nat → Ram → Except String (Option (List Byte) × Ram)
  | 0, _, _, ram => .ok (some [], ram)
  | rounds + 1, srcva, max, ram =>
      if max = 0 then .ok (some [], ram)
      else do
        let pa0 ← walkaddr m root (srcva / 4096)
        if pa0 = 0 then return (none, ram)
        else
          let n := min (4096 - srcva % 4096) max
          let ((chunk, gotNull), mid) := moveString pa0 srcva n ram
          if gotNull then return (some chunk, mid)
          else
            let (rest, after) ← copyinstrLoop m root rounds (srcva / 4096 * 4096 + 4096) (max - n) mid
            return (rest.map (chunk ++ ·), after)

def copyinstr (m : Memory) (root : Page) (srcva : BitVec 64) (max : Nat) (ram : Ram) :
    Except String (Option (List Byte) × Ram) :=
  copyinstrLoop m root max srcva.toNat max ram

/-- The macro `MAX_STR_LEN`. -/
def maxStrLen : Nat := 300

/-- The page that the translation helper gives for a user address. -/
def userTarget (m : Memory) (root : Page) (va : Nat) : Option Page :=
  let pte := space m (some root) (va / 4096)
  if va / 4096 < maxVpn ∧ pte.valid = true ∧ pte.perm.u = true ∧ pte.page ≠ 0 then some pte.page else none

/-- A transfer to the user, byte by byte. -/
def outBytes (m : Memory) (root : Page) : Nat → List Byte → Ram → Bool × Ram
  | _, [], ram => (true, ram)
  | va, value :: rest, ram =>
      match userTarget m root va with
      | none => (false, ram)
      | some page => outBytes m root (va + 1) rest (ram.store page va value)

/-- A transfer from the user, byte by byte, up to a byte that stops it. -/
def inBytes (m : Memory) (root : Page) (stop : Byte → Bool) : Nat → Nat → Ram → Option (List Byte) × Ram
  | _, 0, ram => (some [], ram)
  | va, n + 1, ram =>
      match userTarget m root va with
      | none => (none, ram)
      | some page =>
          if stop (ram.byte page (va % 4096)) then (some [], ram.load va)
          else
            let (rest, after) := inBytes m root stop (va + 1) n (ram.load va)
            (rest.map (ram.byte page (va % 4096) :: ·), after)

variable {m : Memory} {root : Page} {va n : Nat} {ram : Ram}

/-- The translation helper finds the target of an address, or returns 0. -/
theorem walkaddr_target (m : Memory) (root : Page) (va : Nat) :
    walkaddr m root (va / 4096) = .ok ((userTarget m root va).getD 0) := by
  rw [walkaddr_eq, userTarget]
  by_cases mapped : va / 4096 < maxVpn ∧ (space m (some root) (va / 4096)).valid = true ∧
      (space m (some root) (va / 4096)).perm.u = true
  · obtain ⟨inside, valid, user⟩ := mapped
    by_cases null : (space m (some root) (va / 4096)).page = 0
    · simp [null]
    · simp [inside, valid, user, null]
  · have refused : ¬(va / 4096 < maxVpn ∧ (space m (some root) (va / 4096)).valid = true ∧
        (space m (some root) (va / 4096)).perm.u = true ∧ (space m (some root) (va / 4096)).page ≠ 0) :=
      fun all => mapped ⟨all.1, all.2.1, all.2.2.1⟩
    rw [if_neg mapped, if_neg refused]
    rfl

theorem userTarget_ne_zero (m : Memory) (root : Page) (va : Nat) : userTarget m root va ≠ some 0 := by
  rw [userTarget]
  split_ifs with mapped
  · exact fun same => mapped.2.2.2 (Option.some.inj same)
  · simp

/-- Addresses on one page have one target. -/
theorem userTarget_page {other : Nat} (same : va / 4096 = other / 4096) : userTarget m root va = userTarget m root other := by
  rw [userTarget, userTarget, same]

/-- Bytes on one page are moved without a failure. -/
theorem outBytes_page {page : Page} (ram : Ram) (src rest : List Byte) (mapped : userTarget m root va = some page)
    (inside : va % 4096 + src.length ≤ 4096) :
    outBytes m root va (src ++ rest) ram = outBytes m root (va + src.length) rest (moveOut page va src ram) := by
  induction src generalizing va ram with
  | nil => rfl
  | cons value src ih =>
      rw [List.length_cons] at inside
      rw [List.cons_append, outBytes, mapped]
      simp only
      cases src with
      | nil => rfl
      | cons next src =>
          rw [List.length_cons] at inside
          have same : (va + 1) / 4096 = va / 4096 := by omega
          rw [ih _ (by rw [userTarget_page same, mapped]) (by rw [List.length_cons]; omega), moveOut, List.length_cons (a := value)]
          congr 1
          omega

/-- The loop of `copyout` moves byte after byte. -/
theorem copyoutLoop_bytes (rounds : Nat) {src : List Byte} (enough : src.length ≤ rounds) :
    copyoutLoop m root rounds va src ram = .ok (outBytes m root va src ram) := by
  induction rounds generalizing va src ram with
  | zero =>
      obtain rfl : src = [] := List.length_eq_zero_iff.mp (by omega)
      rfl
  | succ rounds ih =>
      rw [copyoutLoop]
      cases src with
      | nil => rfl
      | cons value tail =>
          rw [if_neg (by simp), walkaddr_target]
          cases mapped : userTarget m root va with
          | none =>
              rw [outBytes, mapped]
              rfl
          | some page =>
              have real : page ≠ 0 := by
                rintro rfl
                exact userTarget_ne_zero m root va mapped
              have step := outBytes_page ram ((value :: tail).take (min (4096 - va % 4096) (value :: tail).length))
                ((value :: tail).drop (min (4096 - va % 4096) (value :: tail).length)) mapped
                (by rw [List.length_take]; omega)
              rw [List.take_append_drop] at step
              simp only [bind, Except.bind, Option.getD_some, real, if_false]
              rw [ih (by rw [List.length_drop]; rw [List.length_cons] at enough ⊢; omega), step]
              -- the next round starts a new page unless nothing is left
              by_cases last : (value :: tail).length ≤ 4096 - va % 4096
              · rw [Nat.min_eq_right last, List.drop_length]
                rfl
              · have next : va / 4096 * 4096 + 4096 =
                    va + ((value :: tail).take (min (4096 - va % 4096) (value :: tail).length)).length := by
                  rw [List.length_take]
                  omega
                rw [next]

/-- Bytes on one page are read without a failure. -/
theorem inBytes_moveIn {page : Page} {n : Nat} (ram : Ram) (rest : Nat) (mapped : userTarget m root va = some page)
    (inside : va % 4096 + n ≤ 4096) :
    inBytes m root (fun _ => false) va (n + rest) ram =
      ((inBytes m root (fun _ => false) (va + n) rest (moveIn page va n ram).2).1.map ((moveIn page va n ram).1 ++ ·),
        (inBytes m root (fun _ => false) (va + n) rest (moveIn page va n ram).2).2) := by
  induction n generalizing va ram with
  | zero => simp [moveIn]
  | succ n ih =>
      have order : n + 1 + rest = n + rest + 1 := by omega
      have moved : va + 1 + n = va + (n + 1) := by omega
      rw [order, inBytes, mapped]
      simp only [Bool.false_eq_true, if_false, moveIn]
      cases n with
      | zero => simp [moveIn]
      | succ n =>
          have same : (va + 1) / 4096 = va / 4096 := by omega
          rw [ih _ (by rw [userTarget_page same, mapped]) (by omega), moved]
          simp [Function.comp_def]

/-- Bytes on one page are read up to a null byte. -/
theorem inBytes_moveString {page : Page} {n : Nat} (ram : Ram) (rest : Nat) (mapped : userTarget m root va = some page)
    (inside : va % 4096 + n ≤ 4096) :
    inBytes m root (· = 0) va (n + rest) ram =
      if (moveString page va n ram).1.2 then (some (moveString page va n ram).1.1, (moveString page va n ram).2)
      else ((inBytes m root (· = 0) (va + n) rest (moveString page va n ram).2).1.map ((moveString page va n ram).1.1 ++ ·),
        (inBytes m root (· = 0) (va + n) rest (moveString page va n ram).2).2) := by
  induction n generalizing va ram with
  | zero => simp [moveString]
  | succ n ih =>
      have order : n + 1 + rest = n + rest + 1 := by omega
      have moved : va + 1 + n = va + (n + 1) := by omega
      rw [order, inBytes, mapped]
      simp only [moveString, decide_eq_true_eq]
      by_cases null : ram.byte page (va % 4096) = 0
      · simp [null]
      · rw [if_neg null, if_neg null]
        cases n with
        | zero => simp [moveString]
        | succ n =>
            have same : (va + 1) / 4096 = va / 4096 := by omega
            rw [ih _ (by rw [userTarget_page same, mapped]) (by omega), moved]
            split
            · simp
            · simp [Function.comp_def]

/-- A round of the loops ends at the end of its page, or nothing is left. -/
theorem round_end (va len : Nat) : len - min (4096 - va % 4096) len = 0 ∨
    va / 4096 * 4096 + 4096 = va + min (4096 - va % 4096) len := by
  omega

/-- What is left after nothing is left does not depend on the address. -/
theorem inBytes_next (stop : Byte → Bool) (len : Nat) (ram : Ram) :
    inBytes m root stop (va / 4096 * 4096 + 4096) (len - min (4096 - va % 4096) len) ram =
      inBytes m root stop (va + min (4096 - va % 4096) len) (len - min (4096 - va % 4096) len) ram := by
  rcases round_end va len with empty | next
  · rw [empty]
    rfl
  · rw [next]

/-- The loop of `copyin` reads byte after byte. -/
theorem copyinLoop_bytes (rounds : Nat) {len : Nat} (enough : len ≤ rounds) :
    copyinLoop m root rounds va len ram = .ok (inBytes m root (fun _ => false) va len ram) := by
  induction rounds generalizing va len ram with
  | zero =>
      obtain rfl : len = 0 := by omega
      rfl
  | succ rounds ih =>
      rw [copyinLoop]
      cases len with
      | zero => rfl
      | succ len =>
          rw [if_neg (by simp), walkaddr_target]
          cases mapped : userTarget m root va with
          | none =>
              rw [inBytes, mapped]
              rfl
          | some page =>
              have real : page ≠ 0 := by
                rintro rfl
                exact userTarget_ne_zero m root va mapped
              have whole : min (4096 - va % 4096) (len + 1) + (len + 1 - min (4096 - va % 4096) (len + 1)) = len + 1 := by omega
              have step := inBytes_moveIn ram (len + 1 - min (4096 - va % 4096) (len + 1)) mapped
                (show va % 4096 + min (4096 - va % 4096) (len + 1) ≤ 4096 by omega)
              rw [whole] at step
              simp only [bind, Except.bind, Option.getD_some, real, if_false]
              rw [ih (by omega), step, inBytes_next]
              rfl

/-- The loop of `copyinstr` reads byte after byte up to a null byte. -/
theorem copyinstrLoop_bytes (rounds : Nat) {max : Nat} (enough : max ≤ rounds) :
    copyinstrLoop m root rounds va max ram = .ok (inBytes m root (· = 0) va max ram) := by
  induction rounds generalizing va max ram with
  | zero =>
      obtain rfl : max = 0 := by omega
      rfl
  | succ rounds ih =>
      rw [copyinstrLoop]
      cases max with
      | zero => rfl
      | succ max =>
          rw [if_neg (by simp), walkaddr_target]
          cases mapped : userTarget m root va with
          | none =>
              rw [inBytes, mapped]
              rfl
          | some page =>
              have real : page ≠ 0 := by
                rintro rfl
                exact userTarget_ne_zero m root va mapped
              have whole : min (4096 - va % 4096) (max + 1) + (max + 1 - min (4096 - va % 4096) (max + 1)) = max + 1 := by omega
              have step := inBytes_moveString ram (max + 1 - min (4096 - va % 4096) (max + 1)) mapped
                (show va % 4096 + min (4096 - va % 4096) (max + 1) ≤ 4096 by omega)
              rw [whole] at step
              simp only [bind, Except.bind, Option.getD_some, real, if_false]
              rw [step]
              by_cases found : (moveString page va (min (4096 - va % 4096) (max + 1)) ram).1.2 = true
              · rw [if_pos found, if_pos found]
                rfl
              · rw [if_neg found, if_neg found, ih (by omega), inBytes_next]
                rfl

theorem copyout_bytes (m : Memory) (root : Page) (dstva : BitVec 64) (src : List Byte) (ram : Ram) :
    copyout m root dstva src ram = .ok (outBytes m root dstva.toNat src ram) :=
  copyoutLoop_bytes src.length (Nat.le_refl _)

theorem copyin_bytes (m : Memory) (root : Page) (srcva : BitVec 64) (len : Nat) (ram : Ram) :
    copyin m root srcva len ram = .ok (inBytes m root (fun _ => false) srcva.toNat len ram) :=
  copyinLoop_bytes len (Nat.le_refl _)

theorem copyinstr_bytes (m : Memory) (root : Page) (srcva : BitVec 64) (max : Nat) (ram : Ram) :
    copyinstr m root srcva max ram = .ok (inBytes m root (· = 0) srcva.toNat max ram) :=
  copyinstrLoop_bytes max (Nat.le_refl _)

end BtbuOs.Vm
