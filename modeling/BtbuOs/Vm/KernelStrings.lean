import BtbuOs.Vm.Argv
import BtbuOs.Vm.CopyRange

namespace BtbuOs.Vm

open Machine

/-- The result of `copyinstr` and the array `dst` after it; a length that does not fit in an `int` overflows. -/
def copyinstrTo (m : Memory) (root : Page) (srcva : BitVec 64) (max : Nat) (b : Bytes) (dst : Nat → Byte) :
    Except String (Int × (Nat → Byte)) := do
  let (bytes, _) ← copyinstr m root srcva max { byte := b, log := [] }
  let stores ← copyinstrStores m root max srcva.toNat max { byte := b, log := [] }
  let len := (bytes.getD stores).length
  if 2 ^ 31 ≤ len then .error "overflow"
  else return (if bytes.isNone then -1 else len, writeAt dst 0 stores)

/-- A string that a call of the system copies to an array of `max` bytes; a call that checks the copy gives up at -1. -/
structure Fetched where
  va : BitVec 64
  max : Nat
  checked : Bool

/-- The calls that take strings; `exec` finds the addresses of its arguments in the array of the user. -/
inductive StringCall where
  | openat (va : BitVec 64)
  | exec (path : BitVec 64) (args : List (BitVec 64))
  | spawn (path : BitVec 64)
  | linkat (oldpath newpath : BitVec 64)
  | npcAiChat (prompt : BitVec 64)

def StringCall.strings : StringCall → List Fetched
  | .openat va => [⟨va, 200, false⟩]
  | .exec path args => ⟨path, maxStrLen, false⟩ :: args.map fun arg => ⟨arg, maxStrLen, false⟩
  | .spawn path => [⟨path, maxStrLen, true⟩]
  | .linkat oldpath newpath => [⟨oldpath, maxStrLen, true⟩, ⟨newpath, maxStrLen, true⟩]
  | .npcAiChat prompt => [⟨prompt, 1024, true⟩]

/-- The arrays that a call goes on with, each with its size; `before` gives what they hold before the copies. -/
def kernelStrings (m : Memory) (root : Page) (b : Bytes) (before : Nat → Nat → Byte) :
    Nat → List Fetched → Except String (List ((Nat → Byte) × Nat))
  | _, [] => .ok []
  | i, str :: rest => do
      let (result, array) ← copyinstrTo m root str.va str.max b (before i)
      if str.checked ∧ result < 0 then return []
      else return (array, str.max) :: (← kernelStrings m root b before (i + 1) rest)

/-- The bytes that a copy of a string stores. -/
def storedBytes (m : Memory) (root : Page) (b : Bytes) : Nat → Nat → List Byte
  | _, 0 => []
  | va, n + 1 =>
      match userTarget m root va with
      | none => []
      | some page =>
          if b page (va % 4096) = 0 then [0]
          else b page (va % 4096) :: storedBytes m root b (va + 1) n

section Stores

variable {m : Memory} {root page : Page} {b : Bytes} {va n max : Nat} {ram : Ram}

theorem moveString_byte (page : Page) (va n : Nat) (ram : Ram) : (moveString page va n ram).2.byte = ram.byte := by
  induction n generalizing va ram with
  | zero => rfl
  | succ n ih =>
      rw [moveString]
      split
      · rfl
      · exact ih (va + 1) (ram.load va)

/-- Bytes on one page are stored up to a null byte. -/
theorem storedBytes_moveString (ram : Ram) (rest : Nat) (mapped : userTarget m root va = some page)
    (inside : va % 4096 + n ≤ 4096) :
    storedBytes m root ram.byte va (n + rest) =
      if (moveString page va n ram).1.2 then (moveString page va n ram).1.1 ++ [0]
      else (moveString page va n ram).1.1 ++ storedBytes m root ram.byte (va + n) rest := by
  induction n generalizing va ram with
  | zero => simp [moveString]
  | succ n ih =>
      have order : n + 1 + rest = n + rest + 1 := by omega
      have moved : va + 1 + n = va + (n + 1) := by omega
      rw [order, storedBytes, mapped]
      simp only [moveString]
      by_cases null : ram.byte page (va % 4096) = 0
      · simp [null]
      · rw [if_neg null, if_neg null]
        cases n with
        | zero => simp [moveString]
        | succ n =>
            have same : (va + 1) / 4096 = va / 4096 := by omega
            have next : storedBytes m root ram.byte (va + 1) (n + 1 + rest) = _ :=
              ih (ram.load va) (by rw [userTarget_page same, mapped]) (by omega)
            rw [next, moved]
            dsimp only
            split
            · rfl
            · rfl

/-- The loop of `copyinstr` stores byte after byte up to a null byte. -/
theorem copyinstrStores_bytes (rounds : Nat) (enough : max ≤ rounds) :
    copyinstrStores m root rounds va max ram = .ok (storedBytes m root ram.byte va max) := by
  induction rounds generalizing va max ram with
  | zero =>
      obtain rfl : max = 0 := by omega
      rfl
  | succ rounds ih =>
      rw [copyinstrStores]
      cases max with
      | zero => rfl
      | succ max =>
          rw [if_neg (by simp), walkaddr_target]
          cases mapped : userTarget m root va with
          | none =>
              rw [storedBytes, mapped]
              rfl
          | some page =>
              have real : page ≠ 0 := by
                rintro rfl
                exact userTarget_ne_zero m root va mapped
              have whole : min (4096 - va % 4096) (max + 1) + (max + 1 - min (4096 - va % 4096) (max + 1)) = max + 1 := by omega
              have step := storedBytes_moveString ram (max + 1 - min (4096 - va % 4096) (max + 1)) mapped
                (show va % 4096 + min (4096 - va % 4096) (max + 1) ≤ 4096 by omega)
              rw [whole] at step
              simp only [bind, Except.bind, Option.getD_some, real, if_false]
              rw [step]
              by_cases found : (moveString page va (min (4096 - va % 4096) (max + 1)) ram).1.2 = true
              · rw [if_pos found, if_pos found]
                rfl
              · have next : storedBytes m root ram.byte (va / 4096 * 4096 + 4096) (max + 1 - min (4096 - va % 4096) (max + 1)) =
                    storedBytes m root ram.byte (va + min (4096 - va % 4096) (max + 1))
                      (max + 1 - min (4096 - va % 4096) (max + 1)) := by
                  rcases round_end va (max + 1) with empty | next
                  · rw [empty]
                    rfl
                  · rw [next]
                rw [if_neg found, if_neg found, ih (by omega), moveString_byte, next]
                rfl

end Stores

/-- The first bytes at an address are mapped for the user, and none of them is null. -/
def Plain (m : Memory) (root : Page) (b : Bytes) (va n : Nat) : Prop :=
  ∀ j, j < n → ∃ page, userTarget m root (va + j) = some page ∧ b page ((va + j) % 4096) ≠ 0

/-- The byte at an address is not mapped for the user or null. -/
def Stops (m : Memory) (root : Page) (b : Bytes) (va : Nat) : Prop :=
  ∀ page, userTarget m root va = some page → b page (va % 4096) = 0

/-- A copy of at most `max` bytes meets a byte that ends it, at a place that an `int` can count. -/
def Ends (m : Memory) (root : Page) (b : Bytes) (va max : Nat) : Prop :=
  ∃ i, i < max ∧ i < 2 ^ 31 ∧ Plain m root b va i ∧ Stops m root b (va + i)

/-- A string of the user that ends within `max` bytes. -/
def ShowsString (m : Memory) (root : Page) (b : Bytes) (va max : Nat) : Prop :=
  ∃ str, CString m root b va str ∧ str.length < max

section Ends

variable {m : Memory} {root page : Page} {b : Bytes} {va i n max rest : Nat} {str : List Byte}

theorem Plain.tail (plain : Plain m root b va (n + 1)) : Plain m root b (va + 1) n := by
  intro j below
  have next := plain (j + 1) (by omega)
  rwa [show va + (j + 1) = va + 1 + j by omega] at next

/-- The bytes before the place where a copy ends are stored first. -/
theorem Plain.stored (plain : Plain m root b va n) (ram : Ram) (same : ram.byte = b) :
    storedBytes m root b va (n + rest) = userBytes m root va n ram ++ storedBytes m root b (va + n) rest := by
  induction n generalizing va with
  | zero => rw [Nat.zero_add, Nat.add_zero]; rfl
  | succ n ih =>
      obtain ⟨page, mapped, real⟩ := plain 0 (Nat.succ_pos n)
      rw [Nat.add_zero] at mapped real
      rw [show n + 1 + rest = n + rest + 1 by omega, storedBytes, mapped]
      dsimp only
      rw [if_neg real, ih plain.tail, userBytes_succ, mapped, same, show va + 1 + n = va + (n + 1) by omega]
      rfl

/-- The bytes before the place where a copy ends are read first. -/
theorem Plain.read (plain : Plain m root b va n) (ram : Ram) (same : ram.byte = b) :
    ∃ log, (inBytes m root (· = 0) va (n + rest) ram).1 =
      (inBytes m root (· = 0) (va + n) rest { byte := b, log }).1.map (userBytes m root va n ram ++ ·) := by
  induction n generalizing va ram with
  | zero =>
      refine ⟨ram.log, ?_⟩
      subst same
      simp [userBytes]
  | succ n ih =>
      obtain ⟨page, mapped, real⟩ := plain 0 (Nat.succ_pos n)
      rw [Nat.add_zero] at mapped real
      obtain ⟨log, later⟩ := ih plain.tail (ram.load va) same
      refine ⟨log, ?_⟩
      have first : ¬ram.byte page (va % 4096) = 0 := by rwa [same]
      rw [show n + 1 + rest = n + rest + 1 by omega, inBytes, mapped]
      simp only [decide_eq_true_eq, first, if_false]
      rw [later, show va + 1 + n = va + (n + 1) by omega, userBytes_succ, mapped, Option.map_map]
      rfl

/-- A copy ends within its bytes, or none of them ends it. -/
theorem plain_or_stops (m : Memory) (root : Page) (b : Bytes) (va max : Nat) :
    Plain m root b va max ∨ ∃ i, i < max ∧ Plain m root b va i ∧ Stops m root b (va + i) := by
  induction max with
  | zero => exact Or.inl fun j below => absurd below (Nat.not_lt_zero j)
  | succ max ih =>
      rcases ih with plain | ⟨i, below, stop⟩
      · by_cases stops : Stops m root b (va + max)
        · exact Or.inr ⟨max, Nat.lt_succ_self max, plain, stops⟩
        · simp only [Stops, not_forall] at stops
          obtain ⟨page, mapped, real⟩ := stops
          refine Or.inl fun j below => ?_
          rcases Nat.lt_succ_iff_lt_or_eq.mp below with less | rfl
          · exact plain j less
          · exact ⟨page, mapped, real⟩
      · exact Or.inr ⟨i, by omega, stop⟩

/-- There is only one place where a copy can end. -/
theorem Plain.stops_unique (plain : Plain m root b va i) (stops : Stops m root b (va + i)) (other : Plain m root b va n)
    (stopsOther : Stops m root b (va + n)) : i = n := by
  rcases Nat.lt_trichotomy i n with less | same | more
  · obtain ⟨page, mapped, real⟩ := other i less
    exact absurd (stops page mapped) real
  · exact same
  · obtain ⟨page, mapped, real⟩ := plain n more
    exact absurd (stopsOther page mapped) real

/-- A string of the user lies before the place where its null byte stops the copy. -/
theorem cstring_place (shown : CString m root b va str) :
    Plain m root b va str.length ∧ ∃ page, userTarget m root (va + str.length) = some page ∧
      b page ((va + str.length) % 4096) = 0 := by
  obtain ⟨shows, clean⟩ := shown
  constructor
  · intro j below
    obtain ⟨page, mapped, value⟩ := shows j (by rw [List.length_append]; omega)
    rw [List.getElem_append_left below] at value
    refine ⟨page, mapped, fun null => clean ?_⟩
    rw [← null, value]
    exact List.getElem_mem below
  · obtain ⟨page, mapped, value⟩ := shows str.length (by simp)
    exact ⟨page, mapped, by simpa using value⟩

/-- The bytes before a null byte are a string of the user. -/
theorem Plain.cstring (plain : Plain m root b va n) (mapped : userTarget m root (va + n) = some page)
    (null : b page ((va + n) % 4096) = 0) : CString m root b va (userBytes m root va n { byte := b, log := [] }) := by
  have size : (userBytes m root va n { byte := b, log := [] }).length = n := by simp [userBytes]
  have value (j : Nat) (inside : j < (userBytes m root va n { byte := b, log := [] }).length) :
      (userBytes m root va n { byte := b, log := [] })[j] = b ((userTarget m root (va + j)).getD 0) ((va + j) % 4096) := by
    simp [userBytes]
  constructor
  · intro j inside
    rw [List.length_append, size, List.length_singleton] at inside
    rcases Nat.lt_succ_iff_lt_or_eq.mp inside with below | rfl
    · obtain ⟨target, here, _⟩ := plain j below
      refine ⟨target, here, ?_⟩
      rw [List.getElem_append_left (by omega), value j (by omega), here, Option.getD_some]
    · refine ⟨page, mapped, ?_⟩
      rw [List.getElem_append_right (by omega), null]
      simp [size]
  · intro listed
    obtain ⟨j, inside, zero⟩ := List.getElem_of_mem listed
    obtain ⟨target, here, real⟩ := plain j (by omega)
    rw [value j inside, here, Option.getD_some] at zero
    exact real zero

end Ends

section Results

variable {m : Memory} {root page : Page} {b : Bytes} {srcva : BitVec 64} {i max : Nat}

/-- The bytes that the user shows at an address. -/
def stringBytes (m : Memory) (root : Page) (b : Bytes) (srcva : BitVec 64) (n : Nat) : List Byte :=
  userBytes m root srcva.toNat n { byte := b, log := [] }

@[simp] theorem stringBytes_length (m : Memory) (root : Page) (b : Bytes) (srcva : BitVec 64) (n : Nat) :
    (stringBytes m root b srcva n).length = n := by
  simp [stringBytes, userBytes]

/-- The result and the array follow from the bytes read and the bytes stored. -/
theorem copyinstrTo_bytes {bytes : Option (List Byte)} {stores : List Byte} (dst : Nat → Byte)
    (read : (inBytes m root (· = 0) srcva.toNat max { byte := b, log := [] }).1 = bytes)
    (stored : storedBytes m root b srcva.toNat max = stores) :
    copyinstrTo m root srcva max b dst = if 2 ^ 31 ≤ (bytes.getD stores).length then .error "overflow"
      else .ok (if bytes.isNone then -1 else (bytes.getD stores).length, writeAt dst 0 stores) := by
  have storing : copyinstrStores m root max srcva.toNat max { byte := b, log := [] } = .ok stores := by
    rw [copyinstrStores_bytes max (Nat.le_refl max), stored]
  have reading : copyinstr m root srcva max { byte := b, log := [] } =
      .ok (bytes, (inBytes m root (· = 0) srcva.toNat max { byte := b, log := [] }).2) := by
    rw [copyinstr_bytes, ← read]
  unfold copyinstrTo
  rw [storing, reading]
  rfl

theorem copyinstrTo_null (plain : Plain m root b srcva.toNat i) (below : i < max)
    (mapped : userTarget m root (srcva.toNat + i) = some page) (null : b page ((srcva.toNat + i) % 4096) = 0)
    (dst : Nat → Byte) : copyinstrTo m root srcva max b dst = if 2 ^ 31 ≤ i then .error "overflow"
      else .ok ((i : Int), writeAt dst 0 (stringBytes m root b srcva i ++ [0])) := by
  obtain ⟨rest, rfl⟩ : ∃ rest, max = i + (rest + 1) := ⟨max - i - 1, by omega⟩
  have stored : storedBytes m root b srcva.toNat (i + (rest + 1)) = stringBytes m root b srcva i ++ [0] := by
    rw [plain.stored { byte := b, log := [] } rfl, storedBytes, mapped]
    dsimp only
    rw [if_pos null]
    rfl
  have read : (inBytes m root (· = 0) srcva.toNat (i + (rest + 1)) { byte := b, log := [] }).1 =
      some (stringBytes m root b srcva i) := by
    obtain ⟨log, later⟩ := plain.read { byte := b, log := [] } rfl
    rw [later, inBytes, mapped]
    simp [null, stringBytes]
  rw [copyinstrTo_bytes dst read stored]
  simp

theorem copyinstrTo_unmapped (plain : Plain m root b srcva.toNat i) (below : i < max)
    (unmapped : userTarget m root (srcva.toNat + i) = none) (dst : Nat → Byte) :
    copyinstrTo m root srcva max b dst = if 2 ^ 31 ≤ i then .error "overflow"
      else .ok (-1, writeAt dst 0 (stringBytes m root b srcva i)) := by
  obtain ⟨rest, rfl⟩ : ∃ rest, max = i + (rest + 1) := ⟨max - i - 1, by omega⟩
  have stored : storedBytes m root b srcva.toNat (i + (rest + 1)) = stringBytes m root b srcva i := by
    rw [plain.stored { byte := b, log := [] } rfl, storedBytes, unmapped]
    exact List.append_nil _
  have read : (inBytes m root (· = 0) srcva.toNat (i + (rest + 1)) { byte := b, log := [] }).1 = none := by
    obtain ⟨log, later⟩ := plain.read { byte := b, log := [] } rfl
    rw [later, inBytes, unmapped]
    rfl
  rw [copyinstrTo_bytes dst read stored]
  simp

theorem copyinstrTo_full (plain : Plain m root b srcva.toNat max) (dst : Nat → Byte) :
    copyinstrTo m root srcva max b dst = if 2 ^ 31 ≤ max then .error "overflow"
      else .ok ((max : Int), writeAt dst 0 (stringBytes m root b srcva max)) := by
  have stored : storedBytes m root b srcva.toNat (max + 0) = stringBytes m root b srcva max := by
    rw [plain.stored { byte := b, log := [] } rfl]
    exact List.append_nil _
  have read : (inBytes m root (· = 0) srcva.toNat (max + 0) { byte := b, log := [] }).1 = some (stringBytes m root b srcva max) := by
    obtain ⟨log, later⟩ := plain.read { byte := b, log := [] } rfl
    rw [later]
    simp [inBytes, stringBytes]
  rw [Nat.add_zero] at stored read
  rw [copyinstrTo_bytes dst read stored]
  simp

end Results

/-- The array holds the string of the user with its null byte and the result is its length, or there is no string that
ends in time and the result is -1. -/
def DeliversString (m : Memory) (root : Page) (b : Bytes) (srcva : BitVec 64) (max : Nat) (dst : Nat → Byte) : Prop :=
  ∃ result array, copyinstrTo m root srcva max b dst = .ok (result, array) ∧
    ((∃ str, CString m root b srcva.toNat str ∧ str.length < max ∧ result = str.length ∧ Holds array 0 (str ++ [0])) ∨
      ¬ShowsString m root b srcva.toNat max ∧ result = -1)

/-- A string in an array ends within the array. -/
def Terminated (array : Nat → Byte) (size : Nat) : Prop := ∃ i, i < size ∧ array i = 0

/-- The strings that a call checks end or meet an address that is not mapped, and those that it does not check end. -/
def Covered (m : Memory) (root : Page) (b : Bytes) : List Fetched → Prop
  | [] => True
  | str :: rest =>
      (if str.checked then Ends m root b str.va.toNat str.max else ShowsString m root b str.va.toNat str.max) ∧
        (ShowsString m root b str.va.toNat str.max → Covered m root b rest)

section Contract

variable {m : Memory} {root : Page} {b : Bytes} {srcva : BitVec 64} {va i max : Nat} {dst : Nat → Byte}

theorem writeAt_holds (mem : Nat → Byte) (src : List Byte) : Holds (writeAt mem 0 src) 0 src := by
  intro i inside
  exact writeAt_inside src inside

theorem Plain.ends_iff (plain : Plain m root b va i) (stops : Stops m root b (va + i)) (below : i < max) :
    Ends m root b va max ↔ i < 2 ^ 31 := by
  constructor
  · rintro ⟨n, _, small, other, stopsOther⟩
    rwa [plain.stops_unique stops other stopsOther]
  · exact fun small => ⟨i, below, small, plain, stops⟩

theorem Plain.silent (plain : Plain m root b va max) : ¬ShowsString m root b va max := by
  rintro ⟨str, shown, short⟩
  obtain ⟨_, page, mapped, null⟩ := cstring_place shown
  obtain ⟨other, here, real⟩ := plain str.length short
  rw [mapped, Option.some.injEq] at here
  exact real (here ▸ null)

theorem Plain.endless (plain : Plain m root b va max) : ¬Ends m root b va max := by
  rintro ⟨i, below, _, _, stops⟩
  obtain ⟨page, mapped, real⟩ := plain i below
  exact real (stops page mapped)

/-- A copy meets a null byte, or an address that is not mapped, or neither. -/
theorem string_cases (m : Memory) (root : Page) (b : Bytes) (va max : Nat) :
    (∃ i page, i < max ∧ Plain m root b va i ∧ userTarget m root (va + i) = some page ∧ b page ((va + i) % 4096) = 0) ∨
      (∃ i, i < max ∧ Plain m root b va i ∧ userTarget m root (va + i) = none ∧ ¬ShowsString m root b va max) ∨
      (Plain m root b va max ∧ ¬ShowsString m root b va max ∧ ¬Ends m root b va max) := by
  rcases plain_or_stops m root b va max with plain | ⟨i, below, plain, stops⟩
  · exact Or.inr (Or.inr ⟨plain, plain.silent, plain.endless⟩)
  · cases mapped : userTarget m root (va + i) with
    | some page => exact Or.inl ⟨i, page, below, plain, mapped, stops page mapped⟩
    | none =>
        refine Or.inr (Or.inl ⟨i, below, plain, mapped, ?_⟩)
        rintro ⟨str, shown, short⟩
        obtain ⟨other, page, here, null⟩ := cstring_place shown
        have same := plain.stops_unique stops other fun target there => by
          rw [here, Option.some.injEq] at there
          exact there ▸ null
        rw [same, here] at mapped
        simp at mapped

/-- `copyinstr` delivers a string or an error exactly when it meets a byte that ends the copy. -/
theorem delivers_iff (m : Memory) (root : Page) (b : Bytes) (srcva : BitVec 64) (max : Nat) (dst : Nat → Byte) :
    DeliversString m root b srcva max dst ↔ Ends m root b srcva.toNat max := by
  rcases string_cases m root b srcva.toNat max with ⟨i, page, below, plain, mapped, null⟩ | ⟨i, below, plain, mapped, silent⟩ |
    ⟨plain, silent, endless⟩
  · have copied := copyinstrTo_null plain below mapped null dst
    rw [plain.ends_iff (fun other here => by rw [mapped, Option.some.injEq] at here; exact here ▸ null) below]
    constructor
    · rintro ⟨result, array, ran, _⟩
      by_contra large
      rw [copied, if_pos (by omega)] at ran
      simp at ran
    · intro small
      rw [if_neg (by omega)] at copied
      refine ⟨_, _, copied, Or.inl ⟨stringBytes m root b srcva i, plain.cstring mapped null, ?_, ?_, writeAt_holds _ _⟩⟩
      · rwa [stringBytes_length]
      · rw [stringBytes_length]
  · have copied := copyinstrTo_unmapped plain below mapped dst
    rw [plain.ends_iff (fun other here => by rw [mapped] at here; simp at here) below]
    constructor
    · rintro ⟨result, array, ran, _⟩
      by_contra large
      rw [copied, if_pos (by omega)] at ran
      simp at ran
    · intro small
      rw [if_neg (by omega)] at copied
      exact ⟨_, _, copied, Or.inr ⟨silent, rfl⟩⟩
  · refine iff_of_false ?_ endless
    rintro ⟨result, array, copied, ⟨str, shown, short, _⟩ | ⟨_, failed⟩⟩
    · exact silent ⟨str, shown, short⟩
    · rw [copyinstrTo_full plain] at copied
      split at copied
      · simp at copied
      · simp only [Except.ok.injEq, Prod.mk.injEq] at copied
        omega

/-- Stores without a null byte do not end a string. -/
theorem writeAt_unterminated (plain : Plain m root b srcva.toNat i)
    (rest : ∀ k, i ≤ k → k < max → dst k ≠ 0) : ¬Terminated (writeAt dst 0 (stringBytes m root b srcva i)) max := by
  rintro ⟨k, inside, null⟩
  by_cases below : k < i
  · have inside : k < (stringBytes m root b srcva i).length := by rwa [stringBytes_length]
    have stored : writeAt dst 0 (stringBytes m root b srcva i) (0 + k) = (stringBytes m root b srcva i)[k] :=
      writeAt_inside _ inside
    obtain ⟨page, mapped, real⟩ := plain k below
    rw [Nat.zero_add, null] at stored
    simp only [stringBytes, userBytes, List.getElem_map, List.getElem_range, mapped, Option.getD_some] at stored
    exact real stored.symm
  · rw [writeAt_outside _ (by rw [stringBytes_length]; omega)] at null
    exact rest k (by omega) inside null

/-- A short array ends up with a string, with the bytes before an address that is not mapped, or full. -/
theorem copyinstrTo_cases (small : max < 2 ^ 31) (m : Memory) (root : Page) (b : Bytes) (srcva : BitVec 64) :
    (ShowsString m root b srcva.toNat max ∧ Ends m root b srcva.toNat max ∧
        ∀ dst, ∃ len : Nat, ∃ array, copyinstrTo m root srcva max b dst = .ok (len, array) ∧ Terminated array max) ∨
      (¬ShowsString m root b srcva.toNat max ∧ Ends m root b srcva.toNat max ∧
        ∀ dst, ∃ array, copyinstrTo m root srcva max b dst = .ok (-1, array) ∧ ((∀ k, dst k ≠ 0) → ¬Terminated array max)) ∨
      (¬ShowsString m root b srcva.toNat max ∧ ¬Ends m root b srcva.toNat max ∧
        ∀ dst, ∃ len : Nat, ∃ array, copyinstrTo m root srcva max b dst = .ok (len, array) ∧ ¬Terminated array max) := by
  rcases string_cases m root b srcva.toNat max with ⟨i, page, below, plain, mapped, null⟩ | ⟨i, below, plain, mapped, silent⟩ |
    ⟨plain, silent, endless⟩
  · refine Or.inl ⟨⟨_, plain.cstring mapped null, ?_⟩, ?_,
      fun dst => ⟨i, writeAt dst 0 (stringBytes m root b srcva i ++ [0]), ?_, i, below, ?_⟩⟩
    · simpa [userBytes] using below
    · refine ⟨i, below, by omega, plain, fun other here => ?_⟩
      rw [mapped, Option.some.injEq] at here
      exact here ▸ null
    · rw [copyinstrTo_null plain below mapped null, if_neg (by omega)]
    · have stored := writeAt_holds dst (stringBytes m root b srcva i ++ [0]) i (by simp)
      rw [Nat.zero_add] at stored
      rw [stored]
      simp
  · refine Or.inr (Or.inl ⟨silent, ⟨i, below, by omega, plain, fun other here => ?_⟩,
      fun dst => ⟨writeAt dst 0 (stringBytes m root b srcva i), ?_, fun real => ?_⟩⟩)
    · rw [mapped] at here
      simp at here
    · rw [copyinstrTo_unmapped plain below mapped, if_neg (by omega)]
    · exact writeAt_unterminated plain fun k _ _ => real k
  · refine Or.inr (Or.inr ⟨silent, endless, fun dst => ⟨max, writeAt dst 0 (stringBytes m root b srcva max), ?_, ?_⟩⟩)
    · rw [copyinstrTo_full plain, if_neg (by omega)]
    · exact writeAt_unterminated plain fun k above inside => absurd inside (by omega)

/-- A call goes on with strings that end, whatever its arrays hold before, exactly when its strings are covered. -/
theorem kernelStrings_iff (m : Memory) (root : Page) (b : Bytes) (i : Nat) {strs : List Fetched}
    (small : ∀ str ∈ strs, str.max < 2 ^ 31) :
    (∀ before, ∃ arrays, kernelStrings m root b before i strs = .ok arrays ∧ ∀ array ∈ arrays, Terminated array.1 array.2) ↔
      Covered m root b strs := by
  induction strs generalizing i with
  | nil => exact iff_of_true (fun before => ⟨[], rfl, by simp⟩) trivial
  | cons str strs ih =>
      have rest := ih (i + 1) fun other listed => small other (List.mem_cons_of_mem str listed)
      have next {before : Nat → Nat → Byte} {result : Int} {array : Nat → Byte}
          (copied : copyinstrTo m root str.va str.max b (before i) = .ok (result, array)) (goes : ¬(str.checked ∧ result < 0))
          (arrays : List ((Nat → Byte) × Nat)) : kernelStrings m root b before i (str :: strs) = .ok arrays ↔
          ∃ later, kernelStrings m root b before (i + 1) strs = .ok later ∧ arrays = (array, str.max) :: later := by
        rw [kernelStrings, copied]
        simp only [bind, Except.bind, if_neg goes]
        cases kernelStrings m root b before (i + 1) strs with
        | error message => simp
        | ok later => simp [pure, Except.pure, eq_comm]
      rcases copyinstrTo_cases (small str List.mem_cons_self) m root b str.va with
        ⟨shows, ends, copies⟩ | ⟨silent, ends, copies⟩ | ⟨silent, endless, copies⟩
      · have here : (if str.checked then Ends m root b str.va.toNat str.max else ShowsString m root b str.va.toNat str.max) := by
          split
          · exact ends
          · exact shows
        rw [Covered, and_iff_right here, imp_iff_right shows, ← rest]
        apply forall_congr'
        intro before
        obtain ⟨len, array, copied, ended⟩ := copies (before i)
        have goes : ¬(str.checked ∧ (len : Int) < 0) := fun fails => by omega
        simp only [next copied goes]
        constructor
        · rintro ⟨_, ⟨later, ran, rfl⟩, all⟩
          exact ⟨later, ran, fun other listed => all other (List.mem_cons_of_mem _ listed)⟩
        · rintro ⟨later, ran, all⟩
          refine ⟨_, ⟨later, ran, rfl⟩, ?_⟩
          intro other listed
          rcases List.mem_cons.mp listed with rfl | behind
          · exact ended
          · exact all other behind
      · cases checks : str.checked with
        | true =>
            refine iff_of_true (fun before => ?_) ?_
            · obtain ⟨array, copied, _⟩ := copies (before i)
              refine ⟨[], ?_, by simp⟩
              rw [kernelStrings, copied]
              simp [bind, Except.bind, pure, Except.pure, checks]
            · rw [Covered, checks, if_pos rfl]
              exact ⟨ends, fun shows => absurd shows silent⟩
        | false =>
            refine iff_of_false (fun ends => ?_) ?_
            · obtain ⟨array, copied, open_end⟩ := copies (fun _ => 1)
              obtain ⟨arrays, ran, all⟩ := ends fun _ _ => 1
              obtain ⟨later, _, rfl⟩ := (next copied (by simp [checks]) arrays).mp ran
              exact open_end (fun _ => by decide) (all _ List.mem_cons_self)
            · rw [Covered, checks, if_neg Bool.false_ne_true]
              exact fun covered => silent covered.1
      · refine iff_of_false (fun ends => ?_) ?_
        · obtain ⟨len, array, copied, open_end⟩ := copies (fun _ => 0)
          obtain ⟨arrays, ran, all⟩ := ends fun _ _ => 0
          obtain ⟨later, _, rfl⟩ := (next copied (fun fails => by omega) arrays).mp ran
          exact open_end (all _ List.mem_cons_self)
        · rw [Covered]
          rintro ⟨here, _⟩
          split at here
          · exact endless here
          · exact silent here

end Contract

theorem StringCall.strings_small (call : StringCall) : ∀ str ∈ call.strings, str.max < 2 ^ 31 := by
  cases call with
  | openat va => simp [strings]
  | exec path args => simp [strings, maxStrLen]
  | spawn path => simp [strings, maxStrLen]
  | linkat oldpath newpath => simp [strings, maxStrLen]
  | npcAiChat prompt => simp [strings]

/-- `copyinstr` gives a string or an error exactly when it meets a byte that ends the copy. A call of the system goes on
with strings that end exactly when those that it checks meet such a byte and the others end in time. -/
theorem copyinstr_contract (m : Memory) (root : Page) (b : Bytes) :
    (∀ srcva max dst, DeliversString m root b srcva max dst ↔ Ends m root b srcva.toNat max) ∧
      ∀ call : StringCall, (∀ before, ∃ arrays, kernelStrings m root b before 0 call.strings = .ok arrays ∧
        ∀ array ∈ arrays, Terminated array.1 array.2) ↔ Covered m root b call.strings :=
  ⟨delivers_iff m root b, fun call => kernelStrings_iff m root b 0 call.strings_small⟩

/-- The first program is loaded, and its first page is mapped. -/
theorem loaded_page : ∃ k trace root page,
    Reaches (step (smallLayout 12)) (fun k _ action => fed k action = true) (· = bootKernel (smallLayout 12)) k trace ∧
      (k.pool 0).pagetable = some root ∧ Separate k.memory root ∧ userTarget k.memory root 0x1000 = some page := by
  obtain ⟨k, trace, reached, test⟩ := replay_witness (step (smallLayout 12)) (fun k _ action => fed k action = true)
    (· = bootKernel (smallLayout 12)) loadRun (bootKernel (smallLayout 12)) rfl
    (fun k _ => (k.pool 0).pagetable.any fun root => (userTarget k.memory root 0x1000).isSome) (by decide +kernel)
  obtain ⟨root, rooted, mapped⟩ := (Option.any_eq_true ..).mp test
  obtain ⟨page, mapped⟩ := Option.isSome_iff_exists.mp mapped
  exact ⟨k, trace, root, page, reached, rooted, (reached_kept reached).1.sound.separate (s := 0) rooted, mapped⟩

/-- A program opens a path of 200 bytes without a null byte, at the start of its first page: `copyinstr` returns 200, and
`sys_openat` goes on with an array that does not end. -/
theorem path_unterminated : ∃ k trace root,
    Reaches (step (smallLayout 12)) (fun k _ action => fed k action = true) (· = bootKernel (smallLayout 12)) k trace ∧
      (k.pool 0).pagetable = some root ∧
      copyinstrTo k.memory root 0x1000#64 200 (fun _ _ => 65) (fun _ => 0) =
        .ok (200, writeAt (fun _ => 0) 0 (stringBytes k.memory root (fun _ _ => 65) 0x1000#64 200)) ∧
      ¬DeliversString k.memory root (fun _ _ => 65) 0x1000#64 200 (fun _ => 0) ∧
      ¬∀ before, ∃ arrays, kernelStrings k.memory root (fun _ _ => 65) before 0 (StringCall.openat 0x1000#64).strings = .ok arrays ∧
        ∀ array ∈ arrays, Terminated array.1 array.2 := by
  obtain ⟨k, trace, root, page, reached, rooted, _, mapped⟩ := loaded_page
  have plain : Plain k.memory root (fun _ _ => 65) (0x1000#64).toNat 200 := by
    intro j below
    have letter : (65 : Byte) ≠ 0 := by decide
    have same : (0x1000#64).toNat + j = 0x1000 + j := rfl
    refine ⟨page, ?_, letter⟩
    rw [same, userTarget_page (show (0x1000 + j) / 4096 = 0x1000 / 4096 by omega), mapped]
  refine ⟨k, trace, root, reached, rooted, copyinstrTo_full plain _, ?_, ?_⟩
  · rw [delivers_iff]
    exact plain.endless
  · rw [kernelStrings_iff _ _ _ _ (StringCall.strings_small _)]
    exact fun covered => plain.silent covered.1

end BtbuOs.Vm
