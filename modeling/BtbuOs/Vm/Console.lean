import BtbuOs.Vm.KernelStrings
import BtbuOs.Vm.UserAccess

namespace BtbuOs.Vm

open Machine

/-- A load from the array `str` of `MAX_STR_LEN` bytes. -/
def peek (str : Nat → Byte) (i : Nat) : Except String Byte := if i < maxStrLen then .ok (str i) else .error "outside of str"

/-- A store to the array `str`. -/
def poke (str : Nat → Byte) (i : Nat) (c : Byte) : Except String (Nat → Byte) :=
  if i < maxStrLen then .ok (Function.update str i c) else .error "outside of str"

/-- The loop of `console_write`; the first argument counts the bytes that are left. -/
def putStr (str : Nat → Byte) : Nat → Nat → Except String (List Byte)
  | 0, _ => .ok []
  | n + 1, i => do
      let c ← peek str i
      return c :: (← putStr str n (i + 1))

/-- The loop of `console_read`, which takes bytes from the console. -/
def getStr (input : Nat → Byte) : Nat → Nat → (Nat → Byte) → Except String (Nat → Byte)
  | 0, _, str => .ok str
  | n + 1, i, str => do
      let str ← poke str i (input i)
      getStr input n (i + 1) str

/-- `sys_write` on a file of the type `FD_STDIO`: the bytes that the console shows, the array, and the result. -/
def consoleWrite (m : Memory) (root : Page) (b : Bytes) (va len : BitVec 64) (str : Nat → Byte) :
    Except String (List Byte × (Nat → Byte) × BitVec 64) := do
  let (size, str) ← copyinstrTo m root va (min len.toNat maxStrLen) b str
  let emitted ← putStr str size.toNat 0
  return (emitted, str, len)

/-- `sys_read` on a file of the type `FD_STDIO`: the memory of the user and the result. -/
def consoleRead (m : Memory) (root : Page) (va len : BitVec 64) (input str : Nat → Byte) (ram : Ram) :
    Except String (Ram × BitVec 64) := do
  let str ← getStr input len.toNat 0 str
  let (_, ram) ← copyout m root va ((List.range len.toNat).map str) ram
  return (ram, len)

/-- All addresses of a range are mapped for the user. -/
def UserRange (m : Memory) (root : Page) (va n : Nat) : Prop := ∀ i, i < n → userTarget m root (va + i) ≠ none

/-- The console shows as many bytes of the buffer as the call returns, or the call returns -1, shows nothing and the
buffer is not mapped. The array keeps what is behind it. -/
def WriteMatches (m : Memory) (root : Page) (b : Bytes) (va len : BitVec 64) (str : Nat → Byte) : Prop :=
  ∃ emitted array result, consoleWrite m root b va len str = .ok (emitted, array, result) ∧
    (∀ k, maxStrLen ≤ k → array k = str k) ∧
    (UserRange m root va.toNat result.toNat ∧ emitted = stringBytes m root b va result.toNat ∨
      ¬UserRange m root va.toNat len.toNat ∧ emitted = [] ∧ result = -1)

/-- The buffer of the user holds as many bytes from the console as the call returns, and no other byte changes. -/
def ReadMatches (m : Memory) (root : Page) (va len : BitVec 64) (input str : Nat → Byte) (ram : Ram) : Prop :=
  ∃ after result, consoleRead m root va len input str ram = .ok (after, result) ∧
    UserRange m root va.toNat result.toNat ∧
    userBytes m root va.toNat result.toNat after = (List.range result.toNat).map input ∧
    ∀ page offset, (∀ i, i < result.toNat →
      ¬(userTarget m root (va.toNat + i) = some page ∧ offset = (va.toNat + i) % 4096)) →
        after.byte page offset = ram.byte page offset

/-- A copy of at most `max` bytes meets an address that is not mapped before a null byte. -/
def Refused (m : Memory) (root : Page) (b : Bytes) (va max : Nat) : Prop :=
  ∃ i, i < max ∧ Plain m root b va i ∧ userTarget m root (va + i) = none

/-- The buffer is short and has no null byte and no address that is not mapped; or the length is -1 and the copy shows
nothing. -/
def WriteFits (m : Memory) (root : Page) (b : Bytes) (va len : BitVec 64) : Prop :=
  len.toNat ≤ maxStrLen ∧ Plain m root b va.toNat len.toNat ∨
    len = -1 ∧ (Stops m root b va.toNat ∨ Refused m root b va.toNat maxStrLen)

section Write

variable {m : Memory} {root page : Page} {b : Bytes} {va len : BitVec 64} {str : Nat → Byte} {i n : Nat}

/-- A loop within the array shows its bytes. -/
theorem putStr_inside (inside : i + n ≤ maxStrLen) : putStr str n i = .ok ((List.range n).map fun k => str (i + k)) := by
  induction n generalizing i with
  | zero => rfl
  | succ n ih =>
      have first : peek str i = .ok (str i) := if_pos (by omega)
      rw [putStr, first, ih (by omega), List.range_succ_eq_map, List.map_cons, List.map_map]
      simp only [bind, Except.bind, pure, Except.pure, Except.ok.injEq, Nat.add_zero, List.cons.injEq, true_and]
      apply List.map_congr_left
      intro k _
      rw [Function.comp_apply, Nat.succ_eq_add_one, Nat.add_assoc, Nat.add_comm 1 k]

/-- The bytes stored at the start of an array are read back. -/
theorem putStr_writeAt {src rest : List Byte} (short : src.length ≤ maxStrLen) :
    putStr (writeAt str 0 (src ++ rest)) src.length 0 = .ok src := by
  rw [putStr_inside (by omega)]
  congr 1
  apply List.ext_getElem
  · simp
  · intro k inside below
    have here : k < (src ++ rest).length := by
      rw [List.length_append]
      omega
    rw [List.getElem_map, List.getElem_range, writeAt_inside _ here, List.getElem_append_left below]

/-- What `console_write` shows follows from what `copyinstr` leaves. -/
theorem consoleWrite_copied {src rest : List Byte} {size : Int}
    (copied : copyinstrTo m root va (min len.toNat maxStrLen) b str = .ok (size, writeAt str 0 (src ++ rest)))
    (shows : size.toNat = src.length) (short : src.length ≤ maxStrLen) :
    consoleWrite m root b va len str = .ok (src, writeAt str 0 (src ++ rest), len) := by
  rw [consoleWrite, copied]
  simp only [bind, Except.bind, shows, putStr_writeAt short]
  rfl

theorem writeAt_behind {src : List Byte} (short : src.length ≤ maxStrLen) : ∀ k, maxStrLen ≤ k → writeAt str 0 src k = str k := by
  intro k behind
  exact writeAt_outside src (Or.inr (by omega))

theorem range_unmapped (m : Memory) (root : Page) (va : Nat) : ¬UserRange m root va (2 ^ 64 - 1) := by
  intro mapped
  obtain ⟨page, here⟩ := Option.ne_none_iff_exists'.mp (mapped (2 ^ 38) (by omega))
  have limit := (userTarget_some.mp here).1
  have bound : maxVpn = 2 ^ 26 := rfl
  omega

theorem Plain.range (plain : Plain m root b va.toNat n) : UserRange m root va.toNat n := by
  intro i below
  obtain ⟨page, mapped, _⟩ := plain i below
  rw [mapped]
  exact Option.some_ne_none page

/-- Two ranges of bytes from one address on are the same only when they have the same length. -/
theorem stringBytes_inj (same : stringBytes m root b va i = stringBytes m root b va n) : i = n := by
  have lengths := congrArg List.length same
  rwa [stringBytes_length, stringBytes_length] at lengths

/-- A write that meets a null byte shows the bytes before it. -/
theorem writeMatches_null (below : i < min len.toNat maxStrLen) (plain : Plain m root b va.toNat i)
    (mapped : userTarget m root (va.toNat + i) = some page) (null : b page ((va.toNat + i) % 4096) = 0) :
    WriteMatches m root b va len str ↔ WriteFits m root b va len := by
  have stops : Stops m root b (va.toNat + i) := fun other here => by
    rw [mapped, Option.some.injEq] at here
    exact here ▸ null
  have array : maxStrLen = 300 := rfl
  have copied := copyinstrTo_null plain below mapped null str
  rw [if_neg (by omega)] at copied
  have ran := consoleWrite_copied copied (by rw [stringBytes_length, Int.toNat_natCast]) (by rw [stringBytes_length]; omega)
  constructor
  · rintro ⟨emitted, _, result, done, _, ⟨_, same⟩ | ⟨_, nothing, failed⟩⟩
    · simp only [ran, Except.ok.injEq, Prod.mk.injEq] at done
      obtain ⟨rfl, _, rfl⟩ := done
      have short := stringBytes_inj same
      omega
    · simp only [ran, Except.ok.injEq, Prod.mk.injEq] at done
      obtain ⟨rfl, _, rfl⟩ := done
      have first := congrArg List.length nothing
      rw [stringBytes_length, List.length_nil] at first
      rw [first, Nat.add_zero] at stops
      exact Or.inr ⟨failed, Or.inl stops⟩
  · rintro (⟨short, all⟩ | ⟨rfl, ends⟩)
    · obtain ⟨other, here, real⟩ := all i (by omega)
      exact absurd (stops other here) real
    · have first : i = 0 := by
        rcases ends with start | ⟨j, _, before, gone⟩
        · exact plain.stops_unique stops (fun _ lower => absurd lower (Nat.not_lt_zero _)) start
        · have same := plain.stops_unique stops before fun other here => by rw [gone] at here; simp at here
          rw [← same, mapped] at gone
          simp at gone
      subst first
      exact ⟨_, _, _, ran, writeAt_behind (by simp [array]), Or.inr ⟨range_unmapped m root va.toNat, rfl, rfl⟩⟩

/-- A write that meets an address that is not mapped shows nothing. -/
theorem writeMatches_unmapped (below : i < min len.toNat maxStrLen) (plain : Plain m root b va.toNat i)
    (unmapped : userTarget m root (va.toNat + i) = none) :
    WriteMatches m root b va len str ↔ WriteFits m root b va len := by
  have array : maxStrLen = 300 := rfl
  have copied := copyinstrTo_unmapped plain below unmapped str
  rw [if_neg (by omega), ← List.nil_append (stringBytes m root b va i)] at copied
  have ran := consoleWrite_copied copied rfl (Nat.zero_le _)
  constructor
  · rintro ⟨emitted, _, result, done, _, ⟨range, _⟩ | ⟨_, _, failed⟩⟩
    · simp only [ran, Except.ok.injEq, Prod.mk.injEq] at done
      obtain ⟨_, _, rfl⟩ := done
      exact absurd unmapped (range i (by omega))
    · simp only [ran, Except.ok.injEq, Prod.mk.injEq] at done
      obtain ⟨_, _, rfl⟩ := done
      exact Or.inr ⟨failed, Or.inr ⟨i, by omega, plain, unmapped⟩⟩
  · rintro (⟨_, all⟩ | ⟨failed, _⟩)
    · obtain ⟨other, here, _⟩ := all i (by omega)
      rw [unmapped] at here
      simp at here
    · refine ⟨_, _, _, ran, writeAt_behind ?_, Or.inr ⟨fun range => range i (by omega) unmapped, rfl, failed⟩⟩
      rw [List.nil_append, stringBytes_length]
      omega

/-- A write that meets neither shows as many bytes as the array takes. -/
theorem writeMatches_full (plain : Plain m root b va.toNat (min len.toNat maxStrLen)) :
    WriteMatches m root b va len str ↔ WriteFits m root b va len := by
  have array : maxStrLen = 300 := rfl
  have copied := copyinstrTo_full plain str
  rw [if_neg (by omega), ← List.append_nil (stringBytes m root b va _)] at copied
  have ran := consoleWrite_copied copied (by rw [stringBytes_length, Int.toNat_natCast]) (by rw [stringBytes_length]; omega)
  constructor
  · rintro ⟨emitted, _, result, done, _, ⟨_, same⟩ | ⟨_, nothing, failed⟩⟩
    · simp only [ran, Except.ok.injEq, Prod.mk.injEq] at done
      obtain ⟨rfl, _, rfl⟩ := done
      have short := stringBytes_inj same
      rw [short] at plain
      exact Or.inl ⟨by omega, plain⟩
    · simp only [ran, Except.ok.injEq, Prod.mk.injEq] at done
      obtain ⟨rfl, _, rfl⟩ := done
      have first := congrArg List.length nothing
      rw [stringBytes_length, List.length_nil, failed] at first
      exact absurd first (by decide)
  · rintro (⟨short, all⟩ | ⟨rfl, ends⟩)
    · rw [Nat.min_eq_left short] at ran
      exact ⟨_, _, _, ran, writeAt_behind (by simpa using short), Or.inl ⟨all.range, rfl⟩⟩
    · have whole : min (-1 : BitVec 64).toNat maxStrLen = 300 := by decide
      rw [whole] at plain
      rcases ends with start | ⟨j, below, _, gone⟩
      · obtain ⟨other, here, real⟩ := plain 0 (by decide)
        exact absurd (start other here) real
      · obtain ⟨other, here, _⟩ := plain j (by omega)
        rw [gone] at here
        simp at here

/-- `console_write` matches its result exactly when the buffer fits. -/
theorem writeMatches_iff (m : Memory) (root : Page) (b : Bytes) (va len : BitVec 64) (str : Nat → Byte) :
    WriteMatches m root b va len str ↔ WriteFits m root b va len := by
  rcases string_cases m root b va.toNat (min len.toNat maxStrLen) with
    ⟨i, page, below, plain, mapped, null⟩ | ⟨i, below, plain, unmapped, _⟩ | ⟨plain, _, _⟩
  · exact writeMatches_null below plain mapped null
  · exact writeMatches_unmapped below plain unmapped
  · exact writeMatches_full plain

end Write

section Read

variable {input str : Nat → Byte} {i n : Nat}

/-- A loop within the array fills it from the console. -/
theorem getStr_inside (inside : i + n ≤ maxStrLen) :
    getStr input n i str = .ok fun k => if i ≤ k ∧ k < i + n then input k else str k := by
  induction n generalizing i str with
  | zero =>
      rw [getStr]
      congr 1
      funext k
      rw [if_neg (by omega)]
  | succ n ih =>
      have first : poke str i (input i) = .ok (Function.update str i (input i)) := if_pos (by omega)
      rw [getStr, first]
      change getStr input n (i + 1) (Function.update str i (input i)) = _
      rw [ih (by omega)]
      congr 1
      funext k
      by_cases own : k = i
      · subst own
        rw [if_neg (by omega), if_pos (by omega), Function.update_self]
      · rw [Function.update_of_ne own]
        exact if_congr (by omega) rfl rfl

/-- A loop that goes on leaves the array. -/
theorem getStr_outside (inside : i ≤ maxStrLen) (long : maxStrLen < i + n) :
    getStr input n i str = .error "outside of str" := by
  induction n generalizing i str with
  | zero => omega
  | succ n ih =>
      by_cases last : i < maxStrLen
      · have first : poke str i (input i) = .ok (Function.update str i (input i)) := if_pos last
        rw [getStr, first]
        exact ih (by omega) (by omega)
      · have first : poke str i (input i) = .error "outside of str" := if_neg last
        rw [getStr, first]
        rfl

/-- A short transfer copies out what the console gives. -/
theorem consoleRead_short {m : Memory} {root : Page} {va len : BitVec 64} {ram : Ram} (short : len.toNat ≤ maxStrLen) :
    consoleRead m root va len input str ram = do
      let (_, ram) ← copyout m root va ((List.range len.toNat).map input) ram
      return (ram, len) := by
  have filled : (List.range len.toNat).map (fun k => if 0 ≤ k ∧ k < 0 + len.toNat then input k else str k) =
      (List.range len.toNat).map input := by
    apply List.map_congr_left
    intro k member
    have below := List.mem_range.mp member
    exact if_pos (by omega)
  rw [consoleRead, getStr_inside (by omega)]
  simp only [bind, Except.bind]
  rw [filled]

/-- `console_read` matches its result exactly when the length fits in the array and the buffer is mapped. -/
theorem readMatches_iff {m : Memory} {root : Page} (separate : Separate m root) (va len : BitVec 64)
    (input str : Nat → Byte) (ram : Ram) :
    ReadMatches m root va len input str ram ↔ len.toNat ≤ maxStrLen ∧ UserRange m root va.toNat len.toNat := by
  by_cases short : len.toNat ≤ maxStrLen
  · rw [and_iff_right short]
    obtain ⟨done, after, copied, success, shows, others⟩ :=
      copyout_exact m root separate va ((List.range len.toNat).map input) ram
    rw [List.length_map, List.length_range] at success shows others
    have ran : consoleRead m root va len input str ram = .ok (after, len) := by
      rw [consoleRead_short short, copied]
      rfl
    constructor
    · rintro ⟨_, result, other, range, _⟩
      simp only [ran, Except.ok.injEq, Prod.mk.injEq] at other
      rw [other.2]
      exact range
    · intro range
      have whole := success.mpr ((range_mapped m root va.toNat len.toNat).mp range)
      exact ⟨after, len, ran, range, (shows whole).1, others⟩
  · refine iff_of_false ?_ fun both => short both.1
    rintro ⟨after, result, ran, _⟩
    rw [consoleRead, getStr_outside (Nat.zero_le _) (by omega)] at ran
    simp [bind, Except.bind] at ran

end Read

section Forget

variable {m : Memory} {root : Page} {va len result : BitVec 64} {ram after : Ram} {input str array : Nat → Byte}
  {emitted : List Byte}

/-- Without the bytes that the console shows, the call is the script that copies the string. -/
theorem consoleWrite_forget (ran : consoleWrite m root ram.byte va len str = .ok (emitted, array, result)) :
    ∃ after, (Script.consoleWrite va len).run m root ram = .ok (.returned result.toNat, after) := by
  rw [consoleWrite] at ran
  obtain ⟨⟨size, filled⟩, _, ran⟩ := bind_ok.mp ran
  obtain ⟨shown, _, ran⟩ := bind_ok.mp ran
  simp only [pure, Except.pure, Except.ok.injEq, Prod.mk.injEq] at ran
  obtain ⟨_, _, rfl⟩ := ran
  refine ⟨(inBytes m root (· = 0) va.toNat (min len.toNat Script.maxStrLen) ram).2, ?_⟩
  rw [Script.consoleWrite, Script.run, copyinstr_bytes]
  rfl

/-- Without the console, the call is the script that copies out its input. -/
theorem consoleRead_forget (ran : consoleRead m root va len input str ram = .ok (after, result)) :
    (Script.consoleRead va ((List.range len.toNat).map input)).run m root ram = .ok (.returned result.toNat, after) := by
  by_cases short : len.toNat ≤ maxStrLen
  · rw [consoleRead_short short] at ran
    obtain ⟨⟨done, last⟩, copied, ran⟩ := bind_ok.mp ran
    simp only [pure, Except.pure, Except.ok.injEq, Prod.mk.injEq] at ran
    obtain ⟨rfl, rfl⟩ := ran
    rw [Script.consoleRead, Script.run, copied]
    simp [bind, Except.bind, Script.run, Script.returns]
  · rw [consoleRead, getStr_outside (Nat.zero_le _) (by omega)] at ran
    simp [bind, Except.bind] at ran

end Forget

/-- A transfer with the console matches its result exactly when the buffer fits. -/
theorem console_transfers (m : Memory) (root : Page) (separate : Separate m root) (va len : BitVec 64)
    (input str : Nat → Byte) (ram : Ram) :
    (WriteMatches m root ram.byte va len str ↔ WriteFits m root ram.byte va len) ∧
      (ReadMatches m root va len input str ram ↔ len.toNat ≤ maxStrLen ∧ UserRange m root va.toNat len.toNat) :=
  ⟨writeMatches_iff m root ram.byte va len str, readMatches_iff separate va len input str ram⟩

/-- A program writes one null byte and reads 301 bytes at the start of its first page: nothing is shown for a result of 1,
and the loop leaves its array. -/
theorem console_mismatch : ∃ k trace root,
    Reaches (step (smallLayout 12)) (fun k _ action => fed k action = true) (· = bootKernel (smallLayout 12)) k trace ∧
      (k.pool 0).pagetable = some root ∧
      consoleWrite k.memory root (fun _ _ => 0) 0x1000#64 1 (fun _ => 0) = .ok ([], fun _ => 0, 1) ∧
      ¬WriteMatches k.memory root (fun _ _ => 0) 0x1000#64 1 (fun _ => 0) ∧
      consoleRead k.memory root 0x1000#64 301 (fun _ => 65) (fun _ => 0) { byte := fun _ _ => 0, log := [] } =
        .error "outside of str" ∧
      ¬ReadMatches k.memory root 0x1000#64 301 (fun _ => 65) (fun _ => 0) { byte := fun _ _ => 0, log := [] } := by
  obtain ⟨k, trace, root, page, reached, rooted, separate, mapped⟩ := loaded_page
  have plain : Plain k.memory root (fun _ _ => 0) (0x1000#64).toNat 0 := fun _ below => absurd below (Nat.not_lt_zero _)
  have copied : copyinstrTo k.memory root 0x1000#64 (min (1 : BitVec 64).toNat maxStrLen) (fun _ _ => 0) (fun _ => 0) = _ :=
    copyinstrTo_null plain (by decide) mapped rfl (fun _ => 0)
  have nothing : writeAt (fun _ => 0) 0 (stringBytes k.memory root (fun _ _ => 0) 0x1000#64 0 ++ [0]) = fun _ => 0 := by
    funext a
    cases a with
    | zero => rfl
    | succ a => rfl
  have wrote : consoleWrite k.memory root (fun _ _ => 0) 0x1000#64 1 (fun _ => 0) = _ :=
    consoleWrite_copied copied rfl (Nat.zero_le _)
  rw [nothing] at wrote
  refine ⟨k, trace, root, reached, rooted, wrote, ?_, ?_, ?_⟩
  · rw [writeMatches_iff]
    rintro (⟨_, all⟩ | ⟨failed, _⟩)
    · obtain ⟨_, _, real⟩ := all 0 (by decide)
      exact real rfl
    · exact absurd failed (by decide)
  · rw [consoleRead, getStr_outside (Nat.zero_le _) (by decide)]
    rfl
  · rw [readMatches_iff separate]
    exact fun both => absurd both.1 (by decide)

/-- A program writes two bytes and reads two at the start of its first page. -/
theorem console_transfers_run : ∃ k trace root,
    Reaches (step (smallLayout 12)) (fun k _ action => fed k action = true) (· = bootKernel (smallLayout 12)) k trace ∧
      (k.pool 0).pagetable = some root ∧ WriteMatches k.memory root (fun _ _ => 65) 0x1000#64 2 (fun _ => 0) ∧
      ReadMatches k.memory root 0x1000#64 2 (fun _ => 66) (fun _ => 0) { byte := fun _ _ => 65, log := [] } := by
  obtain ⟨k, trace, root, page, reached, rooted, separate, mapped⟩ := loaded_page
  have letter : (65 : Byte) ≠ 0 := by decide
  have plain : Plain k.memory root (fun _ _ => 65) (0x1000#64).toNat (2 : BitVec 64).toNat := by
    intro j below
    have bound : j < 2 := below
    have same : (0x1000#64).toNat + j = 0x1000 + j := rfl
    refine ⟨page, ?_, letter⟩
    rw [same, userTarget_page (show (0x1000 + j) / 4096 = 0x1000 / 4096 by omega), mapped]
  obtain ⟨written, taken⟩ := console_transfers k.memory root separate 0x1000#64 2 (fun _ => 66) (fun _ => 0)
    { byte := fun _ _ => 65, log := [] }
  exact ⟨k, trace, root, reached, rooted, written.mpr (Or.inl ⟨by decide, plain⟩), taken.mpr ⟨by decide, plain.range⟩⟩

end BtbuOs.Vm
