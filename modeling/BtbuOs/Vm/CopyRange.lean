import BtbuOs.Vm.Contents
import BtbuOs.Vm.Permissions
import BtbuOs.Vm.Refinement

namespace BtbuOs.Vm

open Machine Partition
open Sched (Slot)

/-- Two page numbers of a page table do not share a page of the user. -/
def Separate (m : Memory) (root : Page) : Prop :=
  ∀ first second, first < maxVpn → second < maxVpn → ∀ page, userPage (space m (some root) first) = some page →
    userPage (space m (some root) second) = some page → first = second

/-- The bytes that a range of the user shows. -/
def userBytes (m : Memory) (root : Page) (va n : Nat) (ram : Ram) : List Byte :=
  (List.range n).map fun i => ram.byte ((userTarget m root (va + i)).getD 0) ((va + i) % 4096)

variable {l : Layout} {m : Memory} {h : Holding} {s : Slot} {root page : Page} {va n : Nat} {ram : Ram}

/-- The page tables of the kernel are separate. -/
theorem Sound.separate (sound : Sound l m h) (rooted : h.roots s = some root) : Separate m root := by
  intro first second inside insideSecond page mine same
  rw [← rooted] at mine same
  exact sound.distinct inside insideSecond mine same

/-- The target of an address is a page of the user other than 0. -/
theorem userTarget_some : userTarget m root va = some page ↔
    va / 4096 < maxVpn ∧ userPage (space m (some root) (va / 4096)) = some page ∧ page ≠ 0 := by
  rw [userTarget, userPage]
  simp only [Option.ite_none_right_eq_some, Option.some.injEq, Bool.and_eq_true]
  constructor
  · rintro ⟨⟨inside, valid, user, real⟩, rfl⟩
    exact ⟨inside, ⟨⟨valid, user⟩, rfl⟩, real⟩
  · rintro ⟨inside, ⟨⟨valid, user⟩, rfl⟩, real⟩
    exact ⟨⟨inside, valid, user, real⟩, rfl⟩

/-- Addresses with one target lie on one page. -/
theorem Separate.near (separate : Separate m root) {first second : Nat} (mine : userTarget m root first = some page)
    (same : userTarget m root second = some page) : first / 4096 = second / 4096 := by
  rw [userTarget_some] at mine same
  exact separate _ _ mine.1 same.1 page mine.2.1 same.2.1

@[simp] theorem Ram.store_self (ram : Ram) (page : Page) (va : Nat) (value : Byte) :
    (ram.store page va value).byte page (va % 4096) = value := by
  simp [Ram.store]

theorem Ram.store_other (ram : Ram) (page : Page) (va : Nat) (value : Byte) {other : Page} {offset : Nat}
    (different : ¬(other = page ∧ offset = va % 4096)) :
    (ram.store page va value).byte other offset = ram.byte other offset := by
  by_cases own : other = page
  · subst own
    have away : offset ≠ va % 4096 := fun here => different ⟨rfl, here⟩
    simp [Ram.store, away]
  · simp [Ram.store, own]

/-- A transfer to the user succeeds when all addresses have a target. -/
theorem outBytes_succeeds (src : List Byte) (mapped : ∀ i, i < src.length → userTarget m root (va + i) ≠ none) :
    (outBytes m root va src ram).1 = true := by
  induction src generalizing va ram with
  | nil => rfl
  | cons value src ih =>
      rw [List.length_cons] at mapped
      obtain ⟨page, first⟩ := Option.ne_none_iff_exists'.mp (mapped 0 (Nat.succ_pos _))
      rw [Nat.add_zero] at first
      rw [outBytes, first]
      apply ih
      intro i inside
      have next := mapped (i + 1) (by omega)
      rwa [show va + (i + 1) = va + 1 + i by omega] at next

/-- A transfer to the user writes no byte outside its range. -/
theorem outBytes_outside (src : List Byte) {offset : Nat}
    (outside : ∀ i, i < src.length → ¬(userTarget m root (va + i) = some page ∧ offset = (va + i) % 4096)) :
    (outBytes m root va src ram).2.byte page offset = ram.byte page offset := by
  induction src generalizing va ram with
  | nil => rfl
  | cons value src ih =>
      rw [List.length_cons] at outside
      rw [outBytes]
      cases first : userTarget m root va with
      | none => rfl
      | some target =>
          have rest (i : Nat) (inside : i < src.length) :
              ¬(userTarget m root (va + 1 + i) = some page ∧ offset = (va + 1 + i) % 4096) := by
            have next := outside (i + 1) (by omega)
            rwa [show va + (i + 1) = va + 1 + i by omega] at next
          rw [ih rest]
          apply Ram.store_other
          rintro ⟨rfl, here⟩
          exact outside 0 (Nat.succ_pos _) ⟨first, here⟩

/-- A transfer to the user that succeeds leaves its bytes in the range. -/
theorem outBytes_inside (separate : Separate m root) (src : List Byte)
    (mapped : ∀ i, i < src.length → userTarget m root (va + i) ≠ none) {i : Nat} (inside : i < src.length)
    (mine : userTarget m root (va + i) = some page) :
    (outBytes m root va src ram).2.byte page ((va + i) % 4096) = src[i] := by
  induction src generalizing va i ram with
  | nil => simp at inside
  | cons value src ih =>
      rw [List.length_cons] at mapped inside
      obtain ⟨target, first⟩ := Option.ne_none_iff_exists'.mp (mapped 0 (Nat.succ_pos _))
      rw [Nat.add_zero] at first
      rw [outBytes, first]
      cases i with
      | zero =>
          rw [Nat.add_zero] at mine
          obtain rfl : target = page := Option.some.inj (first.symm.trans mine)
          -- a later address on the same page has another offset
          have later (j : Nat) (_ : j < src.length) :
              ¬(userTarget m root (va + 1 + j) = some target ∧ (va + 0) % 4096 = (va + 1 + j) % 4096) := by
            rintro ⟨same, offset⟩
            have near := separate.near first same
            omega
          rw [List.getElem_cons_zero, outBytes_outside src later, Nat.add_zero, Ram.store_self]
      | succ i =>
          have moved : va + (i + 1) = va + 1 + i := by omega
          rw [moved] at mine ⊢
          rw [List.getElem_cons_succ]
          apply ih _ _ mine
          intro j bound
          have next := mapped (j + 1) (by omega)
          rwa [show va + (j + 1) = va + 1 + j by omega] at next

/-- Two transfers to neighbouring ranges are one transfer. -/
theorem outBytes_append (first second : List Byte) : outBytes m root va (first ++ second) ram =
    if (outBytes m root va first ram).1 then outBytes m root (va + first.length) second (outBytes m root va first ram).2
    else (false, (outBytes m root va first ram).2) := by
  induction first generalizing va ram with
  | nil => rfl
  | cons value first ih =>
      rw [List.cons_append, outBytes, outBytes]
      cases userTarget m root va with
      | none => rfl
      | some page =>
          dsimp only
          rw [ih, List.length_cons, Nat.add_assoc, Nat.add_comm 1]

theorem userBytes_succ (m : Memory) (root : Page) (va n : Nat) (ram : Ram) :
    userBytes m root va (n + 1) ram =
      ram.byte ((userTarget m root va).getD 0) (va % 4096) :: userBytes m root (va + 1) n ram := by
  rw [userBytes, userBytes, List.range_succ_eq_map, List.map_cons, List.map_map, Nat.add_zero]
  congr 1
  apply List.map_congr_left
  intro i _
  rw [Function.comp_apply, show va + (i + 1) = va + 1 + i by omega]

/-- A transfer from the user that meets no end shows the bytes of the range and changes none. -/
theorem inBytes_reads (ram : Ram) (n : Nat) (mapped : ∀ i, i < n → userTarget m root (va + i) ≠ none) :
    (inBytes m root (fun _ => false) va n ram).1 = some (userBytes m root va n ram) ∧
      (inBytes m root (fun _ => false) va n ram).2.byte = ram.byte := by
  induction n generalizing va ram with
  | zero => exact ⟨rfl, rfl⟩
  | succ n ih =>
      obtain ⟨page, first⟩ := Option.ne_none_iff_exists'.mp (mapped 0 (Nat.succ_pos _))
      rw [Nat.add_zero] at first
      have rest (i : Nat) (inside : i < n) : userTarget m root (va + 1 + i) ≠ none := by
        have next := mapped (i + 1) (by omega)
        rwa [show va + (i + 1) = va + 1 + i by omega] at next
      obtain ⟨bytes, same⟩ := ih (ram.load va) rest
      rw [inBytes, first, userBytes_succ, first]
      simp only [Bool.false_eq_true, if_false, bytes, Option.map_some, Option.getD_some]
      exact ⟨rfl, same⟩

/-- All addresses of a range have a target when all its pages are mapped for the user. -/
theorem range_mapped (m : Memory) (root : Page) (va n : Nat) : (∀ i, i < n → userTarget m root (va + i) ≠ none) ↔
    ∀ v, Covers va n v → v < maxVpn ∧ ∃ page, userPage (space m (some root) v) = some page ∧ page ≠ 0 := by
  constructor
  · rintro mapped v ⟨byte, low, high, rfl⟩
    obtain ⟨page, mine⟩ := Option.ne_none_iff_exists'.mp (mapped (byte - va) (by omega))
    rw [show va + (byte - va) = byte by omega, userTarget_some] at mine
    exact ⟨mine.1, page, mine.2⟩
  · intro pages i inside
    obtain ⟨limit, page, mine, real⟩ := pages ((va + i) / 4096) ⟨va + i, by omega, by omega, rfl⟩
    rw [userTarget_some.mpr ⟨limit, mine, real⟩]
    exact Option.some_ne_none page

/-- `copyout` succeeds exactly when all pages of the range are mapped for the user to pages other than 0; then the range
shows the bytes and `copyin` reads them. No other byte changes. -/
theorem copyout_exact (m : Memory) (root : Page) (separate : Separate m root) (dstva : BitVec 64) (src : List Byte)
    (ram : Ram) : ∃ done after, copyout m root dstva src ram = .ok (done, after) ∧
      (done = true ↔ ∀ v, Covers dstva.toNat src.length v →
        v < maxVpn ∧ ∃ page, userPage (space m (some root) v) = some page ∧ page ≠ 0) ∧
      (done = true → userBytes m root dstva.toNat src.length after = src ∧
        ∃ last, copyin m root dstva src.length after = .ok (some src, last) ∧ last.byte = after.byte) ∧
      ∀ page offset, (∀ i, i < src.length →
        ¬(userTarget m root (dstva.toNat + i) = some page ∧ offset = (dstva.toNat + i) % 4096)) →
          after.byte page offset = ram.byte page offset := by
  have success : (outBytes m root dstva.toNat src ram).1 = true ↔
      ∀ i, i < src.length → userTarget m root (dstva.toNat + i) ≠ none := by
    constructor
    · intro done i inside unmapped
      rw [outBytes_fails src inside unmapped] at done
      simp at done
    · exact outBytes_succeeds src
  refine ⟨_, _, copyout_bytes m root dstva src ram, ?_, fun done => ?_, fun page offset outside => outBytes_outside src outside⟩
  · rw [success, range_mapped]
  · rw [success] at done
    have shows : userBytes m root dstva.toNat src.length (outBytes m root dstva.toNat src ram).2 = src := by
      apply List.ext_getElem
      · simp [userBytes]
      · intro i _ inside
        obtain ⟨page, mine⟩ := Option.ne_none_iff_exists'.mp (done i inside)
        simp only [userBytes, List.getElem_map, List.getElem_range, mine, Option.getD_some]
        exact outBytes_inside separate src done inside mine
    obtain ⟨bytes, same⟩ := inBytes_reads (outBytes m root dstva.toNat src ram).2 src.length done
    refine ⟨shows, _, ?_, same⟩
    rw [copyin_bytes, ← shows, ← bytes, shows]

/-- A program of two pages is loaded. -/
def loadTwoPages : List Action := [{ call := .loadInitApp 5000 true, denials := [] }]

/-- Two bytes on both sides of the end of a page are copied out and in. -/
theorem copyout_exact_run : ∃ k trace root after last,
    Reaches (step (smallLayout 12)) (fun k _ action => fed k action = true) (· = bootKernel (smallLayout 12)) k trace ∧
      (k.pool 0).pagetable = some root ∧
      copyout k.memory root 0x1fff [7, 9] { byte := fun _ _ => 0, log := [] } = .ok (true, after) ∧
      copyin k.memory root 0x1fff 2 after = .ok (some [7, 9], last) := by
  obtain ⟨k, trace, reached, test⟩ := replay_witness (step (smallLayout 12)) (fun k _ action => fed k action = true)
    (· = bootKernel (smallLayout 12)) loadTwoPages (bootKernel (smallLayout 12)) rfl
    (fun k _ => (k.pool 0).pagetable.any fun root =>
      (userPage (space k.memory (some root) 1)).any (· ≠ 0) && (userPage (space k.memory (some root) 2)).any (· ≠ 0))
    (by decide +kernel)
  simp only [Option.any_eq_true, Bool.and_eq_true, decide_eq_true_eq] at test
  obtain ⟨root, rooted, first, second⟩ := test
  have separate := (reached_kept reached).1.sound.separate (s := 0) rooted
  obtain ⟨done, after, ran, success, result, _⟩ :=
    copyout_exact k.memory root separate 0x1fff [7, 9] { byte := fun _ _ => 0, log := [] }
  have mapped : done = true := by
    rw [success]
    rintro v ⟨byte, low, high, rfl⟩
    have low : 0x1fff ≤ byte := low
    have high : byte < 0x1fff + 2 := high
    obtain here | here : byte = 0x1fff ∨ byte = 0x2000 := by omega
    · rw [here]
      exact ⟨by decide, first⟩
    · rw [here]
      exact ⟨by decide, second⟩
  obtain ⟨_, last, read, _⟩ := result mapped
  rw [mapped] at ran
  exact ⟨k, trace, root, after, last, reached, rooted, ran, read⟩

/-- Memory is used up when a page for the stack of a second thread is mapped: the page is 0, and `copyout` to it fails. -/
theorem null_page_refused : ∃ k trace root after,
    Reaches (step (smallLayout 7)) (fun k _ action => fed k action = true) (· = bootKernel (smallLayout 7)) k trace ∧
      uvmmap root { r := true, w := true, x := false, u := true } 1 4 k.memory = .ok (true, after) ∧ Separate after root ∧
      userPage (space after (some root) 4) = some 0 ∧
      copyout after root 0x4000 [1] { byte := fun _ _ => 0, log := [] } = .ok (false, { byte := fun _ _ => 0, log := [] }) := by
  obtain ⟨k, trace, reached, test⟩ := replay_witness (step (smallLayout 7)) (fun k _ action => fed k action = true)
    (· = bootKernel (smallLayout 7)) loadRun (bootKernel (smallLayout 7)) rfl
    (fun k _ => (k.pool 0).pagetable.any fun root => decide (kalloc k.memory).1.isNone &&
      (mapPage (kalloc k.memory).2 root 4 0 { r := true, w := true, x := false, u := true }).toOption.any Prod.fst)
    (by decide +kernel)
  have kept := (reached_kept reached).1
  simp only [Option.any_eq_true, Bool.and_eq_true, decide_eq_true_eq, Option.isNone_iff_eq_none] at test
  obtain ⟨root, rooted, starved, ⟨⟨mapped, after⟩, mapping, rfl⟩⟩ := test
  have held : k.holding.roots 0 = some root := rooted
  have done := toOption_some.mp mapping
  have alloc : kalloc k.memory = (none, (kalloc k.memory).2) := Prod.ext starved rfl
  obtain ⟨sound, _⟩ := alloc_failed kept.sound alloc
  obtain ⟨_, _, _, remapped, entry⟩ := mapPage_adds sound.forest held done
  rw [held] at entry
  have null : userPage (space after (some root) 4) = some 0 := by
    rw [entry]
    rfl
  have real (v : Nat) (inside : v < maxVpn) (other : v ≠ 4) {page : Page}
      (mine : userPage (space after (some root) v) = some page) :
      userPage (space (kalloc k.memory).2 (k.holding.roots 0) v) = some page ∧ page ≠ 0 := by
    have same := remapped 0 v inside fun both => other both.2
    rw [held] at same
    rw [same, ← held] at mine
    have managed := sound.owned.roleManaged (.leaf 0 (px 0 v) (tablePath v)) page (by rw [occupant_leaf rfl]; exact mine)
    refine ⟨mine, fun zero => ?_⟩
    rw [zero] at managed
    exact absurd managed.1 (by decide)
  refine ⟨k, trace, root, after, reached, ?_, ?_, null, ?_⟩
  · rw [uvmmap, alloc]
    simp only [Option.getD_none, bind, Except.bind, done]
    rfl
  · intro first second inside insideSecond page mine same
    by_cases here : first = 4
    · subst here
      by_contra other
      obtain rfl : page = 0 := Option.some.inj (mine.symm.trans null)
      exact (real second insideSecond (Ne.symm other) same).2 rfl
    · by_cases there : second = 4
      · subst there
        obtain rfl : page = 0 := Option.some.inj (same.symm.trans null)
        exact absurd rfl (real first inside here mine).2
      · exact sound.distinct inside insideSecond (real first inside here mine).1 (real second insideSecond there same).1
  · have refused : userTarget after root 0x4000 = none := by
      rw [userTarget, if_neg]
      rintro ⟨_, valid, user, nonzero⟩
      rw [show 0x4000 / 4096 = 4 from rfl, entry] at nonzero
      exact nonzero rfl
    rw [copyout_bytes]
    change Except.ok (outBytes after root 0x4000 [1] _) = _
    rw [outBytes, refused]

end BtbuOs.Vm
