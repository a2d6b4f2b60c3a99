import BtbuOs.Vm.Mmap

namespace BtbuOs.Vm

open Machine Partition
open Sched (Slot)

/-- The loop of `uvmunmap` with `do_free` and the bytes of the pages. -/
def unmapRangeBytes (l : Layout) (root : Page) : Nat → Nat → Memory → Bytes → Except String (Memory × Bytes)
  | 0, _, m, b => .ok (m, b)
  | npages + 1, vpn, m, b => do
      let (table, _) ← walk m root vpn false
      match table with
      | none => unmapRangeBytes l root npages (vpn + 1) m b
      | some table =>
          let pte := m.entry table (px 0 vpn)
          if pte.valid then
            if pte.perm = noPerm then .error "uvmunmap: not a leaf"
            else
              let freed ← kfree l m pte.page
              unmapRangeBytes l root npages (vpn + 1) (freed.setEntry table (px 0 vpn) zeroPte) (kfreeBytes m b pte.page)
          else unmapRangeBytes l root npages (vpn + 1) (m.setEntry table (px 0 vpn) zeroPte) b

/-- `sys_munmap` with the bytes of the pages. -/
def sysMunmapBytes (l : Layout) (k : Kernel) (b : Bytes) (s : Slot) (start len : BitVec 64) :
    Except String (Kernel × Bytes × Int) :=
  match (k.pool s).pagetable with
  | none => .error "fault"
  | some root =>
      if start &&& 4095 ≠ 0 then .ok (k, b, -1)
      else if len = 0 then .ok (k, b, 0)
      else do
        let vpn := start.toNat / 4096
        let rounds := rangeRounds start (roundUp len)
        let mapped ← checkRange k.memory root true rounds vpn
        if !mapped then return (k, b, -1)
        else
          let (m, b) ← unmapRangeBytes l root rounds vpn k.memory b
          return ({ k with memory := m }, b, 0)

variable {l : Layout} {m after : Memory} {b c : Bytes} {h : Holding} {s : Slot} {root : Page} {vpn : Nat}

/-- The loop without the bytes is the one of the kernel. -/
theorem unmapRangeBytes_forget (l : Layout) (root : Page) (npages vpn : Nat) (m : Memory) (b : Bytes) :
    (unmapRangeBytes l root npages vpn m b).map Prod.fst = unmapRange l root true npages vpn m := by
  induction npages generalizing vpn m b with
  | zero => rfl
  | succ npages ih =>
      rw [unmapRangeBytes, unmapRange]
      cases walk m root vpn false with
      | error message => rfl
      | ok result =>
          obtain ⟨found, same⟩ := result
          cases found with
          | none => exact ih (vpn + 1) m b
          | some table =>
              simp only [bind, Except.bind]
              split_ifs
              · rfl
              · cases kfree l m (m.entry table (px 0 vpn)).page with
                | error message => rfl
                | ok freed => exact ih (vpn + 1) _ _
              · exact ih (vpn + 1) _ b

/-- The loop returns with the bytes when it does without them. -/
theorem unmapRangeBytes_total {npages : Nat} (b : Bytes) (done : unmapRange l root true npages vpn m = .ok after) :
    ∃ last c, unmapRangeBytes l root npages vpn m b = .ok (last, c) := by
  rw [← unmapRangeBytes_forget l root npages vpn m b] at done
  cases ran : unmapRangeBytes l root npages vpn m b with
  | error message =>
      rw [ran] at done
      simp [Except.map] at done
  | ok result => exact ⟨result.1, result.2, rfl⟩

/-- Without the bytes the call is the one of the kernel. -/
theorem sysMunmapBytes_forget (l : Layout) (k : Kernel) (b : Bytes) (s : Slot) (start len : BitVec 64) :
    (sysMunmapBytes l k b s start len).map (fun result => (result.1, [Event.returned result.2.2])) =
      sysMunmap l k s start len := by
  unfold sysMunmapBytes sysMunmap
  cases (k.pool s).pagetable with
  | none => rfl
  | some root =>
      simp only
      split_ifs
      · rfl
      · rfl
      · cases checkRange k.memory root true (rangeRounds start (roundUp len)) (start.toNat / 4096) with
        | error message => rfl
        | ok mapped =>
            cases mapped with
            | false => rfl
            | true =>
                rw [← unmapRangeBytes_forget l root _ _ _ b]
                simp only [bind, Except.bind, Bool.not_true, Bool.false_eq_true, if_false]
                cases unmapRangeBytes l root (rangeRounds start (roundUp len)) (start.toNat / 4096) k.memory b with
                | error message => rfl
                | ok result => rfl

/-- A page that is not free after the loop was not free before and keeps its bytes. -/
theorem unmapRangeBytes_kept (npages : Nat) {page : Page} (done : unmapRangeBytes l root npages vpn m b = .ok (after, c))
    (taken : page ∉ after.free) : page ∉ m.free ∧ c page = b page := by
  induction npages generalizing vpn m b with
  | zero =>
      simp only [unmapRangeBytes, Except.ok.injEq, Prod.mk.injEq] at done
      obtain ⟨rfl, rfl⟩ := done
      exact ⟨taken, rfl⟩
  | succ npages ih =>
      rw [unmapRangeBytes] at done
      obtain ⟨⟨found, same⟩, _, rest⟩ := bind_ok.mp done
      cases found with
      | none => exact ih rest
      | some table =>
          simp only at rest
          split_ifs at rest
          · obtain ⟨freed, given, later⟩ := bind_ok.mp rest
            obtain ⟨outside, same⟩ := ih later
            have free : (freed.setEntry table (px 0 vpn) zeroPte).free = (m.entry table (px 0 vpn)).page :: m.free :=
              (kfree_ok given).2.1
            rw [free, List.mem_cons, not_or] at outside
            exact ⟨outside.2, by rw [same, kfreeBytes_other _ _ _ outside.1]⟩
          · obtain ⟨outside, same⟩ := ih rest
            exact ⟨outside, same⟩

/-- Some page numbers of a process that were mapped are not mapped any more and their pages are free, and nothing else
changes. -/
structure Withdrawn (l : Layout) (m after : Memory) (b c : Bytes) (h : Holding) (s : Slot) (pages : Nat → Prop) : Prop where
  sound : Sound l after h
  inside : ∀ v, pages v → v < maxVpn
  present : ∀ v, pages v → (space m (h.roots s) v).valid = true
  gone : ∀ v, pages v → (space after (h.roots s) v).valid = false
  touched : Touched m after h.roots s pages
  freed : ∀ page, page ∈ after.free ↔ page ∈ m.free ∨ ∃ v, pages v ∧ userPage (space m (h.roots s) v) = some page
  bytes : ∀ page, page ∉ after.free → c page = b page

/-- The loop of `uvmunmap` withdraws a range that is mapped. -/
theorem Withdrawn.loop (rooted : h.roots s = some root) (npages : Nat) (sound : Sound l m h)
    (present : ∀ v, vpn ≤ v → v < vpn + npages → (space m (h.roots s) v).valid = true)
    (done : unmapRangeBytes l root npages vpn m b = .ok (after, c)) :
    Withdrawn l m after b c h s fun v => vpn ≤ v ∧ v < vpn + npages := by
  have ran : unmapRange l root true npages vpn m = .ok after := by
    rw [← unmapRangeBytes_forget l root npages vpn m b, done]
    rfl
  constructor
  · exact (unmapRange_frees rooted npages sound ran).sound
  · rintro v ⟨low, high⟩
    have last := unmapRange_inside npages (by omega) ran
    omega
  · rintro v ⟨low, high⟩
    exact present v low high
  · rintro v ⟨low, high⟩
    exact unmapRange_invalid rooted npages sound ran low high
  · exact unmapRange_touched rooted npages sound ran
  · intro page
    rw [unmapRange_free rooted npages sound ran]
    constructor
    · rintro (free | ⟨v, low, high, mine⟩)
      · exact Or.inl free
      · exact Or.inr ⟨v, ⟨low, high⟩, mine⟩
    · rintro (free | ⟨v, ⟨low, high⟩, mine⟩)
      · exact Or.inl free
      · exact Or.inr ⟨v, low, high, mine⟩
  · intro page taken
    exact (unmapRangeBytes_kept npages done taken).2

/-- The check loop that succeeds has found all pages as wanted. -/
theorem checkRange_true {wanted : Bool} (npages : Nat) (done : checkRange m root wanted npages vpn = .ok true) {v : Nat}
    (low : vpn ≤ v) (high : v < vpn + npages) : v < maxVpn ∧ (space m (some root) v).valid = wanted := by
  induction npages generalizing vpn with
  | zero => omega
  | succ npages ih =>
      have inside : vpn < maxVpn := by
        rw [checkRange] at done
        obtain ⟨result, walked, _⟩ := bind_ok.mp done
        exact walk_inside walked
      rw [checkRange_succ wanted npages inside] at done
      split at done
      · rename_i fits
        by_cases here : v = vpn
        · rw [here]
          exact ⟨inside, fits⟩
        · exact ih done (by omega) (by omega)
      · simp at done

/-- The range ends below 2^64 when its last page is counted whole, or the arguments name no range. -/
def Unwrapped (start len : BitVec 64) : Prop :=
  start &&& 4095 ≠ 0 ∨ len = 0 ∨ start.toNat / 4096 + (len.toNat + 4095) / 4096 < 2 ^ 52

theorem aligned_start {start : BitVec 64} (aligned : start &&& 4095 = 0) : start.toNat % 4096 = 0 := by
  have low : (start &&& 4095).toNat = start.toNat % 4096 := by
    rw [BitVec.toNat_and]
    exact Nat.and_two_pow_sub_one_eq_mod start.toNat 12
  rw [← low, aligned]
  rfl

/-- The loops of the calls run over the pages of the range. -/
theorem rounds_cover {start len : BitVec 64} (aligned : start &&& 4095 = 0) (nonempty : len ≠ 0)
    (below : start.toNat / 4096 + (len.toNat + 4095) / 4096 < 2 ^ 52) :
    rangeRounds start (roundUp len) = roundUp len ∧ ∀ v, Covers start.toNat len.toNat v ↔
      start.toNat / 4096 ≤ v ∧ v < start.toNat / 4096 + roundUp len := by
  have bottom := aligned_start aligned
  have least : 1 ≤ len.toNat := Nat.one_le_iff_ne_zero.mpr fun zero => nonempty (BitVec.eq_of_toNat_eq zero)
  have pages : roundUp len = (len.toNat + 4095) / 4096 := by
    have room : len.toNat + 4095 < 2 ^ 64 := by omega
    rw [roundUp, BitVec.toNat_add]
    exact congrArg (· / 4096) (Nat.mod_eq_of_lt room)
  refine ⟨by rw [rangeRounds, pages, if_pos below], fun v => ?_⟩
  rw [covers_iff least, pages]
  omega

/-- The loops of the calls do nothing after a wrap. -/
theorem rounds_wrap {start len : BitVec 64} (beyond : 2 ^ 52 ≤ start.toNat / 4096 + (len.toNat + 4095) / 4096) :
    rangeRounds start (roundUp len) = 0 := by
  rw [rangeRounds]
  split
  · rename_i below
    have bound := len.isLt
    have pages : roundUp len = (len.toNat + 4095) % 2 ^ 64 / 4096 := by
      rw [roundUp, BitVec.toNat_add]
      rfl
    rw [pages] at below ⊢
    omega
  · rfl

/-- The flags of `prot`. -/
def protPerm (prot : BitVec 32) : Perm := { r := prot.getLsbD 0, w := prot.getLsbD 1, x := prot.getLsbD 2, u := true }

/-- A call of `sys_mmap` that returns 0 maps every page of the range to a page of its own from the free list. -/
def MmapMaps (l : Layout) (k : Kernel) (b : Bytes) (s : Slot) (start len : BitVec 64) (prot : BitVec 32) : Prop :=
  ∀ after c, sysMmapBytes l k b s start len prot = .ok (after, c, 0) → len ≠ 0 →
    after = { k with memory := after.memory } ∧
      MapsFresh l k.memory after.memory b c k.holding s (protPerm prot) (Covers start.toNat len.toNat) ∧
      ∀ first second, Covers start.toNat len.toNat first → Covers start.toNat len.toNat second →
        (space after.memory (k.pool s).pagetable first).page = (space after.memory (k.pool s).pagetable second).page →
        first = second

/-- A call of `sys_munmap` that returns 0 unmaps every page of the range. -/
def MunmapUnmaps (l : Layout) (k : Kernel) (b : Bytes) (s : Slot) (start len : BitVec 64) : Prop :=
  ∀ after c, sysMunmapBytes l k b s start len = .ok (after, c, 0) → len ≠ 0 →
    after = { k with memory := after.memory } ∧
      Withdrawn l k.memory after.memory b c k.holding s (Covers start.toNat len.toNat)

/-- After `sys_mmap` has returned 0, `sys_munmap` of the same range returns 0 and restores all translations and the free
pages but for new tables. -/
def MmapUndone (l : Layout) (k : Kernel) (b : Bytes) (s : Slot) (start len : BitVec 64) (prot : BitVec 32) : Prop :=
  ∀ mid c, sysMmapBytes l k b s start len prot = .ok (mid, c, 0) → ∃ after d,
    sysMunmapBytes l mid c s start len = .ok (after, d, 0) ∧
      (∀ r v, v < maxVpn → shown (space after.memory (after.pool r).pagetable v) =
        shown (space k.memory (k.pool r).pagetable v)) ∧
      (∀ page, page ∈ after.memory.free → page ∈ k.memory.free) ∧
      ∀ page, page ∈ k.memory.free → page ∈ after.memory.free ∨
        ∃ path, path.length ≤ 2 ∧ node after.memory (after.pool s).pagetable path = some page

variable {k : Kernel} {start len : BitVec 64} {prot : BitVec 32}

/-- What a call of `sys_mmap` has checked when it returns 0 or has changed memory. -/
theorem sysMmapBytes_mapped {mid : Kernel} {value : Int} (rooted : (k.pool s).pagetable = some root) (nonempty : len ≠ 0)
    (done : sysMmapBytes l k b s start len prot = .ok (mid, c, value)) :
    (mid, c, value) = (k, b, -1) ∨ mmapAccepts start len prot ∧
      checkRange k.memory root false (rangeRounds start (roundUp len)) (start.toNat / 4096) = .ok true ∧
      ∃ m, mmapLoopBytes l root (protPerm prot) (roundUp len) (start.toNat / 4096) k.memory b = .ok (value, m, c) ∧
        mid = { k with memory := m } := by
  unfold sysMmapBytes at done
  rw [rooted] at done
  simp only at done
  split_ifs at done with misaligned flags low
  · exact Or.inl (Except.ok.inj done).symm
  · exact Or.inl (Except.ok.inj done).symm
  · exact Or.inl (Except.ok.inj done).symm
  · obtain ⟨clear, checked, rest⟩ := bind_ok.mp done
    cases clear with
    | false => exact Or.inl (Except.ok.inj rest).symm
    | true =>
        obtain ⟨⟨answer, m, d⟩, ran, result⟩ := bind_ok.mp rest
        simp only [pure, Except.pure, Except.ok.injEq, Prod.mk.injEq] at result
        obtain ⟨rfl, rfl, rfl⟩ := result
        exact Or.inr ⟨⟨not_not.mp misaligned, not_not.mp flags, low, nonempty⟩, checked, m, ran, rfl⟩

/-- A call of `sys_mmap` maps the first pages of the range, all of them when it returns 0. -/
theorem sysMmapBytes_maps {mid : Kernel} {value : Int} (sound : Sound l k.memory k.holding)
    (rooted : (k.pool s).pagetable = some root) (nonempty : len ≠ 0)
    (done : sysMmapBytes l k b s start len prot = .ok (mid, c, value)) :
    (mid, c, value) = (k, b, -1) ∨ start &&& 4095 = 0 ∧ mid = { k with memory := mid.memory } ∧ ∃ count,
      (value = 0 ∧ count = roundUp len ∨ value = -1 ∧ count < roundUp len) ∧
      MapsFresh l k.memory mid.memory b c k.holding s (protPerm prot) fun v =>
        start.toNat / 4096 ≤ v ∧ v < start.toNat / 4096 + count := by
  rcases sysMmapBytes_mapped rooted nonempty done with refused | ⟨accepted, _, m, ran, rfl⟩
  · exact Or.inl refused
  · have leaf : (protPerm prot).leaf = true := prot_bits prot accepted.2.2.1
    obtain ⟨count, outcome, fresh⟩ := MapsFresh.loop rooted rfl rfl leaf (roundUp len) sound ran
    exact Or.inr ⟨accepted.1, rfl, count, outcome, fresh⟩

/-- A range without a wrap is mapped whole. -/
theorem sysMmapBytes_whole {mid : Kernel} (sound : Sound l k.memory k.holding) (rooted : (k.pool s).pagetable = some root)
    (nonempty : len ≠ 0) (unwrapped : Unwrapped start len) (done : sysMmapBytes l k b s start len prot = .ok (mid, c, 0)) :
    start &&& 4095 = 0 ∧ start.toNat / 4096 + (len.toNat + 4095) / 4096 < 2 ^ 52 ∧ mid = { k with memory := mid.memory } ∧
      MapsFresh l k.memory mid.memory b c k.holding s (protPerm prot) (Covers start.toNat len.toNat) := by
  rcases sysMmapBytes_maps sound rooted nonempty done with refused | ⟨aligned, same, count, outcome, fresh⟩
  · simp at refused
  · have below := (unwrapped.resolve_left (not_not.mpr aligned)).resolve_left nonempty
    obtain ⟨_, cover⟩ := rounds_cover aligned nonempty below
    obtain ⟨_, rfl⟩ := outcome.resolve_right (by simp)
    exact ⟨aligned, below, same, fresh.congr cover⟩

/-- A call of `sys_munmap` on a range without a wrap that is mapped for the user. -/
theorem sysMunmapBytes_total (sound : Sound l k.memory k.holding) (rooted : (k.pool s).pagetable = some root)
    (aligned : start &&& 4095 = 0) (nonempty : len ≠ 0)
    (below : start.toNat / 4096 + (len.toNat + 4095) / 4096 < 2 ^ 52)
    (inside : ∀ v, Covers start.toNat len.toNat v → v < maxVpn)
    (users : ∀ v, Covers start.toNat len.toNat v → ∃ page, userPage (space k.memory (k.pool s).pagetable v) = some page) :
    ∃ m d, sysMunmapBytes l k b s start len = .ok ({ k with memory := m }, d, 0) := by
  obtain ⟨rounds, cover⟩ := rounds_cover aligned nonempty below
  have held : k.holding.roots s = some root := rooted
  have short : start.toNat / 4096 + roundUp len ≤ maxVpn := by
    by_cases empty : roundUp len = 0
    · have zero := len.isLt
      have least : 1 ≤ len.toNat := Nat.one_le_iff_ne_zero.mpr fun none => nonempty (BitVec.eq_of_toNat_eq none)
      have first := (cover (start.toNat / 4096)).mp ⟨start.toNat, Nat.le_refl _, by omega, rfl⟩
      omega
    · have last := inside (start.toNat / 4096 + roundUp len - 1) ((cover _).mpr ⟨by omega, by omega⟩)
      omega
  have mine (v : Nat) (low : start.toNat / 4096 ≤ v) (high : v < start.toNat / 4096 + roundUp len) :
      ∃ page, userPage (space k.memory (k.holding.roots s) v) = some page := users v ((cover v).mpr ⟨low, high⟩)
  have valid (v : Nat) (low : start.toNat / 4096 ≤ v) (high : v < start.toNat / 4096 + roundUp len) :
      (space k.memory (some root) v).valid = true := by
    obtain ⟨page, user⟩ := mine v low high
    rw [held] at user
    by_contra invalid
    rw [userPage_invalid (by simpa using invalid)] at user
    simp at user
  obtain ⟨last, ended, _⟩ := unmapRange_user held (roundUp len) sound short mine
  obtain ⟨m, d, ran⟩ := unmapRangeBytes_total b ended
  refine ⟨m, d, ?_⟩
  unfold sysMunmapBytes
  rw [rooted]
  simp only
  rw [if_neg (not_not.mpr aligned), if_neg nonempty, rounds, checkRange_all short valid]
  simp only [bind, Except.bind, Bool.not_true, Bool.false_eq_true, if_false, ran]
  rfl

theorem mmap_maps (sound : Sound l k.memory k.holding) (rooted : (k.pool s).pagetable = some root)
    (unwrapped : Unwrapped start len) : MmapMaps l k b s start len prot := by
  intro mid c done nonempty
  obtain ⟨_, _, same, fresh⟩ := sysMmapBytes_whole sound rooted nonempty unwrapped done
  refine ⟨same, fresh, fun first second covered coveredSecond one => ?_⟩
  obtain ⟨page, entry, _⟩ := fresh.fresh first covered
  obtain ⟨other, entryOther, _⟩ := fresh.fresh second coveredSecond
  have pages : page = other := by
    have left : (space mid.memory (k.pool s).pagetable first).page = page := congrArg Pte.page entry
    have right : (space mid.memory (k.pool s).pagetable second).page = other := congrArg Pte.page entryOther
    rw [← left, ← right, one]
  rw [← pages] at entryOther
  have mine : userPage (space mid.memory (k.holding.roots s) first) = some page := by
    rw [entry]
    rfl
  have same : userPage (space mid.memory (k.holding.roots s) second) = some page := by
    rw [entryOther]
    rfl
  exact fresh.sound.distinct (fresh.inside first covered) (fresh.inside second coveredSecond) mine same

theorem munmap_unmaps (sound : Sound l k.memory k.holding) (rooted : (k.pool s).pagetable = some root)
    (unwrapped : Unwrapped start len) : MunmapUnmaps l k b s start len := by
  intro mid c done nonempty
  unfold sysMunmapBytes at done
  rw [rooted] at done
  simp only at done
  split_ifs at done with misaligned
  · simp at done
  · have aligned := not_not.mp misaligned
    have below := (unwrapped.resolve_left misaligned).resolve_left nonempty
    obtain ⟨rounds, cover⟩ := rounds_cover aligned nonempty below
    rw [rounds] at done
    obtain ⟨present, checked, rest⟩ := bind_ok.mp done
    cases present with
    | false => simp [pure, Except.pure] at rest
    | true =>
        obtain ⟨⟨m, d⟩, ran, result⟩ := bind_ok.mp rest
        simp only [pure, Except.pure, Except.ok.injEq, Prod.mk.injEq, and_true] at result
        obtain ⟨rfl, rfl⟩ := result
        have held : k.holding.roots s = some root := rooted
        have withdrawn := Withdrawn.loop held (roundUp len) sound (fun v low high => by
          rw [held]
          exact (checkRange_true _ checked low high).2) ran
        have same : Covers start.toNat len.toNat = fun v => start.toNat / 4096 ≤ v ∧ v < start.toNat / 4096 + roundUp len := by
          funext v
          exact propext (cover v)
        rw [same]
        exact ⟨rfl, withdrawn⟩

theorem mmap_restored (sound : Sound l k.memory k.holding) (rooted : (k.pool s).pagetable = some root)
    (unwrapped : Unwrapped start len) : MmapUndone l k b s start len prot := by
  intro mid c done
  by_cases nothing : len = 0
  · have same : mid = k ∧ start &&& 4095 = 0 := by
      unfold sysMmapBytes at done
      rw [rooted] at done
      simp only at done
      split_ifs at done with misaligned flags low
      · simp at done
      · simp at done
      · simp at done
      · simp only [Except.ok.injEq, Prod.mk.injEq] at done
        exact ⟨done.1.symm, not_not.mp misaligned⟩
    obtain ⟨rfl, aligned⟩ := same
    refine ⟨mid, c, ?_, fun r v _ => rfl, fun page listed => listed, fun page listed => Or.inl listed⟩
    unfold sysMunmapBytes
    rw [rooted]
    simp only
    rw [if_neg (not_not.mpr aligned), if_pos nothing]
  · obtain ⟨aligned, below, same, fresh⟩ := sysMmapBytes_whole sound rooted nothing unwrapped done
    obtain ⟨m, rfl⟩ : ∃ m, mid = { k with memory := m } := ⟨mid.memory, same⟩
    obtain ⟨last, d, undone⟩ := sysMunmapBytes_total (b := c) (k := { k with memory := m }) fresh.sound rooted aligned nothing
      below fresh.inside fun v covered => (fresh.user covered rfl).imp fun page mine => mine.1
    obtain ⟨_, withdrawn⟩ := munmap_unmaps (k := { k with memory := m }) fresh.sound rooted unwrapped _ d undone nothing
    have touched : Touched k.memory last k.holding.roots s (Covers start.toNat len.toNat) :=
      fresh.touched.trans withdrawn.touched
    refine ⟨_, d, undone, fun r v inside => ?_, fun page listed => ?_, fun page listed => ?_⟩
    · by_cases covered : r = s ∧ Covers start.toNat len.toNat v
      · obtain ⟨rfl, covered⟩ := covered
        exact (shown_invalid (withdrawn.gone v covered)).trans (shown_invalid (fresh.vacant v covered)).symm
      · exact congrArg shown (touched.space r inside covered)
    · exact touched.fewer sound withdrawn.sound fresh.vacant listed
    · rcases touched.spent sound withdrawn.sound listed with free | ⟨v, covered, mine⟩ | table
      · exact Or.inl free
      · have blank : userPage (space last (k.holding.roots s) v) = none := userPage_invalid (withdrawn.gone v covered)
        rw [blank] at mine
        simp at mine
      · exact Or.inr table

/-- The two calls map and unmap the pages of the range, and undo each other, unless the end of the range wraps. -/
theorem mmap_undone (sound : Sound l k.memory k.holding) (rooted : (k.pool s).pagetable = some root) (b : Bytes)
    (start len : BitVec 64) (prot : BitVec 32) :
    MmapMaps l k b s start len prot ∧ MunmapUnmaps l k b s start len ∧ MmapUndone l k b s start len prot ↔
      Unwrapped start len := by
  constructor
  · rintro ⟨_, unmaps, _⟩
    by_contra wrapped
    rw [Unwrapped, not_or, not_or, not_not, Nat.not_lt] at wrapped
    obtain ⟨aligned, nonempty, beyond⟩ := wrapped
    have done : sysMunmapBytes l k b s start len = .ok (k, b, 0) := by
      unfold sysMunmapBytes
      rw [rooted]
      simp only
      rw [if_neg (not_not.mpr aligned), if_neg nonempty, rounds_wrap beyond]
      rfl
    obtain ⟨_, withdrawn⟩ := unmaps k b done nonempty
    have least : 1 ≤ len.toNat := Nat.one_le_iff_ne_zero.mpr fun none => nonempty (BitVec.eq_of_toNat_eq none)
    have covered : Covers start.toNat len.toNat (start.toNat / 4096) := ⟨start.toNat, Nat.le_refl _, by omega, rfl⟩
    have present := withdrawn.present _ covered
    rw [withdrawn.gone _ covered] at present
    simp at present
  · intro unwrapped
    exact ⟨mmap_maps sound rooted unwrapped, munmap_unmaps sound rooted unwrapped, mmap_restored sound rooted unwrapped⟩

/-- All bytes are 0. -/
def blankBytes : Bytes := fun _ _ => 0

/-- The first program maps two pages, and the calls do what they promise. -/
theorem mmap_undone_run : ∃ k trace after c,
    Reaches (step (smallLayout 12)) (fun k _ action => fed k action = true) (· = bootKernel (smallLayout 12)) k trace ∧
      sysMmapBytes (smallLayout 12) k blankBytes 0 0x100000 8192 3 = .ok (after, c, 0) ∧
      MmapMaps (smallLayout 12) k blankBytes 0 0x100000 8192 3 ∧ MunmapUnmaps (smallLayout 12) k blankBytes 0 0x100000 8192 ∧
      MmapUndone (smallLayout 12) k blankBytes 0 0x100000 8192 3 := by
  obtain ⟨k, trace, reached, test⟩ := replay_witness (step (smallLayout 12)) (fun k _ action => fed k action = true)
    (· = bootKernel (smallLayout 12)) loadRun (bootKernel (smallLayout 12)) rfl
    (fun k _ => (k.pool 0).pagetable.isSome &&
      decide ((sysMmapBytes (smallLayout 12) k blankBytes 0 0x100000 8192 3).toOption.map (·.2.2) = some 0)) (by decide +kernel)
  rw [Bool.and_eq_true, Option.isSome_iff_exists, decide_eq_true_eq, Option.map_eq_some_iff] at test
  obtain ⟨⟨root, rooted⟩, ⟨after, c, answer⟩, ran, rfl⟩ := test
  refine ⟨k, trace, after, c, reached, toOption_some.mp ran, ?_⟩
  have sound := (reached_kept reached).1.sound
  exact (mmap_undone sound rooted blankBytes 0x100000 8192 3).mpr (Or.inr (Or.inr (by decide)))

/-- A length of 2^64 - 1 is rounded up to no page at all: both calls return 0 and do nothing. -/
theorem whole_space_unmapped : ∃ k trace,
    Reaches (step (smallLayout 12)) (fun k _ action => fed k action = true) (· = bootKernel (smallLayout 12)) k trace ∧
      sysMmapBytes (smallLayout 12) k blankBytes 0 0 0xFFFFFFFFFFFFFFFF 3 = .ok (k, blankBytes, 0) ∧
      sysMunmapBytes (smallLayout 12) k blankBytes 0 0 0xFFFFFFFFFFFFFFFF = .ok (k, blankBytes, 0) ∧
      ¬MmapMaps (smallLayout 12) k blankBytes 0 0 0xFFFFFFFFFFFFFFFF 3 ∧
      ¬MunmapUnmaps (smallLayout 12) k blankBytes 0 0 0xFFFFFFFFFFFFFFFF := by
  obtain ⟨k, trace, reached, test⟩ := replay_witness (step (smallLayout 12)) (fun k _ action => fed k action = true)
    (· = bootKernel (smallLayout 12)) loadRun (bootKernel (smallLayout 12)) rfl
    (fun k _ => (k.pool 0).pagetable.isSome) (by decide +kernel)
  obtain ⟨root, rooted⟩ := Option.isSome_iff_exists.mp test
  have mapped : sysMmapBytes (smallLayout 12) k blankBytes 0 0 0xFFFFFFFFFFFFFFFF 3 = .ok (k, blankBytes, 0) := by
    unfold sysMmapBytes
    rw [rooted]
    rfl
  have unmapped : sysMunmapBytes (smallLayout 12) k blankBytes 0 0 0xFFFFFFFFFFFFFFFF = .ok (k, blankBytes, 0) := by
    unfold sysMunmapBytes
    rw [rooted]
    rfl
  refine ⟨k, trace, reached, mapped, unmapped, fun maps => ?_, fun unmaps => ?_⟩
  · obtain ⟨_, fresh, _⟩ := maps k blankBytes mapped (by decide)
    have inside := fresh.inside maxVpn ⟨maxVpn * 4096, by decide, by decide, by decide⟩
    exact Nat.lt_irrefl maxVpn inside
  · obtain ⟨_, withdrawn⟩ := unmaps k blankBytes unmapped (by decide)
    have covered : Covers 0 0xFFFFFFFFFFFFFFFF 0 := ⟨0, by decide, by decide, by decide⟩
    have present := withdrawn.present 0 covered
    rw [withdrawn.gone 0 covered] at present
    simp at present

/-- A call of `sys_mmap` that returns -1 has changed nothing, or it has mapped the first pages of the range alone and every
page that it took is one of these or a table. -/
theorem mmap_failed {after : Kernel} (sound : Sound l k.memory k.holding) (rooted : (k.pool s).pagetable = some root)
    (done : sysMmapBytes l k b s start len prot = .ok (after, c, -1)) :
    after = k ∧ c = b ∨ after = { k with memory := after.memory } ∧ ∃ count, count < roundUp len ∧
      MapsFresh l k.memory after.memory b c k.holding s (protPerm prot) (fun v =>
        start.toNat / 4096 ≤ v ∧ v < start.toNat / 4096 + count) ∧
      ∀ page, page ∈ k.memory.free → page ∈ after.memory.free ∨
        (∃ v, start.toNat / 4096 ≤ v ∧ v < start.toNat / 4096 + count ∧
          space after.memory (k.pool s).pagetable v = { valid := true, perm := protPerm prot, page }) ∨
        ∃ path, path.length ≤ 2 ∧ node after.memory (k.pool s).pagetable path = some page := by
  by_cases nonempty : len = 0
  · unfold sysMmapBytes at done
    rw [rooted] at done
    simp only at done
    split_ifs at done
    · simp only [Except.ok.injEq, Prod.mk.injEq, and_true] at done
      exact Or.inl ⟨done.1.symm, done.2.symm⟩
    · simp only [Except.ok.injEq, Prod.mk.injEq, and_true] at done
      exact Or.inl ⟨done.1.symm, done.2.symm⟩
    · simp only [Except.ok.injEq, Prod.mk.injEq, and_true] at done
      exact Or.inl ⟨done.1.symm, done.2.symm⟩
    · simp at done
  · rcases sysMmapBytes_maps sound rooted nonempty done with refused | ⟨_, same, count, outcome, fresh⟩
    · simp only [Prod.mk.injEq, and_true] at refused
      exact Or.inl refused
    · obtain ⟨_, short⟩ := outcome.resolve_left (by simp)
      refine Or.inr ⟨same, count, short, fresh, fun page listed => ?_⟩
      rcases fresh.touched.spent sound fresh.sound listed with free | ⟨v, here, mine⟩ | table
      · exact Or.inl free
      · obtain ⟨known, entry, _⟩ := fresh.fresh v here
        rw [entry] at mine
        obtain rfl : known = page := by simpa [userPage, protPerm] using mine
        exact Or.inr (Or.inl ⟨v, here.1, here.2, entry⟩)
      · exact Or.inr (Or.inr table)

/-- One page is left when the first program asks for two of them. -/
theorem short_run : ∃ k trace root after c,
    Reaches (step (smallLayout 8)) (fun k _ action => fed k action = true) (· = bootKernel (smallLayout 8)) k trace ∧
      (k.pool 0).pagetable = some root ∧ sysMmapBytes (smallLayout 8) k blankBytes 0 0x100000 8192 3 = .ok (after, c, -1) ∧
      (space k.memory (some root) 256).valid = false ∧ (space after.memory (some root) 256).valid = true ∧
      k.memory.free ≠ [] ∧ after.memory.free = [] := by
  obtain ⟨k, trace, reached, test⟩ := replay_witness (step (smallLayout 8)) (fun k _ action => fed k action = true)
    (· = bootKernel (smallLayout 8)) loadRun (bootKernel (smallLayout 8)) rfl
    (fun k _ => (k.pool 0).pagetable.any fun root =>
      (sysMmapBytes (smallLayout 8) k blankBytes 0 0x100000 8192 3).toOption.any fun result : Kernel × Bytes × Int =>
        decide (result.2.2 = -1) && !(space k.memory (some root) 256).valid &&
          (space result.1.memory (some root) 256).valid && decide (k.memory.free ≠ []) &&
          decide (result.1.memory.free = []))
    (by decide +kernel)
  rw [Option.any_eq_true] at test
  obtain ⟨root, rooted, mapped⟩ := test
  rw [Option.any_eq_true] at mapped
  obtain ⟨⟨after, c, value⟩, ran, facts⟩ := mapped
  simp only [Bool.and_eq_true, decide_eq_true_eq, Bool.not_eq_true'] at facts
  obtain ⟨⟨⟨⟨rfl, vacant⟩, valid⟩, free⟩, spent⟩ := facts
  exact ⟨k, trace, root, after, c, reached, rooted, toOption_some.mp ran, vacant, valid, free, spent⟩

/-- The first page stays mapped after the call has returned -1. -/
theorem mmap_keeps_prefix : ∃ k trace after c,
    Reaches (step (smallLayout 8)) (fun k _ action => fed k action = true) (· = bootKernel (smallLayout 8)) k trace ∧
      sysMmapBytes (smallLayout 8) k blankBytes 0 0x100000 8192 3 = .ok (after, c, -1) ∧
      (space k.memory (k.pool 0).pagetable 256).valid = false ∧ (space after.memory (k.pool 0).pagetable 256).valid = true := by
  obtain ⟨k, trace, root, after, c, reached, rooted, ran, vacant, valid, _, _⟩ := short_run
  rw [← rooted] at vacant valid
  exact ⟨k, trace, after, c, reached, ran, vacant, valid⟩

/-- What the call leaves behind is the mapping of its first page. -/
theorem mmap_failed_run : ∃ k trace after c count,
    Reaches (step (smallLayout 8)) (fun k _ action => fed k action = true) (· = bootKernel (smallLayout 8)) k trace ∧
      sysMmapBytes (smallLayout 8) k blankBytes 0 0x100000 8192 3 = .ok (after, c, -1) ∧ count < 2 ∧
      MapsFresh (smallLayout 8) k.memory after.memory blankBytes c k.holding 0 (protPerm 3) fun v => 256 ≤ v ∧ v < 256 + count := by
  obtain ⟨k, trace, root, after, c, reached, rooted, ran, _, _, free, spent⟩ := short_run
  rcases mmap_failed (reached_kept reached).1.sound rooted ran with ⟨rfl, _⟩ | ⟨_, count, short, fresh, _⟩
  · exact absurd spent free
  · exact ⟨k, trace, after, c, count, reached, ran, short, fresh⟩

end BtbuOs.Vm
