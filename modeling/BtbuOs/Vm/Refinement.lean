import BtbuOs.Vm.Walk

namespace BtbuOs.Vm

open Machine

/-- A walk without allocation followed by the test of `PTE_V`. -/
def lookup (m : Memory) (root : Page) (vpn : Nat) : Except String (Option (Page × Perm)) := do
  let (table, _) ← walk m root vpn false
  match table with
  | none => return none
  | some table =>
      let pte := m.entry table (px 0 vpn)
      return if pte.valid then some (pte.page, pte.perm) else none

/-- A call of the functions that change one page table; addresses and sizes count bytes. -/
inductive TableCall where
  | map (va size pa : Nat) (perm : Perm)
  | unmap (va npages : Nat) (doFree : Bool)
  deriving DecidableEq

/-- The state of `kalloc` is up to the rest of the kernel before every call. -/
structure TableAction where
  call : TableCall
  free : List Page
  denials : List Bool
  deriving DecidableEq

/-- The flag is false when `mappages` returns -1. -/
inductive TableEvent where
  | returned (call : TableCall) (done : Bool)
  | panicked (message : String)
  deriving DecidableEq

/-- Memory as a call finds it. -/
def TableAction.prepare (action : TableAction) (m : Memory) : Memory :=
  { m with free := action.free, denials := action.denials }

/-- One call on the page table below a root. -/
def tableStep (l : Layout) (root : Page) (m : Memory) (action : TableAction) : Option (Memory × List TableEvent) :=
  match action.call with
  | .map va size pa perm =>
      match mappages (action.prepare m) root va size pa perm with
      | .ok (mapped, m) => some (m, [.returned action.call mapped])
      | .error message => some (m, [.panicked message])
  | .unmap va npages doFree =>
      match uvmunmap l (action.prepare m) root va npages doFree with
      | .ok m => some (m, [.returned action.call true])
      | .error message => some (m, [.panicked message])

/-- The abstract page table maps page numbers to pages and flags. -/
abbrev PageMap := Nat → Option (Page × Perm)

/-- A byte of the range lies in the page. -/
def Covers (va size vpn : Nat) : Prop := ∃ byte, va ≤ byte ∧ byte < va + size ∧ byte / 4096 = vpn

/-- The page that a range maps to a page number. -/
def target (va pa vpn : Nat) : Page := pa / 4096 + (vpn - va / 4096)

/-- What a call does to the abstract page table. -/
inductive MapStep : TableCall → Bool → PageMap → PageMap → Prop where
  | mapped {va size pa : Nat} {perm : Perm} {before after : PageMap}
      (vacant : ∀ vpn, Covers va size vpn → before vpn = none)
      (added : ∀ vpn, Covers va size vpn → after vpn = some (target va pa vpn, perm))
      (kept : ∀ vpn, ¬Covers va size vpn → after vpn = before vpn) : MapStep (.map va size pa perm) true before after
  | refused {va size pa : Nat} {perm : Perm} {before after : PageMap} (stop : Nat) (inside : Covers va size stop)
      (vacant : ∀ vpn, Covers va size vpn → vpn < stop → before vpn = none)
      (added : ∀ vpn, Covers va size vpn → vpn < stop → after vpn = some (target va pa vpn, perm))
      (kept : ∀ vpn, ¬(Covers va size vpn ∧ vpn < stop) → after vpn = before vpn) :
      MapStep (.map va size pa perm) false before after
  | unmapped {va npages : Nat} {doFree : Bool} {before after : PageMap}
      (removed : ∀ vpn, va / 4096 ≤ vpn → vpn < va / 4096 + npages → after vpn = none)
      (kept : ∀ vpn, ¬(va / 4096 ≤ vpn ∧ vpn < va / 4096 + npages) → after vpn = before vpn) :
      MapStep (.unmap va npages doFree) true before after

/-- A new page table maps the trampoline alone. -/
def firstMap (l : Layout) : PageMap :=
  fun vpn => if vpn = trampolineVpn then some (l.trampoline, { r := true, w := false, x := true, u := false }) else none

/-- The abstract page tables that calls and their results may lead to. -/
inductive Follows (l : Layout) : List TableEvent → PageMap → Prop where
  | start : Follows l [] (firstMap l)
  | next {trace : List TableEvent} {before after : PageMap} {call : TableCall} {done : Bool}
      (earlier : Follows l trace before) (stepped : MapStep call done before after) :
      Follows l (trace ++ [.returned call done]) after

/-- A page that is mapped already makes `mappages` return -1, and its mapping stays. -/
theorem MapStep.meets {va size pa vpn : Nat} {perm : Perm} {done : Bool} {before after : PageMap}
    (stepped : MapStep (.map va size pa perm) done before after) (covered : Covers va size vpn)
    (present : before vpn ≠ none) : done = false ∧ after vpn = before vpn := by
  cases stepped with
  | mapped vacant added kept => exact absurd (vacant vpn covered) present
  | refused stop inside vacant added kept =>
      refine ⟨rfl, kept vpn ?_⟩
      rintro ⟨_, early⟩
      exact present (vacant vpn covered early)

/-- The pages of a range follow each other from the first to the last byte. -/
theorem covers_iff {va size : Nat} (least : 1 ≤ size) (vpn : Nat) :
    Covers va size vpn ↔ va / 4096 ≤ vpn ∧ vpn < va / 4096 + ((va + size - 1) / 4096 - va / 4096 + 1) := by
  constructor
  · rintro ⟨byte, lower, upper, rfl⟩
    have low : va / 4096 ≤ byte / 4096 := Nat.div_le_div_right lower
    have high : byte / 4096 ≤ (va + size - 1) / 4096 := Nat.div_le_div_right (by omega)
    omega
  · rintro ⟨lower, upper⟩
    have last : va / 4096 ≤ (va + size - 1) / 4096 := Nat.div_le_div_right (by omega)
    by_cases first : vpn = va / 4096
    · exact ⟨va, Nat.le_refl va, by omega, first.symm⟩
    · refine ⟨vpn * 4096, ?_, ?_, Nat.mul_div_cancel vpn (by decide)⟩
      · omega
      · omega

/-- The only page table of the machine. -/
abbrev only (root : Page) : Unit → Option Page := fun _ => some root

/-- What the loop of `mappages` has done when it stops after some pages. -/
structure MapLoop (root : Page) (perm : Perm) (npages vpn : Nat) (page : Page) (m : Memory) (mapped : Bool) (after : Memory)
    (count : Nat) : Prop where
  forest : Forest after (only root)
  most : count ≤ npages
  all : mapped = true ↔ count = npages
  vacant : ∀ v, vpn ≤ v → v < vpn + count → (space m (some root) v).valid = false
  added : ∀ v, v < maxVpn → vpn ≤ v → v < vpn + count →
    space after (some root) v = { valid := true, perm, page := page + (v - vpn) }
  kept : ∀ v, v < maxVpn → ¬(vpn ≤ v ∧ v < vpn + count) → space after (some root) v = space m (some root) v

theorem mapRange_loop {root : Page} {perm : Perm} (npages : Nat) {vpn : Nat} {page : Page} {m : Memory}
    (forest : Forest m (only root)) (inside : vpn + npages ≤ maxVpn) :
    ∃ mapped after count, mapRange root perm npages vpn page m = .ok (mapped, after) ∧
      MapLoop root perm npages vpn page m mapped after count := by
  induction npages generalizing vpn page m with
  | zero =>
      refine ⟨true, m, 0, rfl, forest, Nat.le_refl 0, by simp, fun v low high => ?_, fun v bound low high => ?_, fun _ _ _ => rfl⟩
      · omega
      · omega
  | succ npages ih =>
      have bound : vpn < maxVpn := by omega
      obtain ⟨⟨mapped, mid⟩, first⟩ := mapPage_total m root page perm bound
      rw [mapRange, first]
      cases mapped with
      | false =>
          refine ⟨false, mid, 0, rfl, ?_⟩
          rcases (mapPage_grows (s := ()) forest rfl first).2 with ⟨_, grows⟩ | ⟨impossible, _⟩
          · refine ⟨grows.forest forest, Nat.zero_le _, by simp, fun v low high => ?_, fun v bound low high => ?_, fun v _ _ => ?_⟩
            · omega
            · omega
            · exact grows.unmoved.space () v
          · simp at impossible
      | true =>
          obtain ⟨grown, _, fresh, remapped, entry⟩ := mapPage_adds (s := ()) forest rfl first
          have further : vpn + 1 + npages ≤ maxVpn := by omega
          obtain ⟨mapped, after, count, rest, loop⟩ : ∃ mapped after count,
              mapRange root perm npages (vpn + 1) (page + 1) mid = .ok (mapped, after) ∧
                MapLoop root perm npages (vpn + 1) (page + 1) mid mapped after count := ih grown further
          have other (v : Nat) (limit : v < maxVpn) (different : v ≠ vpn) : space mid (some root) v = space m (some root) v :=
            remapped () v limit fun both => different both.2
          refine ⟨mapped, after, count + 1, rest, loop.forest, Nat.succ_le_succ loop.most, ?_, fun v low high => ?_,
            fun v limit low high => ?_, fun v limit outside => ?_⟩
          · rw [loop.all]
            omega
          · by_cases here : v = vpn
            · rw [here]
              exact fresh
            · rw [← other v (by have most := loop.most; omega) here]
              exact loop.vacant v (by omega) (by omega)
          · by_cases here : v = vpn
            · subst here
              rw [loop.kept v limit (by omega), Nat.sub_self]
              exact entry
            · rw [loop.added v limit (by omega) (by omega)]
              have shift : 1 + (v - (vpn + 1)) = v - vpn := by omega
              rw [Nat.add_assoc, shift]
          · rw [loop.kept v limit (by omega), other v limit (by omega)]

/-- Every mapping can be unmapped. -/
structure Sheer (m : Memory) (root : Page) : Prop where
  apart : Apart m (only root)
  leaves : ∀ vpn, vpn < maxVpn → (space m (some root) vpn).valid = true → (space m (some root) vpn).perm.leaf = true

/-- A page that may be freed lies between `ekernel` and `PHYSTOP` and is no table of the page table. -/
def Freeable (l : Layout) (m : Memory) (root page : Page) : Prop :=
  Managed l page ∧ ∀ path, path.length ≤ 2 → node m (some root) path ≠ some page

/-- The loop of `uvmunmap` removes the pages of its range and no others. -/
theorem unmapRange_removes {l : Layout} {root : Page} {doFree : Bool} (npages : Nat) {vpn : Nat} {m : Memory}
    (sheer : Sheer m root) (inside : vpn + npages ≤ maxVpn)
    (freeable : doFree = true → ∀ v, vpn ≤ v → v < vpn + npages → (space m (some root) v).valid = true →
      Freeable l m root (space m (some root) v).page) :
    ∃ after, unmapRange l root doFree npages vpn m = .ok after ∧ Sheer after root ∧
      (∀ v, vpn ≤ v → v < vpn + npages → space after (some root) v = zeroPte) ∧
      ∀ v, v < maxVpn → ¬(vpn ≤ v ∧ v < vpn + npages) → space after (some root) v = space m (some root) v := by
  induction npages generalizing vpn m with
  | zero =>
      refine ⟨m, rfl, sheer, fun v low high => ?_, fun _ _ _ => rfl⟩
      omega
  | succ npages ih =>
      have bound : vpn < maxVpn := by omega
      -- whatever the round does, it clears one entry and moves no table
      have round : ∃ mid, unmapRange l root doFree (npages + 1) vpn m = unmapRange l root doFree npages (vpn + 1) mid ∧
          (∀ path, path.length ≤ 2 → node mid (some root) path = node m (some root) path) ∧
          space mid (some root) vpn = zeroPte ∧
          ∀ v, v < maxVpn → v ≠ vpn → space mid (some root) v = space m (some root) v := by
        rw [unmapRange, walk_peek m root bound]
        cases place : node m (some root) (tablePath vpn) with
        | none => exact ⟨m, rfl, fun _ _ => rfl, space_absent place, fun _ _ _ => rfl⟩
        | some table =>
            have write (pre : Memory) (alike : Alike m pre (only root)) :
                (∀ path, path.length ≤ 2 →
                  node (pre.setEntry table (px 0 vpn) zeroPte) (some root) path = node m (some root) path) ∧
                space (pre.setEntry table (px 0 vpn) zeroPte) (some root) vpn = zeroPte ∧
                ∀ v, v < maxVpn → v ≠ vpn →
                  space (pre.setEntry table (px 0 vpn) zeroPte) (some root) v = space m (some root) v := by
              have held : node pre (only root ()) (tablePath vpn) = some table := by
                rw [alike.node () _ (by simp [tablePath])]
                exact place
              have written := (rewritten_leaf (i := px 0 vpn) zeroPte (sheer.apart.alike alike) rfl held).preceded alike
              obtain ⟨remapped, entry⟩ := written.remapped bound
              exact ⟨written_tables written rfl (), entry, fun v limit other => remapped () v limit fun both => other both.2⟩
            have entry := space_held place
            by_cases valid : (m.entry table (px 0 vpn)).valid = true
            · have leaf : (m.entry table (px 0 vpn)).perm ≠ noPerm := by
                intro same
                have fits := sheer.leaves vpn bound
                rw [entry, same] at fits
                simp [noPerm, Perm.leaf, valid] at fits
              cases doFree with
              | true =>
                  have known := freeable rfl vpn (Nat.le_refl vpn) (by omega)
                  rw [entry] at known
                  obtain ⟨managed, unheld⟩ := known valid
                  obtain ⟨freed, given⟩ := kfree_total m managed
                  refine ⟨freed.setEntry table (px 0 vpn) zeroPte, ?_, write freed (alike_kfree given fun _ => unheld)⟩
                  simp only [bind, Except.bind, valid, leaf, given, if_true, if_false]
              | false =>
                  refine ⟨m.setEntry table (px 0 vpn) zeroPte, ?_, write m (Alike.refl m _)⟩
                  simp only [bind, Except.bind, valid, leaf, if_true, if_false, Bool.false_eq_true]
            · refine ⟨m.setEntry table (px 0 vpn) zeroPte, ?_, write m (Alike.refl m _)⟩
              simp only [bind, Except.bind, valid, if_false, Bool.false_eq_true]
      obtain ⟨mid, same, tables, cleared, others⟩ := round
      have sheerMid : Sheer mid root := by
        refine ⟨fun s r path other table short shortOther first second => ?_, fun v limit valid => ?_⟩
        · rw [tables path short] at first
          rw [tables other shortOther] at second
          exact sheer.apart s r path other table short shortOther first second
        · by_cases here : v = vpn
          · rw [here, cleared] at valid
            simp [zeroPte] at valid
          · rw [others v limit here] at valid ⊢
            exact sheer.leaves v limit valid
      have freeableMid (free : doFree = true) (v : Nat) (low : vpn + 1 ≤ v) (high : v < vpn + 1 + npages)
          (valid : (space mid (some root) v).valid = true) : Freeable l mid root (space mid (some root) v).page := by
        rw [others v (by omega) (by omega)] at valid ⊢
        obtain ⟨managed, unheld⟩ := freeable free v (by omega) (by omega) valid
        refine ⟨managed, fun path short => ?_⟩
        rw [tables path short]
        exact unheld path short
      obtain ⟨after, rest, sheerAfter, removed, kept⟩ := ih sheerMid (by omega) freeableMid
      refine ⟨after, same.trans rest, sheerAfter, fun v low high => ?_, fun v limit outside => ?_⟩
      · by_cases here : v = vpn
        · rw [here, kept vpn bound (by omega), cleared]
        · exact removed v (by omega) (by omega)
      · rw [kept v limit (by omega), others v limit (by omega)]

/-- What an entry shows when `PTE_V` is set. -/
def shown (pte : Pte) : Option (Page × Perm) := if pte.valid then some (pte.page, pte.perm) else none

theorem shown_invalid {pte : Pte} (invalid : pte.valid = false) : shown pte = none := by
  rw [shown, invalid]
  rfl

theorem shown_none {pte : Pte} (nothing : shown pte = none) : pte.valid = false := by
  by_contra valid
  rw [Bool.not_eq_false] at valid
  simp [shown, valid] at nothing

theorem lookup_eq (m : Memory) (root : Page) {vpn : Nat} (inside : vpn < maxVpn) :
    lookup m root vpn = .ok (shown (space m (some root) vpn)) := by
  rw [lookup, walk_peek m root inside]
  cases place : node m (some root) (tablePath vpn) with
  | none =>
      rw [space_absent place]
      rfl
  | some table =>
      rw [space_held place]
      rfl

/-- The page table shows the abstract one. -/
structure Shows (m : Memory) (root : Page) (map : PageMap) : Prop where
  sheer : Sheer m root
  shows : ∀ vpn, vpn < maxVpn → shown (space m (some root) vpn) = map vpn
  outside : ∀ vpn, maxVpn ≤ vpn → map vpn = none

/-- The calls of the claim, made with fresh pages in `kalloc`; what is freed is no table of the page table. -/
def Proper (l : Layout) (root : Page) (m : Memory) (action : TableAction) : Prop :=
  action.free.Nodup ∧ (∀ page, page ∈ action.free → ∀ path, path.length ≤ 2 → node m (some root) path ≠ some page) ∧
    match action.call with
    | .map va size pa perm => 1 ≤ size ∧ va + size ≤ maxVpn * 4096 ∧ pa % 4096 = 0 ∧ perm.leaf = true
    | .unmap va npages doFree => va % 4096 = 0 ∧ va / 4096 + npages ≤ maxVpn ∧
        (doFree = true → ∀ vpn, va / 4096 ≤ vpn → vpn < va / 4096 + npages → (space m (some root) vpn).valid = true →
          Freeable l m root (space m (some root) vpn).page)

/-- The state of `kalloc` is no part of what a page table shows. -/
theorem prepare_alike (action : TableAction) (m : Memory) (root : Page) : Alike m (action.prepare m) (only root) := by
  have entries : (action.prepare m).entry = m.entry := rfl
  exact alike_entry entries _

/-- The abstract page table that memory shows. -/
def view (m : Memory) (root : Page) : PageMap :=
  fun vpn => if vpn < maxVpn then shown (space m (some root) vpn) else none

theorem view_shows {m : Memory} {root : Page} (sheer : Sheer m root) : Shows m root (view m root) := by
  refine ⟨sheer, fun vpn inside => ?_, fun vpn outside => ?_⟩
  · rw [view, if_pos inside]
  · rw [view, if_neg (by omega)]

/-- Every page that the loop of `mappages` has not reached is as it was. -/
theorem MapLoop.view {root : Page} {perm : Perm} {npages vpn : Nat} {page : Page} {m after : Memory} {mapped : Bool}
    {count : Nat} {map : PageMap} (loop : MapLoop root perm npages vpn page m mapped after count) (inside : vpn + npages ≤ maxVpn)
    (leaf : perm.leaf = true) (shows : Shows m root map) :
    Shows after root (view after root) ∧ (∀ v, vpn ≤ v → v < vpn + count → map v = none) ∧
      (∀ v, vpn ≤ v → v < vpn + count → view after root v = some (page + (v - vpn), perm)) ∧
      ∀ v, ¬(vpn ≤ v ∧ v < vpn + count) → view after root v = map v := by
  have most := loop.most
  refine ⟨view_shows ⟨loop.forest.apart, fun v limit valid => ?_⟩, fun v low high => ?_, fun v low high => ?_, fun v outside => ?_⟩
  · by_cases here : vpn ≤ v ∧ v < vpn + count
    · rw [loop.added v limit here.1 here.2]
      exact leaf
    · rw [loop.kept v limit here] at valid ⊢
      exact shows.sheer.leaves v limit valid
  · rw [← shows.shows v (by omega)]
    exact shown_invalid (loop.vacant v low high)
  · have limit : v < maxVpn := by omega
    rw [Vm.view, if_pos limit, loop.added v limit low high]
    rfl
  · by_cases limit : v < maxVpn
    · rw [Vm.view, if_pos limit, loop.kept v limit outside, shows.shows v limit]
    · rw [Vm.view, if_neg limit, shows.outside v (by omega)]

/-- One call refines the step of the abstract page table. -/
theorem tableStep_refines {l : Layout} {root : Page} {m after : Memory} {map : PageMap} {action : TableAction}
    {events : List TableEvent} (shows : Shows m root map) (proper : Proper l root m action)
    (stepped : tableStep l root m action = some (after, events)) :
    ∃ done next, events = [.returned action.call done] ∧ MapStep action.call done map next ∧ Shows after root next := by
  have alike := prepare_alike action m root
  have tables (path : Path) (short : path.length ≤ 2) :
      node (action.prepare m) (some root) path = node m (some root) path := alike.node () path (by omega)
  have ready : Shows (action.prepare m) root map := by
    refine ⟨⟨shows.sheer.apart.alike alike, fun v limit valid => ?_⟩, fun v limit => ?_, shows.outside⟩
    · have same : space (action.prepare m) (some root) v = space m (some root) v := alike.space () v
      rw [same] at valid ⊢
      exact shows.sheer.leaves v limit valid
    · have same : space (action.prepare m) (some root) v = space m (some root) v := alike.space () v
      rw [same]
      exact shows.shows v limit
  obtain ⟨nodup, fresh, bounds⟩ := proper
  unfold tableStep at stepped
  cases call : action.call with
  | map va size pa perm =>
      rw [call] at bounds stepped
      obtain ⟨least, limit, aligned, leaf⟩ := bounds
      have forest : Forest (action.prepare m) (only root) := by
        refine ⟨ready.sheer.apart, nodup, fun _ path page short listed => ?_⟩
        rw [only, tables path short]
        exact fresh page listed path short
      have inside : va / 4096 + ((va + size - 1) / 4096 - va / 4096 + 1) ≤ maxVpn := by
        have last : va / 4096 ≤ (va + size - 1) / 4096 := Nat.div_le_div_right (by omega)
        omega
      obtain ⟨mapped, final, count, ran, loop⟩ := mapRange_loop _ forest inside
      obtain ⟨showsAfter, vacant, added, kept⟩ := loop.view inside leaf ready
      have same : mappages (action.prepare m) root va size pa perm = .ok (mapped, final) := ran
      simp only [same, Option.some.injEq, Prod.mk.injEq] at stepped
      obtain ⟨rfl, rfl⟩ := stepped
      refine ⟨mapped, view final root, rfl, ?_, showsAfter⟩
      cases mapped with
      | true =>
          have all := loop.all.mp rfl
          apply MapStep.mapped
          · intro vpn covered
            rw [covers_iff least, ← all] at covered
            exact vacant vpn covered.1 covered.2
          · intro vpn covered
            rw [covers_iff least, ← all] at covered
            exact added vpn covered.1 covered.2
          · intro vpn outside
            rw [covers_iff least, ← all] at outside
            exact kept vpn outside
      | false =>
          have most := loop.most
          have part : count ≠ (va + size - 1) / 4096 - va / 4096 + 1 := fun all => absurd (loop.all.mpr all) (by simp)
          apply MapStep.refused (va / 4096 + count)
          · rw [covers_iff least]
            omega
          · intro vpn covered early
            rw [covers_iff least] at covered
            exact vacant vpn covered.1 early
          · intro vpn covered early
            rw [covers_iff least] at covered
            exact added vpn covered.1 early
          · intro vpn outside
            apply kept vpn
            rintro ⟨low, high⟩
            apply outside
            rw [covers_iff least]
            omega
  | unmap va npages doFree =>
      rw [call] at bounds stepped
      obtain ⟨aligned, inside, freeable⟩ := bounds
      have freeableReady (free : doFree = true) (v : Nat) (low : va / 4096 ≤ v) (high : v < va / 4096 + npages)
          (valid : (space (action.prepare m) (some root) v).valid = true) :
          Freeable l (action.prepare m) root (space (action.prepare m) (some root) v).page := by
        have same : space (action.prepare m) (some root) v = space m (some root) v := alike.space () v
        rw [same] at valid ⊢
        obtain ⟨managed, unheld⟩ := freeable free v low high valid
        refine ⟨managed, fun path short => ?_⟩
        rw [tables path short]
        exact unheld path short
      obtain ⟨final, ran, sheer, removed, kept⟩ := unmapRange_removes npages ready.sheer inside freeableReady
      have same : uvmunmap l (action.prepare m) root va npages doFree = .ok final := by
        rw [uvmunmap, if_neg (by omega)]
        exact ran
      simp only [same, Option.some.injEq, Prod.mk.injEq] at stepped
      obtain ⟨rfl, rfl⟩ := stepped
      refine ⟨true, view final root, rfl, .unmapped (fun vpn low high => ?_) fun vpn outside => ?_, view_shows sheer⟩
      · rw [view, if_pos (by omega), removed vpn low high]
        rfl
      · by_cases limit : vpn < maxVpn
        · rw [view, if_pos limit, kept vpn limit outside, ready.shows vpn limit]
        · rw [view, if_neg limit, shows.outside vpn (by omega)]

/-- A page table as `uvmcreate` returns it when `kalloc` gives fresh pages. -/
def Created (l : Layout) (root : Page) (m : Memory) : Prop :=
  ∃ before, before.free.Nodup ∧ uvmcreate l before = .ok (some root, m)

theorem created_shows {l : Layout} {root : Page} {m : Memory} (created : Created l root m) : Shows m root (firstMap l) := by
  obtain ⟨before, nodup, done⟩ := created
  unfold uvmcreate at done
  split at done
  · simp at done
  · rename_i page mid alloc
    obtain ⟨⟨mapped, last⟩, mapping, rest⟩ := bind_ok.mp done
    cases mapped with
    | false => simp at rest
    | true =>
        simp only [if_true, pure, Except.pure, Except.ok.injEq, Prod.mk.injEq, Option.some.injEq] at rest
        obtain ⟨rfl, rfl⟩ := rest
        have fresh := nodup
        rw [(kalloc_some alloc).1, List.nodup_cons] at fresh
        have one (path : Path) (table : Page) (held : node (mid.clear page) (some page) path = some table) :
            path = [] ∧ page = table := by
          by_cases deep : path = []
          · refine ⟨deep, ?_⟩
            rw [deep] at held
            exact Option.some.inj held
          · rw [node_clear mid page deep] at held
            simp at held
        have forest : Forest (mid.clear page) (only page) := by
          refine ⟨fun _ _ path other table _ _ first second => ?_, fresh.2, fun _ path table _ listed held => ?_⟩
          · exact ⟨rfl, (one path table first).1.trans (one other table second).1.symm⟩
          · rw [← (one path table held).2] at listed
            exact fresh.1 listed
        obtain ⟨grown, inside, _, remapped, entry⟩ := mapPage_adds (s := ()) forest rfl mapping
        have other (v : Nat) (limit : v < maxVpn) (different : v ≠ trampolineVpn) : space last (some page) v = zeroPte := by
          have same : space last (some page) v = space (mid.clear page) (some page) v :=
            remapped () v limit fun both => different both.2
          rw [same]
          exact pteAt_clear mid page _ _
        have place : space last (some page) trampolineVpn =
          { valid := true, perm := { r := true, w := false, x := true, u := false }, page := l.trampoline } := entry
        refine ⟨⟨grown.apart, fun v limit valid => ?_⟩, fun v limit => ?_, fun v outside => ?_⟩
        · by_cases here : v = trampolineVpn
          · rw [here, place]
            rfl
          · rw [other v limit here] at valid
            simp [zeroPte] at valid
        · by_cases here : v = trampolineVpn
          · rw [firstMap, if_pos here, here, place]
            rfl
          · rw [firstMap, if_neg here, other v limit here]
            rfl
        · rw [firstMap, if_neg (by omega)]

/-- The page table refines the abstract one in every run; what a call does to the one it does to the other, and a page
that is mapped already is refused. -/
theorem page_table_refines (l : Layout) (root : Page) {m : Memory} {trace : List TableEvent}
    (reached : Reaches (tableStep l root) (fun m _ action => Proper l root m action) (Created l root) m trace) :
    ∃ map, Follows l trace map ∧ (∀ vpn, vpn < maxVpn → lookup m root vpn = .ok (map vpn)) ∧
      ∀ action, Proper l root m action → ∃ after done next,
        tableStep l root m action = some (after, [.returned action.call done]) ∧ MapStep action.call done map next ∧
        (∀ vpn, vpn < maxVpn → lookup after root vpn = .ok (next vpn)) ∧
        ∀ va size pa perm vpn, action.call = .map va size pa perm → Covers va size vpn → map vpn ≠ none →
          done = false ∧ next vpn = map vpn := by
  have follows := reached.invariant (fun m trace => ∃ map, Follows l trace map ∧ Shows m root map)
    (fun m created => ⟨firstMap l, .start, created_shows created⟩)
    (fun m trace action after events known proper stepped => by
      obtain ⟨map, follows, shows⟩ := known
      obtain ⟨done, next, rfl, moved, showsAfter⟩ := tableStep_refines shows proper stepped
      exact ⟨next, follows.next moved, showsAfter⟩)
  obtain ⟨map, followed, shows⟩ := follows
  refine ⟨map, followed, fun vpn inside => ?_, fun action proper => ?_⟩
  · rw [lookup_eq m root inside, shows.shows vpn inside]
  · cases stepped : tableStep l root m action with
    | none =>
        unfold tableStep at stepped
        split at stepped
        · split at stepped
          · simp at stepped
          · simp at stepped
        · split at stepped
          · simp at stepped
          · simp at stepped
    | some result =>
        obtain ⟨after, events⟩ := result
        obtain ⟨done, next, rfl, moved, showsAfter⟩ := tableStep_refines shows proper stepped
        refine ⟨after, done, next, rfl, moved, fun vpn inside => ?_, fun va size pa perm vpn call covered present => ?_⟩
        · rw [lookup_eq after root inside, showsAfter.shows vpn inside]
        · rw [call] at moved
          exact moved.meets covered present

/-- The pages of `kalloc` before the page table is created. -/
def tablePool : Memory := { free := [10000, 10001, 10002], denials := [], entry := fun _ _ => zeroPte }

/-- A page table below the page 10000. -/
def createdTable : Memory :=
  match uvmcreate (smallLayout 3) tablePool with
  | .ok (some _, m) => m
  | _ => tablePool

/-- The lowest table itself is mapped right below the trampoline. -/
def mapTable : TableAction :=
  { call := .map ((trampolineVpn - 1) * 4096) 4096 (10002 * 4096) { r := true, w := true, x := false, u := true }
    free := []
    denials := [] }

def freeTable : TableAction := { call := .unmap ((trampolineVpn - 1) * 4096) 1 true, free := [], denials := [] }

theorem createdTable_created : Created (smallLayout 3) 10000 createdTable := ⟨tablePool, by decide, rfl⟩

theorem mapTable_proper (m : Memory) : Proper (smallLayout 3) 10000 m mapTable := by
  have bounds : 1 ≤ 4096 ∧ (trampolineVpn - 1) * 4096 + 4096 ≤ maxVpn * 4096 ∧ 10002 * 4096 % 4096 = 0 ∧
    ({ r := true, w := true, x := false, u := true } : Perm).leaf = true := by decide
  exact ⟨List.nodup_nil, fun page listed => by simp [mapTable] at listed, bounds⟩

/-- Refinement in a run of one mapping. -/
theorem page_table_refines_run : ∃ m trace,
    Reaches (tableStep (smallLayout 3) 10000) (fun m _ action => Proper (smallLayout 3) 10000 m action)
      (Created (smallLayout 3) 10000) m trace ∧ trace = [.returned mapTable.call true] ∧
    ∃ map, Follows (smallLayout 3) trace map ∧ ∀ vpn, vpn < maxVpn → lookup m 10000 vpn = .ok (map vpn) := by
  obtain ⟨m, trace, reached, test⟩ := replay_witness (tableStep (smallLayout 3) 10000) (fun _ _ action => action = mapTable)
    (Created (smallLayout 3) 10000) [mapTable] createdTable createdTable_created
    (fun _ trace => decide (trace = [.returned mapTable.call true])) (by decide +kernel)
  rw [decide_eq_true_eq] at test
  have proper := reached.weaken fun m _ action only =>
    show Proper (smallLayout 3) 10000 m action by
      rw [only]
      exact mapTable_proper m
  obtain ⟨map, follows, shows, _⟩ := page_table_refines (smallLayout 3) 10000 proper
  exact ⟨m, trace, proper, test, map, follows, shows⟩

/-- The calls of the claim without the condition on what is freed. -/
def Claimed (root : Page) (m : Memory) (action : TableAction) : Prop :=
  action.free.Nodup ∧ (∀ page, page ∈ action.free → ∀ path, path.length ≤ 2 → node m (some root) path ≠ some page) ∧
    match action.call with
    | .map va size pa perm => 1 ≤ size ∧ va + size ≤ maxVpn * 4096 ∧ pa % 4096 = 0 ∧ perm.leaf = true
    | .unmap va npages _ => va % 4096 = 0 ∧ va / 4096 + npages ≤ maxVpn

/-- No call of the trace unmaps a page number. -/
def spared (vpn : Nat) (trace : List TableEvent) : Bool :=
  trace.all fun event =>
    match event with
    | .returned (.unmap va npages _) _ => !(decide (va / 4096 ≤ vpn) && decide (vpn < va / 4096 + npages))
    | _ => true

/-- A mapping that no call removes stays in the abstract page table. -/
theorem Follows.spared {l : Layout} {trace : List TableEvent} {map : PageMap} (follows : Follows l trace map) {vpn : Nat}
    (first : firstMap l vpn ≠ none) (kept : spared vpn trace = true) : map vpn = firstMap l vpn := by
  induction follows with
  | start => rfl
  | next earlier stepped ih =>
      rw [Vm.spared, List.all_append, Bool.and_eq_true] at kept
      have before := ih kept.1
      have present := before.trans_ne first
      rw [← before]
      cases stepped with
      | mapped vacant added kept =>
          exact kept vpn fun covered => present (vacant vpn covered)
      | refused stop inside vacant added kept =>
          exact kept vpn fun covered => present (vacant vpn covered.1 covered.2)
      | unmapped removed stays =>
          have outside := kept.2
          simp only [List.all_cons, List.all_nil, Bool.and_true, Bool.not_eq_true', Bool.and_eq_false_iff,
            decide_eq_false_iff_not] at outside
          exact stays vpn (not_and_or.mpr outside)

/-- A table that is freed through a mapping of its own page is full of junk afterwards. -/
theorem freed_table_lost : ∃ m trace,
    Reaches (tableStep (smallLayout 3) 10000) (fun m _ action => Claimed 10000 m action) (Created (smallLayout 3) 10000) m
      trace ∧ ¬∃ map, Follows (smallLayout 3) trace map ∧ ∀ vpn, vpn < maxVpn → lookup m 10000 vpn = .ok (map vpn) := by
  obtain ⟨m, trace, reached, test⟩ := replay_witness (tableStep (smallLayout 3) 10000)
    (fun _ _ action => action = mapTable ∨ action = freeTable) (Created (smallLayout 3) 10000) [mapTable, freeTable]
    createdTable createdTable_created
    (fun m trace => spared trampolineVpn trace &&
      decide ((lookup m 10000 trampolineVpn).toOption ≠ some (firstMap (smallLayout 3) trampolineVpn)))
    (by decide +kernel)
  rw [Bool.and_eq_true, decide_eq_true_eq] at test
  refine ⟨m, trace, reached.weaken fun m _ action either => ?_, ?_⟩
  · rcases either with rfl | rfl
    · exact mapTable_proper m
    · have bounds : (trampolineVpn - 1) * 4096 % 4096 = 0 ∧ (trampolineVpn - 1) * 4096 / 4096 + 1 ≤ maxVpn := by decide
      exact ⟨List.nodup_nil, fun page listed => by simp [freeTable] at listed, bounds⟩
  · rintro ⟨map, follows, shows⟩
    apply test.2
    have same := follows.spared (by decide) test.1
    rw [shows trampolineVpn (by decide), same]
    rfl

end BtbuOs.Vm
