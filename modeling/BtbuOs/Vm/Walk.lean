import BtbuOs.Vm.Tree
import Mathlib.Logic.Relation

namespace BtbuOs.Vm

open Machine

theorem kalloc_none {m after : Memory} (alloc : kalloc m = (none, after)) :
    after.free = m.free ∧ after.entry = m.entry := by
  unfold kalloc at alloc
  split at alloc
  · simp only [Prod.mk.injEq, true_and] at alloc
    rw [← alloc]
    exact ⟨rfl, rfl⟩
  · split at alloc
    · simp only [Prod.mk.injEq, true_and] at alloc
      rw [← alloc]
      exact ⟨rfl, rfl⟩
    · simp at alloc

theorem kalloc_some {m after : Memory} {page : Page} (alloc : kalloc m = (some page, after)) :
    m.free = page :: after.free ∧ ∃ words, after.entry = (m.fill page words).entry := by
  unfold kalloc at alloc
  split at alloc
  · simp at alloc
  · split at alloc
    · simp at alloc
    · rename_i first rest free
      simp only [Prod.mk.injEq, Option.some.injEq] at alloc
      obtain ⟨rfl, rfl⟩ := alloc
      exact ⟨free, _, rfl⟩

/-- The pages between `ekernel` and `PHYSTOP` are managed by `kalloc`. -/
def Managed (l : Layout) (page : Page) : Prop := l.ekernel ≤ page ∧ page < l.phystop

theorem kfree_ok {l : Layout} {m after : Memory} {page : Page} (freed : kfree l m page = .ok after) :
    Managed l page ∧ after.free = page :: m.free ∧ ∃ words, after.entry = (m.fill page words).entry := by
  unfold kfree at freed
  split at freed
  · simp at freed
  · rename_i inside
    simp only [Except.ok.injEq] at freed
    subst freed
    rw [not_or, Nat.not_lt, Nat.not_le] at inside
    exact ⟨inside, rfl, _, rfl⟩

/-- A managed page can be freed. -/
theorem kfree_total {l : Layout} (m : Memory) {page : Page} (managed : Managed l page) : ∃ after, kfree l m page = .ok after := by
  unfold kfree
  rw [if_neg]
  · exact ⟨_, rfl⟩
  · rw [not_or, Nat.not_lt, Nat.not_le]
    exact managed

variable {S : Type} {roots : S → Option Page}

/-- A page that `kalloc` gives is no table, so that its words do not matter. -/
theorem Forest.kalloc {m after : Memory} {page : Page} (forest : Forest m roots) (alloc : kalloc m = (some page, after)) :
    Alike m after roots ∧ ∀ s path, path.length ≤ 2 → node after (roots s) path ≠ some page := by
  obtain ⟨free, words, entries⟩ := kalloc_some alloc
  have listed : page ∈ m.free := by
    rw [free]
    exact List.mem_cons_self
  have unheld (s : S) (path : Path) (short : path.length ≤ 2) : node m (roots s) path ≠ some page :=
    forest.unheld s path page short listed
  have alike : Alike m after roots := (alike_fill words unheld).trans (alike_entry entries roots)
  refine ⟨alike, fun s path short => ?_⟩
  rw [alike.node s path (by omega)]
  exact unheld s path short

/-- A page that is no table can be freed. -/
theorem alike_kfree {l : Layout} {m after : Memory} {page : Page} (freed : kfree l m page = .ok after)
    (unheld : ∀ s path, path.length ≤ 2 → node m (roots s) path ≠ some page) : Alike m after roots := by
  obtain ⟨_, _, words, entries⟩ := kfree_ok freed
  exact (alike_fill words unheld).trans (alike_entry entries roots)

/-- An allocation in `walk` fails, or an empty table appears behind an entry that was not valid. -/
inductive Grow (roots : S → Option Page) (s : S) (m after : Memory) : Prop where
  | same (free : after.free = m.free) (alike : Alike m after roots)
  | table (up : Path) (i : Fin 512) (page : Page) (short : up.length ≤ 1)
      (invalid : (pteAt m (roots s) i up).valid = false) (free : m.free = page :: after.free)
      (written : Rewritten m after roots s i up (dirPte page))

/-- Page tables grow one table at a time. -/
abbrev Grows (roots : S → Option Page) (s : S) : Memory → Memory → Prop := Relation.ReflTransGen (Grow roots s)

/-- The mappings of all page tables are as before. -/
def Unmoved (m after : Memory) (roots : S → Option Page) : Prop :=
  ∀ s i up, up.length = 2 → pteAt after (roots s) i up = pteAt m (roots s) i up

theorem Unmoved.space {m after : Memory} (unmoved : Unmoved m after roots) (s : S) (vpn : Nat) :
    space after (roots s) vpn = space m (roots s) vpn := unmoved s (px 0 vpn) (tablePath vpn) rfl

theorem Unmoved.trans {m mid after : Memory} (first : Unmoved m mid roots) (second : Unmoved mid after roots) :
    Unmoved m after roots :=
  fun s i up length => (second s i up length).trans (first s i up length)

theorem Grow.unmoved {s : S} {m after : Memory} (grow : Grow roots s m after) : Unmoved m after roots := by
  intro r i path length
  cases grow with
  | same _ alike => exact alike r i path (by omega)
  | table up j page short _ _ written =>
      apply written.other (by omega)
      rintro ⟨_, _, rfl⟩
      omega

theorem Grows.unmoved {s : S} {m after : Memory} (grows : Grows roots s m after) : Unmoved m after roots := by
  induction grows with
  | refl => exact fun _ _ _ _ => rfl
  | tail _ grow ih => exact ih.trans grow.unmoved

/-- The table that a page table gains is nobody else's. -/
theorem Grow.forest {s : S} {m after : Memory} (grow : Grow roots s m after) (forest : Forest m roots) :
    Forest after roots := by
  cases grow with
  | same free alike =>
      refine ⟨forest.apart.alike alike, ?_, fun r path page short listed => ?_⟩
      · rw [free]
        exact forest.nodup
      · rw [free] at listed
        rw [alike.node r path (by omega)]
        exact forest.unheld r path page short listed
  | table up i page short invalid free written =>
      have listed : page ∈ m.free := by
        rw [free]
        exact List.mem_cons_self
      have fresh := forest.nodup
      rw [free, List.nodup_cons] at fresh
      have new (r : S) (path : Path) (same : r = s ∧ path = i :: up) : node after (roots r) path = some page := by
        obtain ⟨rfl, rfl⟩ := same
        rw [node_cons, written.entry (by omega)]
        rfl
      have old (r : S) (path : Path) (length : path.length ≤ 2) (different : ¬(r = s ∧ path = i :: up)) :
          node after (roots r) path = node m (roots r) path := written.node (by omega) different
      refine ⟨?_, fresh.2, fun r path other length known => ?_⟩
      · intro r q path other table length lengthOther first second
        by_cases here : r = s ∧ path = i :: up <;> by_cases there : q = s ∧ other = i :: up
        · exact ⟨here.1.trans there.1.symm, here.2.trans there.2.symm⟩
        · rw [new r path here, Option.some.injEq] at first
          rw [old q other lengthOther there, ← first] at second
          exact absurd second (forest.unheld q other page lengthOther listed)
        · rw [new q other there, Option.some.injEq] at second
          rw [old r path length here, ← second] at first
          exact absurd first (forest.unheld r path page length listed)
        · rw [old r path length here] at first
          rw [old q other lengthOther there] at second
          exact forest.apart r q path other table length lengthOther first second
      · by_cases here : r = s ∧ path = i :: up
        · rw [new r path here, ne_eq, Option.some.injEq]
          rintro rfl
          exact fresh.1 known
        · rw [old r path length here]
          apply forest.unheld r path other length
          rw [free]
          exact List.mem_cons_of_mem page known

theorem Grows.forest {s : S} {m after : Memory} (grows : Grows roots s m after) (forest : Forest m roots) :
    Forest after roots := by
  induction grows with
  | refl => exact forest
  | tail _ grow ih => exact grow.forest ih

/-- One round of a walk that allocates. -/
theorem walkLevel_grow {m after : Memory} {s : S} {up : Path} {table : Page} {i : Fin 512} {found : Option Page}
    (forest : Forest m roots) (short : up.length ≤ 1) (held : node m (roots s) up = some table)
    (walked : walkLevel m table i true = (found, after)) :
    Grow roots s m after ∧ ∀ next, found = some next → node after (roots s) (i :: up) = some next := by
  unfold walkLevel at walked
  split at walked
  · rename_i valid
    obtain ⟨rfl, rfl⟩ := Prod.mk.inj walked
    refine ⟨.same rfl (Alike.refl m roots), fun next same => ?_⟩
    rw [node_cons, pteAt_held held, valid, ← same]
    rfl
  · rename_i invalid
    rw [if_neg (by simp)] at walked
    split at walked
    · rename_i mid alloc
      obtain ⟨rfl, rfl⟩ := Prod.mk.inj walked
      obtain ⟨free, entries⟩ := kalloc_none alloc
      exact ⟨.same free (alike_entry entries roots), fun next same => by simp at same⟩
    · rename_i page mid alloc
      obtain ⟨rfl, rfl⟩ := Prod.mk.inj walked
      obtain ⟨alike, unheld⟩ := forest.kalloc alloc
      have cleared : Alike m (mid.clear page) roots := alike.trans (alike_fill _ unheld)
      have heldMid : node (mid.clear page) (roots s) up = some table := by rw [cleared.node s up (by omega), held]
      have different : page ≠ table := by
        rintro rfl
        apply unheld s up (by omega)
        rw [alike.node s up (by omega), held]
      have blank (j : Fin 512) : (mid.clear page).entry page j = zeroPte := by simp [Memory.clear, Memory.fill]
      have invalidMid : ((mid.clear page).entry table i).valid = false := by
        rw [← pteAt_held heldMid, cleared s i up (by omega), pteAt_held held]
        simpa using invalid
      have written := rewritten_dir (forest.apart.alike cleared) short heldMid invalidMid different blank
      refine ⟨.table up i page short ?_ (kalloc_some alloc).1 (written.preceded cleared), fun next same => ?_⟩
      · rw [pteAt_held held]
        simpa using invalid
      · rw [← same, node_cons, written.entry (by omega)]
        rfl

/-- A walk that allocates reaches the lowest table unless memory is short. -/
theorem walk_grows {m after : Memory} {s : S} {root : Page} {vpn : Nat} {found : Option Page} (forest : Forest m roots)
    (rooted : roots s = some root) (walked : walk m root vpn true = .ok (found, after)) :
    vpn < maxVpn ∧ Grows roots s m after ∧
      ∀ table, found = some table → node after (roots s) (tablePath vpn) = some table := by
  unfold walk at walked
  split at walked
  · simp at walked
  · rename_i inside
    have top : node m (roots s) [] = some root := rooted
    refine ⟨by omega, ?_⟩
    split at walked
    · rename_i mid upper
      simp only [Except.ok.injEq, Prod.mk.injEq] at walked
      obtain ⟨rfl, rfl⟩ := walked
      exact ⟨.single (walkLevel_grow forest (by simp) top upper).1, fun table same => by simp at same⟩
    · rename_i first mid upper
      simp only [Except.ok.injEq] at walked
      obtain ⟨grow, reached⟩ := walkLevel_grow forest (by simp) top upper
      obtain ⟨further, lower⟩ := walkLevel_grow (grow.forest forest) (by simp) (reached first rfl) walked
      exact ⟨.tail (.single grow) further, lower⟩

theorem walkLevel_peek (m : Memory) (table : Page) (i : Fin 512) :
    walkLevel m table i false = (if (m.entry table i).valid then some (m.entry table i).page else none, m) := by
  unfold walkLevel
  split <;> simp

/-- A walk that does not allocate finds the lowest table. -/
theorem walk_peek (m : Memory) (root : Page) {vpn : Nat} (inside : vpn < maxVpn) :
    walk m root vpn false = .ok (node m (some root) (tablePath vpn), m) := by
  unfold walk
  rw [if_neg (by omega), walkLevel_peek]
  by_cases valid : (m.entry root (px 2 vpn)).valid
  · simp [valid, walkLevel_peek, tablePath, node]
  · simp [valid, tablePath, node]

/-- `walkaddr` tests the bits `PTE_V` and `PTE_U` alone. -/
theorem walkaddr_eq (m : Memory) (root : Page) (vpn : Nat) :
    walkaddr m root vpn = .ok (if vpn < maxVpn ∧ (space m (some root) vpn).valid = true ∧
      (space m (some root) vpn).perm.u = true then (space m (some root) vpn).page else 0) := by
  unfold walkaddr
  split
  · rename_i outside
    rw [if_neg fun all => absurd all.1 (by omega)]
  · rename_i inside
    rw [walk_peek m root (by omega)]
    cases place : node m (some root) (tablePath vpn) with
    | none => simp [bind, Except.bind, pure, Except.pure, space_absent place, zeroPte]
    | some table =>
        have bound : vpn < maxVpn := by omega
        simp [bind, Except.bind, pure, Except.pure, space_held place, bound]

/-- A walk panics from `MAXVA` on. -/
theorem walk_inside {m after : Memory} {root : Page} {vpn : Nat} {alloc : Bool} {table : Option Page}
    (walked : walk m root vpn alloc = .ok (table, after)) : vpn < maxVpn := by
  unfold walk at walked
  split at walked
  · simp at walked
  · omega

/-- Below `MAXVA` nothing panics. -/
theorem walk_total (m : Memory) (root : Page) {vpn : Nat} (alloc : Bool) (inside : vpn < maxVpn) :
    ∃ result, walk m root vpn alloc = .ok result := by
  unfold walk
  rw [if_neg (by omega)]
  split
  · exact ⟨_, rfl⟩
  · exact ⟨_, rfl⟩

theorem mapPage_total (m : Memory) (root : Page) {vpn : Nat} (page : Page) (perm : Perm) (inside : vpn < maxVpn) :
    ∃ result, mapPage m root vpn page perm = .ok result := by
  obtain ⟨⟨found, mid⟩, walked⟩ := walk_total m root true inside
  rw [mapPage, walked]
  cases found with
  | none => exact ⟨_, rfl⟩
  | some table =>
      simp only [bind, Except.bind]
      split
      · exact ⟨_, rfl⟩
      · exact ⟨_, rfl⟩

/-- A call of `mapPage` either is refused after the page table has grown or writes an entry that was not valid. -/
theorem mapPage_grows {m after : Memory} {s : S} {root : Page} {vpn : Nat} {page : Page} {perm : Perm} {mapped : Bool}
    (forest : Forest m roots) (rooted : roots s = some root)
    (done : mapPage m root vpn page perm = .ok (mapped, after)) :
    vpn < maxVpn ∧ (mapped = false ∧ Grows roots s m after ∨
      mapped = true ∧ (space m (roots s) vpn).valid = false ∧ ∃ table mid, Grows roots s m mid ∧
        node mid (roots s) (tablePath vpn) = some table ∧
        after = mid.setEntry table (px 0 vpn) { valid := true, perm, page }) := by
  obtain ⟨⟨found, mid⟩, walked, rest⟩ := bind_ok.mp done
  obtain ⟨inside, grows, reached⟩ := walk_grows forest rooted walked
  refine ⟨inside, ?_⟩
  cases found with
  | none =>
      simp only [pure, Except.pure, Except.ok.injEq, Prod.mk.injEq] at rest
      obtain ⟨rfl, rfl⟩ := rest
      exact Or.inl ⟨rfl, grows⟩
  | some table =>
      simp only at rest
      split at rest
      · simp only [pure, Except.pure, Except.ok.injEq, Prod.mk.injEq] at rest
        obtain ⟨rfl, rfl⟩ := rest
        exact Or.inl ⟨rfl, grows⟩
      · rename_i invalid
        simp only [pure, Except.pure, Except.ok.injEq, Prod.mk.injEq] at rest
        obtain ⟨rfl, rfl⟩ := rest
        have held := reached table rfl
        refine Or.inr ⟨rfl, ?_, table, mid, grows, held, rfl⟩
        rw [← grows.unmoved.space s vpn, space_held held]
        simpa using invalid

/-- The address space of one process changes at the given page numbers only. -/
def Remapped (m after : Memory) (roots : S → Option Page) (s : S) (changed : Nat → Prop) : Prop :=
  ∀ r vpn, vpn < maxVpn → ¬(r = s ∧ changed vpn) → space after (roots r) vpn = space m (roots r) vpn

namespace Remapped

variable {m mid after : Memory} {s : S} {changed wider : Nat → Prop}

theorem trans (first : Remapped m mid roots s changed) (second : Remapped mid after roots s changed) :
    Remapped m after roots s changed :=
  fun r vpn inside other => (second r vpn inside other).trans (first r vpn inside other)

theorem mono (remapped : Remapped m after roots s changed) (covers : ∀ vpn, changed vpn → wider vpn) :
    Remapped m after roots s wider :=
  fun r vpn inside other => remapped r vpn inside fun both => other ⟨both.1, covers vpn both.2⟩

end Remapped

theorem Unmoved.remapped {m after : Memory} (unmoved : Unmoved m after roots) (s : S)
    (changed : Nat → Prop) : Remapped m after roots s changed :=
  fun r vpn _ _ => unmoved.space r vpn

/-- The write of the entry of one page number. -/
theorem Rewritten.remapped {m after : Memory} {s : S} {vpn : Nat} {pte : Pte}
    (written : Rewritten m after roots s (px 0 vpn) (tablePath vpn) pte) (inside : vpn < maxVpn) :
    Remapped m after roots s (· = vpn) ∧ space after (roots s) vpn = pte := by
  constructor
  · intro r other bound apart
    rw [space, space]
    apply written.other (by simp [tablePath])
    rintro ⟨rfl, low, path⟩
    exact apart ⟨rfl, px_inj bound inside low path⟩
  · exact written.entry (Nat.le_refl 2)

/-- A mapping moves no table. -/
theorem written_tables {m after : Memory} {s : S} {i : Fin 512} {up : Path} {pte : Pte}
    (written : Rewritten m after roots s i up pte) (length : up.length = 2) (r : S) (path : Path)
    (short : path.length ≤ 2) : node after (roots r) path = node m (roots r) path := by
  apply written.node (by omega)
  rintro ⟨_, rfl⟩
  rw [List.length_cons] at short
  omega

theorem Apart.write {m after : Memory} {s : S} {i : Fin 512} {up : Path} {pte : Pte} (apart : Apart m roots)
    (written : Rewritten m after roots s i up pte) (length : up.length = 2) : Apart after roots := by
  intro r q path other table short shortOther first second
  rw [written_tables written length r path short] at first
  rw [written_tables written length q other shortOther] at second
  exact apart r q path other table short shortOther first second

theorem Forest.write {m after : Memory} {s : S} {i : Fin 512} {up : Path} {pte : Pte} (forest : Forest m roots)
    (written : Rewritten m after roots s i up pte) (length : up.length = 2) (free : after.free = m.free) :
    Forest after roots := by
  refine ⟨forest.apart.write written length, ?_, fun r path page short listed => ?_⟩
  · rw [free]
    exact forest.nodup
  · rw [free] at listed
    rw [written_tables written length r path short]
    exact forest.unheld r path page short listed

/-- A successful call of `mapPage` adds one mapping. -/
theorem mapPage_adds {m after : Memory} {s : S} {root : Page} {vpn : Nat} {page : Page} {perm : Perm}
    (forest : Forest m roots) (rooted : roots s = some root) (done : mapPage m root vpn page perm = .ok (true, after)) :
    Forest after roots ∧ vpn < maxVpn ∧ (space m (roots s) vpn).valid = false ∧ Remapped m after roots s (· = vpn) ∧
      space after (roots s) vpn = { valid := true, perm, page } := by
  rcases mapPage_grows forest rooted done with ⟨inside, ⟨impossible, _⟩ | ⟨_, fresh, table, mid, grows, held, rfl⟩⟩
  · simp at impossible
  · have grown := grows.forest forest
    have written := rewritten_leaf (i := px 0 vpn) { valid := true, perm, page } grown.apart rfl held
    obtain ⟨remapped, entry⟩ := written.remapped inside
    exact ⟨grown.write written rfl rfl, inside, fresh, (grows.unmoved.remapped s _).trans remapped, entry⟩

/-- What one round of `uvmunmap` does. -/
theorem unmapRange_succ {l : Layout} {root : Page} {doFree : Bool} {npages vpn : Nat} {m after : Memory}
    (done : unmapRange l root doFree (npages + 1) vpn m = .ok after) :
    vpn < maxVpn ∧ ∃ mid, unmapRange l root doFree npages (vpn + 1) mid = .ok after ∧
      (node m (some root) (tablePath vpn) = none ∧ mid = m ∨
        ∃ table, node m (some root) (tablePath vpn) = some table ∧
          (((m.entry table (px 0 vpn)).valid = true ∧ doFree = true ∧ ∃ freed,
              kfree l m (m.entry table (px 0 vpn)).page = .ok freed ∧ mid = freed.setEntry table (px 0 vpn) zeroPte) ∨
            ((m.entry table (px 0 vpn)).valid = false ∨ doFree = false) ∧ mid = m.setEntry table (px 0 vpn) zeroPte)) := by
  rw [unmapRange] at done
  obtain ⟨⟨found, same⟩, walked, rest⟩ := bind_ok.mp done
  have inside := walk_inside walked
  rw [walk_peek m root inside, Except.ok.injEq, Prod.mk.injEq] at walked
  obtain ⟨place, -⟩ := walked
  refine ⟨inside, ?_⟩
  cases found with
  | none => exact ⟨m, rest, Or.inl ⟨place, rfl⟩⟩
  | some table =>
      simp only at rest
      split at rest
      · rename_i valid
        split at rest
        · obtain ⟨_, impossible, _⟩ := bind_ok.mp rest
          simp at impossible
        · split at rest
          · rename_i free
            obtain ⟨freed, freeing, tail⟩ := bind_ok.mp rest
            exact ⟨_, tail, Or.inr ⟨table, place, Or.inl ⟨valid, free, freed, freeing, rfl⟩⟩⟩
          · rename_i keeps
            obtain ⟨kept, equal, tail⟩ := bind_ok.mp rest
            simp only [Except.ok.injEq] at equal
            subst equal
            exact ⟨_, tail, Or.inr ⟨table, place, Or.inr ⟨Or.inr (by simpa using keeps), rfl⟩⟩⟩
      · rename_i invalid
        obtain ⟨kept, equal, tail⟩ := bind_ok.mp rest
        simp only [Except.ok.injEq] at equal
        subst equal
        exact ⟨_, tail, Or.inr ⟨table, place, Or.inr ⟨Or.inl (by simpa using invalid), rfl⟩⟩⟩

end BtbuOs.Vm
