import BtbuOs.Vm.Walk

namespace BtbuOs.Vm

open Machine

/-- The next calls of `kalloc` give pages: enough pages are free and no call is denied. -/
def supplies (n : Nat) (m : Memory) : Prop := n ≤ m.free.length ∧ ∀ denied, denied ∈ m.denials.take n → denied = false

instance (n : Nat) (m : Memory) : Decidable (supplies n m) := inferInstanceAs (Decidable (_ ∧ _))

/-- The tables that a walk to a page number has to add. -/
def missing (m : Memory) (root : Page) (vpn : Nat) : Nat :=
  match node m (some root) [px 2 vpn] with
  | none => 2
  | some _ =>
      match node m (some root) (tablePath vpn) with
      | none => 1
      | some _ => 0

theorem supplies_congr {n : Nat} {m after : Memory} (free : after.free = m.free) (denials : after.denials = m.denials)
    (enough : supplies n m) : supplies n after := by
  rw [supplies, free, denials]
  exact enough

/-- A supply of pages gives one page and is smaller afterwards. -/
theorem supplies_kalloc {n : Nat} {m : Memory} (enough : supplies (n + 1) m) :
    ∃ page after, kalloc m = (some page, after) ∧ supplies n after := by
  obtain ⟨free, denied⟩ := enough
  have open_ : m.denials.head? ≠ some true := by
    cases list : m.denials with
    | nil => simp
    | cons first rest =>
        have head := denied first (by simp [list])
        simp [head]
  unfold kalloc
  rw [if_neg open_]
  cases pages : m.free with
  | nil => simp [pages] at free
  | cons page rest =>
      refine ⟨page, _, rfl, ?_, fun known listed => ?_⟩
      · change n ≤ rest.length
        simp [pages] at free
        omega
      · change known ∈ m.denials.tail.take n at listed
        apply denied known
        cases list : m.denials with
        | nil => simp [list] at listed
        | cons first others =>
            rw [list] at listed
            rw [List.take_succ_cons]
            exact List.mem_cons_of_mem first listed

variable {S : Type} {roots : S → Option Page} {m : Memory} {s : S} {root : Page} {vpn : Nat}

/-- Pages are left when a table has been added. -/
theorem walkLevel_supplied {n : Nat} (table : Page) (i : Fin 512) (enough : supplies (n + 1) m) :
    ∃ next after, walkLevel m table i true = (some next, after) ∧ supplies n after := by
  unfold walkLevel
  split
  · obtain ⟨free, denied⟩ := enough
    refine ⟨_, m, rfl, by omega, fun known listed => denied known ?_⟩
    exact List.take_subset_take_left m.denials (Nat.le_succ n) listed
  · obtain ⟨page, after, alloc, rest⟩ := supplies_kalloc enough
    rw [if_neg (by simp), alloc]
    exact ⟨page, _, rfl, supplies_congr rfl rfl rest⟩

/-- An index that is in use takes no page. -/
theorem walkLevel_present {table : Page} {i : Fin 512} (valid : (m.entry table i).valid = true) :
    walkLevel m table i true = (some (m.entry table i).page, m) := by
  rw [walkLevel, if_pos valid]

/-- A walk reaches the lowest table when there are pages for the missing tables, and takes no other page. -/
theorem walk_supplied {n : Nat} (inside : vpn < maxVpn) (enough : supplies (n + missing m root vpn) m) :
    ∃ table after, walk m root vpn true = .ok (some table, after) ∧ supplies n after := by
  unfold walk
  rw [if_neg (Nat.not_le.mpr inside)]
  have first : node m (some root) [px 2 vpn] =
      if (m.entry root (px 2 vpn)).valid then some (m.entry root (px 2 vpn)).page else none := rfl
  by_cases high : (m.entry root (px 2 vpn)).valid = true
  · rw [if_pos high] at first
    have second : node m (some root) (tablePath vpn) =
        if (m.entry (m.entry root (px 2 vpn)).page (px 1 vpn)).valid then
          some (m.entry (m.entry root (px 2 vpn)).page (px 1 vpn)).page else none := by
      rw [tablePath, node, first]
      rfl
    rw [walkLevel_present high]
    by_cases low : (m.entry (m.entry root (px 2 vpn)).page (px 1 vpn)).valid = true
    · rw [if_pos low] at second
      rw [missing, first, second] at enough
      exact ⟨_, m, congrArg Except.ok (walkLevel_present low), enough⟩
    · rw [if_neg low] at second
      rw [missing, first, second] at enough
      obtain ⟨next, after, walked, left⟩ := walkLevel_supplied (m.entry root (px 2 vpn)).page (px 1 vpn) enough
      exact ⟨next, after, congrArg Except.ok walked, left⟩
  · rw [if_neg high] at first
    rw [missing, first] at enough
    obtain ⟨table, mid, upper, rest⟩ := walkLevel_supplied root (px 2 vpn) enough
    obtain ⟨next, after, lower, left⟩ := walkLevel_supplied table (px 1 vpn) rest
    exact ⟨next, after, by simp only [upper, lower], left⟩

/-- A page number that is not mapped can be mapped when there are pages for the missing tables. -/
theorem mapPage_supplied {n : Nat} (page : Page) (perm : Perm) (forest : Forest m roots) (rooted : roots s = some root)
    (inside : vpn < maxVpn) (vacant : (space m (some root) vpn).valid = false) (enough : supplies (n + missing m root vpn) m) :
    ∃ after, mapPage m root vpn page perm = .ok (true, after) ∧ supplies n after := by
  obtain ⟨table, after, walked, left⟩ := walk_supplied inside enough
  obtain ⟨_, grows, reached⟩ := walk_grows forest rooted walked
  have same := grows.unmoved.space s vpn
  rw [rooted] at same
  have held := reached table rfl
  rw [rooted] at held
  rw [space_held held] at same
  refine ⟨after.setEntry table (px 0 vpn) { valid := true, perm, page }, ?_, left⟩
  rw [mapPage, walked]
  simp [bind, Except.bind, same, vacant, pure, Except.pure]

/-- Page numbers in one lowest table miss the same tables. -/
theorem missing_path {near : Nat} (path : tablePath vpn = tablePath near) : missing m root vpn = missing m root near := by
  have index : px 2 vpn = px 2 near := by
    rw [tablePath, tablePath] at path
    simpa using (List.cons.inj path).2
  rw [missing, missing, index, path]

/-- A page number that is mapped has all its tables. -/
theorem missing_mapped (valid : (space m (some root) vpn).valid = true) : missing m root vpn = 0 := by
  have lowest : node m (some root) (tablePath vpn) ≠ none := by
    intro absent
    rw [space_absent absent] at valid
    simp [zeroPte] at valid
  have upper : node m (some root) [px 2 vpn] ≠ none := by
    intro absent
    apply lowest
    rw [tablePath, node, absent]
    rfl
  rw [missing]
  cases high : node m (some root) [px 2 vpn] with
  | none => exact absurd high upper
  | some page =>
      cases low : node m (some root) (tablePath vpn) with
      | none => exact absurd low lowest
      | some table => rfl

/-- A page number beside one that is mapped has all its tables. -/
theorem missing_beside {near : Nat} (path : tablePath vpn = tablePath near) (valid : (space m (some root) near).valid = true) :
    missing m root vpn = 0 := (missing_path path).trans (missing_mapped valid)

/-- The missing tables depend on the page table alone. -/
theorem missing_alike {after : Memory} (alike : Alike m after roots) (rooted : roots s = some root) (vpn : Nat) :
    missing after root vpn = missing m root vpn := by
  have upper := alike.node s [px 2 vpn] (by simp)
  have lower := alike.node s (tablePath vpn) (by simp [tablePath])
  rw [rooted] at upper lower
  rw [missing, missing, upper, lower]

end BtbuOs.Vm
