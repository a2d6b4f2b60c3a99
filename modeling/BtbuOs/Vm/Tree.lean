import BtbuOs.Vm.Memory

namespace BtbuOs.Vm

/-- The indices on the way from the root of a page table, the last one first. -/
abbrev Path := List (Fin 512)

/-- The page that a path through valid entries leads to. -/
def node (m : Memory) (root : Option Page) : Path → Option Page
  | [] => root
  | i :: up => (node m root up).bind fun table => if (m.entry table i).valid then some (m.entry table i).page else none

/-- The entry behind a path; there is none below a missing table. -/
def pteAt (m : Memory) (root : Option Page) (i : Fin 512) (up : Path) : Pte :=
  match node m root up with
  | none => zeroPte
  | some table => m.entry table i

theorem node_cons (m : Memory) (root : Option Page) (i : Fin 512) (up : Path) :
    node m root (i :: up) = if (pteAt m root i up).valid then some (pteAt m root i up).page else none := by
  rw [node, pteAt]
  cases node m root up with
  | none => simp [zeroPte]
  | some table => rfl

theorem pteAt_held {m : Memory} {root : Option Page} {up : Path} {table : Page} (held : node m root up = some table)
    (i : Fin 512) : pteAt m root i up = m.entry table i := by
  rw [pteAt, held]

theorem node_none (m : Memory) (path : Path) : node m none path = none := by
  induction path with
  | nil => rfl
  | cons i up ih =>
      rw [node, ih]
      rfl

theorem pteAt_none (m : Memory) (i : Fin 512) (up : Path) : pteAt m none i up = zeroPte := by
  rw [pteAt, node_none]

/-- Nothing lies below an entry that is not valid. -/
theorem node_below {m : Memory} {root : Option Page} {i : Fin 512} {up : Path}
    (invalid : (pteAt m root i up).valid = false) (path : Path) (suffix : (i :: up) <:+ path) : node m root path = none := by
  induction path with
  | nil => simp at suffix
  | cons j below ih =>
      rcases List.suffix_cons_iff.mp suffix with same | deeper
      · rw [← same, node_cons, invalid]
        rfl
      · rw [node, ih deeper]
        rfl

/-- Nothing lies below a table without valid entries. -/
theorem blank_below {m : Memory} {root : Option Page} {up : Path} (blank : ∀ i, (pteAt m root i up).valid = false)
    (path : Path) (suffix : up <:+ path) (strict : path ≠ up) : node m root path = none := by
  obtain ⟨front, rfl⟩ := suffix
  cases front.eq_nil_or_concat with
  | inl empty => simp [empty] at strict
  | inr last =>
      obtain ⟨rest, i, rfl⟩ := last
      rw [List.concat_eq_append, List.append_assoc]
      exact node_below (blank i) _ (List.suffix_append rest (i :: up))

/-- A page table whose root has been cleared has no other table and shows nothing. -/
theorem node_clear (m : Memory) (page : Page) {path : Path} (deep : path ≠ []) : node (m.clear page) (some page) path = none := by
  apply blank_below _ path List.nil_suffix deep
  intro i
  have zero : (m.clear page).entry page i = zeroPte := by simp [Memory.clear, Memory.fill]
  have top : node (m.clear page) (some page) [] = some page := rfl
  rw [pteAt_held top, zero]
  rfl

theorem pteAt_clear (m : Memory) (page : Page) (i : Fin 512) (up : Path) : pteAt (m.clear page) (some page) i up = zeroPte := by
  by_cases top : up = []
  · have held : node (m.clear page) (some page) [] = some page := rfl
    rw [top, pteAt_held held]
    simp [Memory.clear, Memory.fill]
  · rw [pteAt, node_clear m page top]

theorem suffix_length {i : Fin 512} {up path : Path} (suffix : (i :: up) <:+ path) : up.length < path.length := by
  have length := suffix.length_le
  rw [List.length_cons] at length
  omega

/-- The page number that a path of three indices stands for. -/
def vpnOf : Path → Nat
  | [] => 0
  | i :: up => i.val + 512 * vpnOf up

/-- The path of a page number to its lowest table. -/
def tablePath (vpn : Nat) : Path := [px 1 vpn, px 2 vpn]

/-- The entry of a page number. -/
def space (m : Memory) (root : Option Page) (vpn : Nat) : Pte := pteAt m root (px 0 vpn) (tablePath vpn)

/-- The entry of a page number in the table that a walk found. -/
theorem space_held {m : Memory} {root : Option Page} {vpn : Nat} {table : Page}
    (found : node m root (tablePath vpn) = some table) : space m root vpn = m.entry table (px 0 vpn) :=
  pteAt_held found (px 0 vpn)

theorem space_absent {m : Memory} {root : Option Page} {vpn : Nat} (absent : node m root (tablePath vpn) = none) :
    space m root vpn = zeroPte := by
  rw [space, pteAt, absent]

/-- Two page numbers below `MAXVA` with the same indices are equal. -/
theorem px_inj {first second : Nat} (inside : first < maxVpn) (insideSecond : second < maxVpn)
    (low : px 0 first = px 0 second) (path : tablePath first = tablePath second) : first = second := by
  simp only [tablePath, List.cons.injEq, and_true] at path
  have zero := congrArg Fin.val low
  have one := congrArg Fin.val path.1
  have two := congrArg Fin.val path.2
  simp only [px, maxVpn, Nat.reducePow, Nat.div_one] at *
  omega

theorem vpnOf_path {vpn : Nat} (inside : vpn < maxVpn) : vpnOf (px 0 vpn :: tablePath vpn) = vpn := by
  simp only [vpnOf, tablePath, px, maxVpn, Nat.reducePow, Nat.div_one] at *
  omega

variable {S : Type} {roots : S → Option Page}

/-- The page tables show the same entries. -/
def Alike (m after : Memory) (roots : S → Option Page) : Prop :=
  ∀ s i path, path.length ≤ 2 → pteAt after (roots s) i path = pteAt m (roots s) i path

namespace Alike

variable {m mid after : Memory}

theorem refl (m : Memory) (roots : S → Option Page) : Alike m m roots := fun _ _ _ _ => rfl

theorem trans (first : Alike m mid roots) (second : Alike mid after roots) : Alike m after roots :=
  fun s i path short => (second s i path short).trans (first s i path short)

/-- The tables are the same as well. -/
theorem node (alike : Alike m after roots) (s : S) (path : Path) (short : path.length ≤ 3) :
    node after (roots s) path = node m (roots s) path := by
  cases path with
  | nil => rfl
  | cons i up =>
      rw [List.length_cons] at short
      rw [node_cons, node_cons, alike s i up (by omega)]

theorem space (alike : Alike m after roots) (s : S) (vpn : Nat) :
    space after (roots s) vpn = space m (roots s) vpn :=
  alike s (px 0 vpn) (tablePath vpn) (Nat.le_refl 2)

end Alike

/-- The entries decide what a page table shows. -/
theorem alike_entry {m after : Memory} (entries : after.entry = m.entry) (roots : S → Option Page) : Alike m after roots := by
  intro s i path _
  have same : node after (roots s) path = node m (roots s) path := by
    induction path with
    | nil => rfl
    | cons j up ih => rw [node, node, ih (by simp at *; omega), entries]
  rw [pteAt, pteAt, same, entries]

/-- A page that is no table can be overwritten. -/
theorem alike_fill {m : Memory} {page : Page} (words : Fin 512 → Pte)
    (unheld : ∀ s path, path.length ≤ 2 → node m (roots s) path ≠ some page) : Alike m (m.fill page words) roots := by
  have entry (s : S) (path : Path) (short : path.length ≤ 2)
      (same : node (m.fill page words) (roots s) path = node m (roots s) path) (i : Fin 512) :
      pteAt (m.fill page words) (roots s) i path = pteAt m (roots s) i path := by
    rw [pteAt, pteAt, same]
    cases target : node m (roots s) path with
    | none => rfl
    | some table =>
        have other : table ≠ page := by
          rintro rfl
          exact unheld s path short target
        simp [Memory.fill, other]
  have tables (s : S) (path : Path) (short : path.length ≤ 2) :
      node (m.fill page words) (roots s) path = node m (roots s) path := by
    induction path with
    | nil => rfl
    | cons i up ih =>
        rw [List.length_cons] at short
        rw [node_cons, node_cons, entry s up (by omega) (ih (by omega))]
  exact fun s i path short => entry s path short (tables s path short) i

/-- A table belongs to one page table and one path. -/
def Apart (m : Memory) (roots : S → Option Page) : Prop :=
  ∀ s r path other table, path.length ≤ 2 → other.length ≤ 2 → node m (roots s) path = some table →
    node m (roots r) other = some table → s = r ∧ path = other

/-- The page tables lie apart from each other and from the free pages, and no page is free twice. -/
structure Forest (m : Memory) (roots : S → Option Page) : Prop where
  apart : Apart m roots
  nodup : m.free.Nodup
  unheld : ∀ s path page, path.length ≤ 2 → page ∈ m.free → node m (roots s) path ≠ some page

theorem Apart.alike {m after : Memory} (apart : Apart m roots) (alike : Alike m after roots) : Apart after roots := by
  intro s r path other table short shortOther first second
  rw [alike.node s path (by omega)] at first
  rw [alike.node r other (by omega)] at second
  exact apart s r path other table short shortOther first second

/-- One entry of one page table is written. -/
def Rewritten (m after : Memory) (roots : S → Option Page) (s : S) (i : Fin 512) (up : Path) (pte : Pte) : Prop :=
  ∀ r j path, path.length ≤ 2 →
    (r = s ∧ j = i ∧ path = up → pteAt after (roots r) j path = pte) ∧
    (¬(r = s ∧ j = i ∧ path = up) → pteAt after (roots r) j path = pteAt m (roots r) j path)

namespace Rewritten

variable {m mid after : Memory} {s : S} {i : Fin 512} {up : Path} {pte : Pte}

theorem entry (written : Rewritten m after roots s i up pte) (short : up.length ≤ 2) :
    pteAt after (roots s) i up = pte := (written s i up short).1 ⟨rfl, rfl, rfl⟩

theorem other (written : Rewritten m after roots s i up pte) {r : S} {j : Fin 512} {path : Path} (short : path.length ≤ 2)
    (different : ¬(r = s ∧ j = i ∧ path = up)) : pteAt after (roots r) j path = pteAt m (roots r) j path :=
  (written r j path short).2 different

/-- Every table but the one behind the entry stays in place. -/
theorem node (written : Rewritten m after roots s i up pte) {r : S} {path : Path} (short : path.length ≤ 3)
    (different : ¬(r = s ∧ path = i :: up)) : node after (roots r) path = node m (roots r) path := by
  cases path with
  | nil => rfl
  | cons j rest =>
      rw [List.length_cons] at short
      rw [node_cons, node_cons, written.other (by omega)]
      rintro ⟨rfl, rfl, rfl⟩
      exact different ⟨rfl, rfl⟩

theorem preceded (alike : Alike m mid roots) (written : Rewritten mid after roots s i up pte) :
    Rewritten m after roots s i up pte := by
  intro r j path short
  refine ⟨(written r j path short).1, fun different => ?_⟩
  rw [written.other short different, alike r j path short]

theorem followed (written : Rewritten m mid roots s i up pte) (alike : Alike mid after roots) :
    Rewritten m after roots s i up pte := by
  intro r j path short
  rw [alike r j path short]
  exact written r j path short

end Rewritten

/-- A write to one table changes nothing that is not behind the written entry. -/
theorem node_setEntry {m : Memory} {s : S} {up : Path} {table : Page} {i : Fin 512} (pte : Pte) (apart : Apart m roots)
    (held : node m (roots s) up = some table) (shortUp : up.length ≤ 2) (r : S) (path : Path) (short : path.length ≤ 3)
    (outside : r = s → ¬(i :: up) <:+ path) :
    node (m.setEntry table i pte) (roots r) path = node m (roots r) path := by
  induction path with
  | nil => rfl
  | cons j below ih =>
      have length : below.length ≤ 2 := Nat.le_of_succ_le_succ short
      have same := ih (by omega) fun own suffix => outside own (suffix.trans (List.suffix_cons j below))
      rw [node, node, same]
      cases target : node m (roots r) below with
      | none => rfl
      | some t =>
          by_cases own : t = table
          · subst own
            obtain ⟨rfl, rfl⟩ := apart s r up below t shortUp length held target
            have other : j ≠ i := by
              rintro rfl
              exact outside rfl (List.suffix_refl _)
            simp [Memory.setEntry, other]
          · simp [Memory.setEntry, own]

/-- The entries that no path through the written entry leads to. -/
theorem pteAt_setEntry {m : Memory} {s : S} {up : Path} {table : Page} {i : Fin 512} (pte : Pte) (apart : Apart m roots)
    (held : node m (roots s) up = some table) (shortUp : up.length ≤ 2) (r : S) (j : Fin 512) (path : Path)
    (short : path.length ≤ 2) (outside : r = s → ¬(i :: up) <:+ path) :
    (r = s ∧ j = i ∧ path = up → pteAt (m.setEntry table i pte) (roots r) j path = pte) ∧
    (¬(r = s ∧ j = i ∧ path = up) → pteAt (m.setEntry table i pte) (roots r) j path = pteAt m (roots r) j path) := by
  have same := node_setEntry pte apart held shortUp r path (by omega) outside
  constructor
  · rintro ⟨rfl, rfl, rfl⟩
    rw [pteAt, same, held]
    simp [Memory.setEntry]
  · intro different
    rw [pteAt, pteAt, same]
    cases target : node m (roots r) path with
    | none => rfl
    | some t =>
        by_cases own : t = table
        · subst own
          obtain ⟨rfl, rfl⟩ := apart s r up path t shortUp short held target
          have other : j ≠ i := fun same => different ⟨rfl, same, rfl⟩
          simp [Memory.setEntry, other]
        · simp [Memory.setEntry, own]

/-- The write of a mapping. -/
theorem rewritten_leaf {m : Memory} {s : S} {up : Path} {table : Page} {i : Fin 512} (pte : Pte) (apart : Apart m roots)
    (length : up.length = 2) (held : node m (roots s) up = some table) :
    Rewritten m (m.setEntry table i pte) roots s i up pte :=
  fun r j path short => pteAt_setEntry pte apart held (by omega) r j path short
    fun _ suffix => absurd (suffix_length suffix) (by omega)

/-- A new table is empty, so that it shows nothing new. -/
theorem rewritten_dir {m : Memory} {s : S} {up : Path} {table page : Page} {i : Fin 512} (apart : Apart m roots)
    (short : up.length ≤ 1) (held : node m (roots s) up = some table) (invalid : (m.entry table i).valid = false)
    (different : page ≠ table) (blank : ∀ j, m.entry page j = zeroPte) :
    Rewritten m (m.setEntry table i (dirPte page)) roots s i up (dirPte page) := by
  have oldEntry : (pteAt m (roots s) i up).valid = false := by rw [pteAt_held held, invalid]
  have outside : ¬(i :: up) <:+ up := fun suffix => absurd (suffix_length suffix) (by omega)
  have self := pteAt_setEntry (i := i) (dirPte page) apart held (by omega) s i up (by omega) fun _ => outside
  have reached : node (m.setEntry table i (dirPte page)) (roots s) (i :: up) = some page := by
    rw [node_cons, self.1 ⟨rfl, rfl, rfl⟩]
    rfl
  have below (j : Fin 512) (path : Path) (suffix : (i :: up) <:+ path) :
      pteAt (m.setEntry table i (dirPte page)) (roots s) j path = zeroPte := by
    obtain ⟨front, rfl⟩ := suffix
    induction front generalizing j with
    | nil =>
        rw [List.nil_append, pteAt_held reached]
        simp [Memory.setEntry, different, blank j]
    | cons first rest ih =>
        rw [List.cons_append, pteAt, node_cons, ih first]
        rfl
  intro r j path length
  by_cases inside : r = s ∧ (i :: up) <:+ path
  · obtain ⟨rfl, suffix⟩ := inside
    have longer : path ≠ up := by
      rintro rfl
      exact outside suffix
    refine ⟨fun same => absurd same.2.2 longer, fun _ => ?_⟩
    rw [below j path suffix, pteAt, node_below oldEntry path suffix]
  · exact pteAt_setEntry (dirPte page) apart held (by omega) r j path length fun own suffix => inside ⟨own, suffix⟩

end BtbuOs.Vm
