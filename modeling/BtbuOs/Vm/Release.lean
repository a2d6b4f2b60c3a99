import BtbuOs.Vm.Mappings

namespace BtbuOs.Vm

open Machine Partition
open Sched (Slot)

variable {l : Layout} {m after : Memory} {h next : Holding} {s : Slot} {top up : Path}

/-- A table without valid entries is cut off, and everything else shows what it showed or nothing. -/
structure Pruned (m after : Memory) (h next : Holding) (s : Slot) (top : Path) : Prop where
  objects : next.objects = h.objects
  hand : next.hand = h.hand
  gone : ∀ path, top <:+ path → node after (next.roots s) path = none
  tables : ∀ r path, path.length ≤ 2 → ¬(r = s ∧ top <:+ path) → node after (next.roots r) path = node m (h.roots r) path
  dirs : ∀ r i path, path.length ≤ 1 → ¬(r = s ∧ top <:+ path) →
    pteAt after (next.roots r) i path = pteAt m (h.roots r) i path ∨ pteAt after (next.roots r) i path = zeroPte
  leaves : ∀ r i path, path.length = 2 → ¬(r = s ∧ top <:+ path) →
    pteAt after (next.roots r) i path = pteAt m (h.roots r) i path

/-- Nobody but the owner of the topmost table had a page below a path without mappings. -/
theorem Pruned.owner (pruned : Pruned m after h next s top) (blank : ∀ i, (pteAt m (h.roots s) i top).valid = false) :
    occupant after next = Function.update (occupant m h) (.table s top) none := by
  funext role
  cases role with
  | table r path =>
      by_cases own : Role.table r path = .table s top
      · obtain ⟨rfl, rfl⟩ := Role.table.inj own
        rw [Function.update_self, occupant, pruned.gone path (List.suffix_refl path), ite_self]
      · rw [Function.update_of_ne own, occupant, occupant]
        split
        · rename_i length
          by_cases inside : r = s ∧ top <:+ path
          · obtain ⟨rfl, suffix⟩ := inside
            rw [pruned.gone path suffix, blank_below blank path suffix]
            rintro rfl
            exact own rfl
          · exact pruned.tables r path length inside
        · rfl
  | leaf r i path =>
      rw [Function.update_of_ne (by simp), occupant, occupant]
      split
      · rename_i length
        by_cases inside : r = s ∧ top <:+ path
        · obtain ⟨rfl, suffix⟩ := inside
          have left : userPage (pteAt after (next.roots r) i path) = none := by
            rw [pteAt, pruned.gone path suffix]
            rfl
          have right : userPage (pteAt m (h.roots r) i path) = none := by
            by_cases same : path = top
            · subst same
              exact userPage_invalid (blank i)
            · rw [pteAt, blank_below blank path suffix same]
              rfl
          rw [left, right]
        · rw [pruned.leaves r i path length inside]
      · rfl
  | object n =>
      rw [Function.update_of_ne (by simp), occupant, occupant, pruned.objects]
  | hand =>
      rw [Function.update_of_ne (by simp), occupant, occupant, pruned.hand]

/-- The page of a table that is cut off becomes free. -/
theorem Sound.prune {table : Page} (sound : Sound l m h) (pruned : Pruned m after h next s top) (short : top.length ≤ 2)
    (held : node m (h.roots s) top = some table) (blank : ∀ i, (pteAt m (h.roots s) i top).valid = false)
    (free : after.free = table :: m.free) : Sound l after next := by
  have nothing (i : Fin 512) (path : Path) (suffix : top <:+ path) : pteAt after (next.roots s) i path = zeroPte := by
    rw [pteAt, pruned.gone path suffix]
  refine ⟨?_, fun r i path length valid => ?_, fun r i path length => ?_⟩
  · rw [pruned.owner blank, free]
    apply sound.owned.give
    rw [occupant_table short, held]
  · by_cases inside : r = s ∧ top <:+ path
    · obtain ⟨rfl, suffix⟩ := inside
      rw [nothing i path suffix] at valid
      simp [zeroPte] at valid
    · cases pruned.dirs r i path length inside with
      | inl same =>
          rw [same] at valid ⊢
          exact sound.dirs r i path length valid
      | inr cleared =>
          rw [cleared] at valid
          simp [zeroPte] at valid
  · by_cases inside : r = s ∧ top <:+ path
    · obtain ⟨rfl, suffix⟩ := inside
      rw [nothing i path suffix]
      exact fits_zero l _
    · rw [pruned.leaves r i path length inside]
      exact sound.leaves r i path length

/-- Only tables below one path differ. -/
def Below (m after : Memory) (roots : Slot → Option Page) (s : Slot) (up : Path) : Prop :=
  ∀ r i path, path.length ≤ 2 → ¬(r = s ∧ up <:+ path) → pteAt after (roots r) i path = pteAt m (roots r) i path

/-- The tables on the way and beside it stay in place. -/
theorem Below.node {roots : Slot → Option Page} (below : Below m after roots s up) (r : Slot) (path : Path)
    (short : path.length ≤ 3) (outside : ¬(r = s ∧ up <:+ path) ∨ path = up) :
    node after (roots r) path = node m (roots r) path := by
  cases path with
  | nil => rfl
  | cons i rest =>
      rw [List.length_cons] at short
      rw [node_cons, node_cons, below r i rest (by omega)]
      rintro ⟨rfl, suffix⟩
      rcases outside with apart | same
      · exact apart ⟨rfl, suffix.trans (List.suffix_cons i rest)⟩
      · rw [← same] at suffix
        exact absurd (suffix_length suffix) (by omega)

/-- Only one entry and what lies behind it differ. -/
def Beneath (m after : Memory) (roots : Slot → Option Page) (s : Slot) (front : Path) : Prop :=
  ∀ r i path, path.length ≤ 2 → ¬(r = s ∧ front <:+ i :: path) → pteAt after (roots r) i path = pteAt m (roots r) i path

/-- A change behind an entry is a change below its table. -/
theorem Beneath.below {roots : Slot → Option Page} {i : Fin 512} (beneath : Beneath m after roots s (i :: up)) :
    Below m after roots s up := by
  intro r j path length other
  apply beneath r j path length
  rintro ⟨rfl, suffix⟩
  apply other ⟨rfl, ?_⟩
  rcases List.suffix_cons_iff.mp suffix with same | deeper
  · obtain ⟨_, rfl⟩ := List.cons.inj same
    exact List.suffix_refl _
  · exact (List.suffix_cons i up).trans deeper

/-- The loop of `freewalk` has emptied some entries of a table and everything below them. -/
structure Emptied (l : Layout) (m after : Memory) (h : Holding) (s : Slot) (up : Path) (table : Page)
    (done : List (Fin 512)) : Prop where
  sound : Sound l after h
  held : node after (h.roots s) up = some table
  blank : ∀ i, i ∈ done → (pteAt after (h.roots s) i up).valid = false
  below : Below m after h.roots s up

/-- A table has been freed and the entry that points to it cleared. -/
theorem Emptied.clear {mid freed : Memory} {table child : Page} {i : Fin 512}
    (emptied : Emptied l m mid h s (i :: up) child (List.finRange 512)) (short : up.length ≤ 1) (held : node mid (h.roots s) up = some table)
    (given : kfree l mid child = .ok freed) :
    Sound l (freed.setEntry table i zeroPte) h ∧ Beneath m (freed.setEntry table i zeroPte) h.roots s (i :: up) ∧
      pteAt (freed.setEntry table i zeroPte) (h.roots s) i up = zeroPte := by
  obtain ⟨_, free, words, entries⟩ := kfree_ok given
  have apart := emptied.sound.forest.apart
  have blank (j : Fin 512) : (pteAt mid (h.roots s) j (i :: up)).valid = false := emptied.blank j (List.mem_finRange j)
  have outside : ¬(i :: up) <:+ up := fun suffix => absurd (suffix_length suffix) (by omega)
  have different : child ≠ table := by
    rintro rfl
    have same := (apart s s up (i :: up) child (by omega) (by simpa using short) held emptied.held).2
    exact outside (same ▸ List.suffix_refl _)
  have written (r : Slot) (j : Fin 512) (path : Path) (length : path.length ≤ 2) (other : ¬(r = s ∧ (i :: up) <:+ path)) :=
    pteAt_setEntry (i := i) zeroPte apart held (by omega) r j path length fun own suffix => other ⟨own, suffix⟩
  have cleared : (pteAt (mid.setEntry table i zeroPte) (h.roots s) i up).valid = false := by
    rw [(written s i up (by omega) fun same => outside same.2).1 ⟨rfl, rfl, rfl⟩]
    rfl
  have tables (r : Slot) (path : Path) (length : path.length ≤ 2) (other : ¬(r = s ∧ (i :: up) <:+ path)) :
      node (mid.setEntry table i zeroPte) (h.roots r) path = node mid (h.roots r) path :=
    node_setEntry zeroPte apart held (by omega) r path (by omega) fun own suffix => other ⟨own, suffix⟩
  have unheld (r : Slot) (path : Path) (length : path.length ≤ 2) :
      node (mid.setEntry table i zeroPte) (h.roots r) path ≠ some child := by
    intro known
    by_cases inside : r = s ∧ (i :: up) <:+ path
    · obtain ⟨rfl, suffix⟩ := inside
      rw [node_below cleared path suffix] at known
      simp at known
    · rw [tables r path length inside] at known
      obtain ⟨rfl, rfl⟩ := apart r s path (i :: up) child length (by simpa using short) known emptied.held
      exact inside ⟨rfl, List.suffix_refl _⟩
  have swap : (freed.setEntry table i zeroPte).entry = ((mid.setEntry table i zeroPte).fill child words).entry := by
    have kept : freed.entry table = mid.entry table := by
      rw [entries]
      exact Function.update_of_ne different.symm _ _
    change Function.update freed.entry table (Function.update (freed.entry table) i zeroPte) = _
    rw [kept, entries]
    exact (Function.update_comm different _ _ _)
  have alike : Alike (mid.setEntry table i zeroPte) (freed.setEntry table i zeroPte) h.roots :=
    (alike_fill words unheld).trans (alike_entry swap h.roots)
  have pruned : Pruned mid (freed.setEntry table i zeroPte) h h s (i :: up) := by
    refine ⟨rfl, rfl, fun path suffix => ?_, fun r path length other => ?_, fun r j path length other => ?_,
      fun r j path length other => ?_⟩
    · apply node_below _ path suffix
      rw [alike s i up (by omega)]
      exact cleared
    · rw [alike.node r path (by omega)]
      exact tables r path length other
    · rw [alike r j path (by omega)]
      by_cases here : r = s ∧ j = i ∧ path = up
      · exact Or.inr ((written r j path (by omega) other).1 here)
      · exact Or.inl ((written r j path (by omega) other).2 here)
    · rw [alike r j path (by omega)]
      apply (written r j path (by omega) other).2
      rintro ⟨_, _, rfl⟩
      omega
  refine ⟨emptied.sound.prune pruned (by simpa using short) emptied.held blank ?_, fun r j path length other => ?_, ?_⟩
  · rw [← free]
    rfl
  · have further : ¬(r = s ∧ (i :: up) <:+ path) := fun both => other ⟨both.1, both.2.trans (List.suffix_cons j path)⟩
    rw [alike r j path length, (written r j path length further).2, emptied.below r j path length further]
    rintro ⟨rfl, rfl, rfl⟩
    exact other ⟨rfl, List.suffix_refl _⟩
  · rw [alike s i up (by omega)]
    exact (written s i up (by omega) fun same => outside same.2).1 ⟨rfl, rfl, rfl⟩

/-- One round of the loop of `freewalk`. -/
def freewalkRound (l : Layout) (level : Nat) (table : Page) (m : Memory) (i : Fin 512) : Except String Memory := do
  let pte := m.entry table i
  if pte.valid && !pte.perm.leaf then
    let m ← freewalk l level pte.page m
    return m.setEntry table i zeroPte
  else if pte.valid then
    let m ← kfree l m pte.page
    return m.setEntry table i zeroPte
  else return m

theorem freewalk_succ (l : Layout) (level : Nat) (table : Page) (m : Memory) :
    freewalk l (level + 1) table m = (List.finRange 512).foldlM (freewalkRound l level table) m >>= (kfree l · table) := rfl

/-- A round clears one entry; a lower table is emptied first. -/
theorem Emptied.cleared {mid : Memory} {level : Nat} {table : Page} {i : Fin 512} {done : List (Fin 512)}
    (emptied : Emptied l m mid h s up table done) (depth : up.length + level = 2)
    (lower : ∀ child state final, Sound l state h → node state (h.roots s) (i :: up) = some child → up.length ≤ 1 →
      freewalk l level child state = .ok final →
      ∃ empty, Emptied l state empty h s (i :: up) child (List.finRange 512) ∧ kfree l empty child = .ok final)
    (ran : freewalkRound l level table mid i = .ok after) :
    Sound l after h ∧ Beneath mid after h.roots s (i :: up) ∧ (pteAt after (h.roots s) i up).valid = false := by
  have entry := pteAt_held emptied.held i
  unfold freewalkRound at ran
  simp only at ran
  split at ran
  · rename_i directory
    rw [Bool.and_eq_true, Bool.not_eq_true'] at directory
    obtain ⟨freed, walking, result⟩ := bind_ok.mp ran
    simp only [pure, Except.pure, Except.ok.injEq] at result
    subst result
    have short : up.length ≤ 1 := by
      by_contra long
      have fits := emptied.sound.leaves s i up (by omega)
      rw [entry] at fits
      simp [(fits directory.1).1] at directory
    have child : node mid (h.roots s) (i :: up) = some (mid.entry table i).page := by
      rw [node_cons, entry, directory.1]
      rfl
    obtain ⟨empty, below, given⟩ := lower _ mid freed emptied.sound child short walking
    have held : node empty (h.roots s) up = some table := by
      rw [below.below.node s up (by omega), emptied.held]
      exact Or.inl fun same => absurd (suffix_length same.2) (by omega)
    obtain ⟨known, changed, zero⟩ := below.clear short held given
    exact ⟨known, changed, by rw [zero]; rfl⟩
  · split at ran
    · rename_i notDirectory valid
      obtain ⟨freed, given, result⟩ := bind_ok.mp ran
      simp only [pure, Except.pure, Except.ok.injEq] at result
      subst result
      have length : up.length = 2 := by
        by_contra short
        have perm := emptied.sound.dirs s i up (by omega)
        rw [entry] at perm
        simp [valid, perm valid, noPerm, Perm.leaf] at notDirectory
      obtain ⟨known, written⟩ := emptied.sound.unmap length emptied.held valid given
      refine ⟨known, fun r j path short other => ?_, by rw [written.entry (by omega)]; rfl⟩
      apply written.other short
      rintro ⟨rfl, rfl, rfl⟩
      exact other ⟨rfl, List.suffix_refl _⟩
    · rename_i notDirectory invalid
      simp only [pure, Except.pure, Except.ok.injEq] at ran
      subst ran
      refine ⟨emptied.sound, fun _ _ _ _ _ => rfl, ?_⟩
      rw [entry]
      simpa using invalid

theorem Emptied.round {mid : Memory} {level : Nat} {table : Page} {i : Fin 512} {done : List (Fin 512)}
    (emptied : Emptied l m mid h s up table done) (depth : up.length + level = 2)
    (lower : ∀ child state final, Sound l state h → node state (h.roots s) (i :: up) = some child → up.length ≤ 1 →
      freewalk l level child state = .ok final →
      ∃ empty, Emptied l state empty h s (i :: up) child (List.finRange 512) ∧ kfree l empty child = .ok final)
    (ran : freewalkRound l level table mid i = .ok after) : Emptied l m after h s up table (done ++ [i]) := by
  obtain ⟨known, beneath, cleared⟩ := emptied.cleared depth lower ran
  have below := beneath.below
  refine ⟨known, ?_, fun j listed => ?_, fun r j path length other => ?_⟩
  · rw [below.node s up (by omega) (Or.inr rfl), emptied.held]
  · by_cases same : j = i
    · rw [same]
      exact cleared
    · rw [beneath s j up (by omega)]
      · apply emptied.blank j
        simpa [same] using listed
      · rintro ⟨_, suffix⟩
        rcases List.suffix_cons_iff.mp suffix with equal | deeper
        · exact same (List.cons.inj equal).1.symm
        · exact absurd (suffix_length deeper) (by omega)
  · rw [below r j path length other, emptied.below r j path length other]

/-- The rounds of `freewalk` empty a table. -/
theorem freewalk_rounds {level : Nat} {table : Page} (sound : Sound l m h) (held : node m (h.roots s) up = some table)
    (depth : up.length + level = 2)
    (lower : ∀ i child state final, Sound l state h → node state (h.roots s) (i :: up) = some child → up.length ≤ 1 →
      freewalk l level child state = .ok final →
      ∃ empty, Emptied l state empty h s (i :: up) child (List.finRange 512) ∧ kfree l empty child = .ok final)
    (items : List (Fin 512)) (ran : items.foldlM (freewalkRound l level table) m = .ok after) :
    Emptied l m after h s up table items := by
  have start : Emptied l m m h s up table [] := ⟨sound, held, fun i listed => by simp at listed, fun _ _ _ _ _ => rfl⟩
  have all := foldlM_ok (fun done state => Emptied l m state h s up table done)
    (fun done i state final emptied round => emptied.round depth (lower i) round) items start ran
  rwa [List.nil_append] at all

/-- `freewalk` empties a table and frees its page. -/
theorem freewalk_empties (level : Nat) {table : Page} (sound : Sound l m h) (held : node m (h.roots s) up = some table)
    (depth : up.length + level = 2) (walked : freewalk l (level + 1) table m = .ok after) :
    ∃ empty, Emptied l m empty h s up table (List.finRange 512) ∧ kfree l empty table = .ok after := by
  induction level generalizing up table m after with
  | zero =>
      rw [freewalk_succ] at walked
      obtain ⟨empty, loop, given⟩ := bind_ok.mp walked
      refine ⟨empty, freewalk_rounds sound held depth ?_ _ loop, given⟩
      intro i child state final known below short walking
      omega
  | succ level ih =>
      rw [freewalk_succ] at walked
      obtain ⟨empty, loop, given⟩ := bind_ok.mp walked
      refine ⟨empty, freewalk_rounds sound held depth ?_ _ loop, given⟩
      intro i child state final known below short walking
      apply ih known below _ walking
      rw [List.length_cons]
      omega

/-- One process gets another page table. -/
def Holding.setRoot (h : Holding) (s : Slot) (root : Option Page) : Holding := { h with roots := Function.update h.roots s root }

/-- A page table that is freed leaves the others alone. -/
theorem freewalk_root {root : Page} (sound : Sound l m h) (rooted : h.roots s = some root)
    (walked : freewalk l 3 root m = .ok after) :
    Sound l after (h.setRoot s none) ∧ ∀ r vpn, r ≠ s → space after (h.roots r) vpn = space m (h.roots r) vpn := by
  have top : node m (h.roots s) [] = some root := rooted
  obtain ⟨empty, emptied, given⟩ := freewalk_empties 2 sound top rfl walked
  have own : (h.setRoot s none).roots s = none := Function.update_self ..
  have others (r : Slot) (other : r ≠ s) : (h.setRoot s none).roots r = h.roots r := Function.update_of_ne other ..
  have unheld (r : Slot) (path : Path) (short : path.length ≤ 2) : node empty ((h.setRoot s none).roots r) path ≠ some root := by
    intro known
    by_cases mine : r = s
    · rw [mine, own, node_none] at known
      simp at known
    · rw [others r mine] at known
      exact mine (emptied.sound.forest.apart r s path [] root short (by simp) known emptied.held).1
  have alike : Alike empty after (h.setRoot s none).roots := alike_kfree given unheld
  have apart (r : Slot) (path : Path) (outside : ¬(r = s ∧ [] <:+ path)) : r ≠ s :=
    fun same => outside ⟨same, List.nil_suffix⟩
  refine ⟨emptied.sound.prune ⟨rfl, rfl, fun path _ => ?_, fun r path short outside => ?_,
    fun r i path short outside => ?_, fun r i path length outside => ?_⟩ (by simp) emptied.held
    (fun i => emptied.blank i (List.mem_finRange i)) (kfree_ok given).2.1, fun r vpn other => ?_⟩
  · rw [own, node_none]
  · have same := alike.node r path (by omega)
    rw [others r (apart r path outside)] at same ⊢
    exact same
  · have same := alike r i path (by omega)
    rw [others r (apart r path outside)] at same ⊢
    exact Or.inl same
  · have same := alike r i path (by omega)
    rw [others r (apart r path outside)] at same ⊢
    exact same
  · have same := alike.space r vpn
    rw [others r other] at same
    rw [same]
    exact emptied.below r (px 0 vpn) (tablePath vpn) (by simp [tablePath]) fun both => other both.1

end BtbuOs.Vm
