import BtbuOs.Vm.Spaces

namespace BtbuOs.Vm

open Machine Partition
open Sched (Slot)

variable {l : Layout} {m mid after : Memory} {h : Holding} {s : Slot} {root page : Page} {vpn : Nat} {perm : Perm}
  {roots : Slot → Option Page} {changed wider : Nat → Prop}

/-- Three indices are the path of a page number. -/
theorem path_vpn {i : Fin 512} {path : Path} (length : path.length = 2) :
    px 0 (vpnOf (i :: path)) = i ∧ tablePath (vpnOf (i :: path)) = path := by
  obtain ⟨middle, top, rfl⟩ := List.length_eq_two.mp length
  have low := i.isLt
  have mid := middle.isLt
  have high := top.isLt
  simp only [vpnOf, tablePath, px, List.cons.injEq, and_true, Fin.ext_iff, Nat.reducePow, Nat.div_one]
  omega

/-- The entry behind three indices is the one of their page number. -/
theorem space_vpnOf {root : Option Page} {i : Fin 512} {path : Path} (length : path.length = 2) :
    space m root (vpnOf (i :: path)) = pteAt m root i path := by
  obtain ⟨low, tables⟩ := path_vpn (i := i) length
  rw [space, low, tables]

/-- Below the system pages everything is mapped for the user. -/
theorem Sound.user_below (sound : Sound l m h) (inside : vpn < maxVpn) (low : vpn < systemVpn)
    (valid : (space m (h.roots s) vpn).valid = true) : (space m (h.roots s) vpn).perm.u = true := by
  have fits := sound.leaves s (px 0 vpn) (tablePath vpn) rfl
  rw [vpnOf_path inside, ← space] at fits
  by_contra system
  exact absurd ((fits valid).2 (by simpa using system)).2 (Nat.not_le.mpr low)

/-- Mappings of one process change at some page numbers, and its page table may gain tables. -/
structure Touched (m after : Memory) (roots : Slot → Option Page) (s : Slot) (changed : Nat → Prop) : Prop where
  entries : ∀ r i path, path.length = 2 → ¬(r = s ∧ changed (vpnOf (i :: path))) →
    pteAt after (roots r) i path = pteAt m (roots r) i path
  held : ∀ r path table, path.length ≤ 2 → node m (roots r) path = some table → node after (roots r) path = some table
  others : ∀ r path, r ≠ s → path.length ≤ 2 → node after (roots r) path = node m (roots r) path

namespace Touched

theorem refl (m : Memory) (roots : Slot → Option Page) (s : Slot) (changed : Nat → Prop) : Touched m m roots s changed :=
  ⟨fun _ _ _ _ _ => rfl, fun _ _ _ _ held => held, fun _ _ _ _ => rfl⟩

theorem trans (first : Touched m mid roots s changed) (second : Touched mid after roots s changed) :
    Touched m after roots s changed := by
  refine ⟨fun r i path length other => ?_, fun r path table short held => ?_, fun r path other short => ?_⟩
  · rw [second.entries r i path length other, first.entries r i path length other]
  · exact second.held r path table short (first.held r path table short held)
  · rw [second.others r path other short, first.others r path other short]

theorem mono (touched : Touched m after roots s changed) (covers : ∀ v, changed v → wider v) :
    Touched m after roots s wider :=
  ⟨fun r i path length other => touched.entries r i path length fun both => other ⟨both.1, covers _ both.2⟩,
    touched.held, touched.others⟩

/-- Both steps together change the page numbers of both. -/
theorem union {near far : Nat → Prop} (first : Touched m mid roots s near) (second : Touched mid after roots s far) :
    Touched m after roots s fun v => near v ∨ far v :=
  (first.mono fun _ => Or.inl).trans (second.mono fun _ => Or.inr)

theorem space (touched : Touched m after roots s changed) (r : Slot) {v : Nat} (inside : v < maxVpn)
    (other : ¬(r = s ∧ changed v)) : space after (roots r) v = space m (roots r) v := by
  apply touched.entries r (px 0 v) (tablePath v) rfl
  rw [vpnOf_path inside]
  exact other

end Touched

/-- A page that is free after a step which changes no mapping but adds some was free before. -/
theorem Touched.fewer (touched : Touched m after h.roots s changed) (before : Sound l m h) (sound : Sound l after h)
    (vacant : ∀ v, changed v → (Vm.space m (h.roots s) v).valid = false) (listed : page ∈ after.free) : page ∈ m.free := by
  rcases before.owned.cover page (sound.owned.freeManaged page listed) with free | ⟨role, mine⟩
  · exact free
  · have kept : occupant after h role = some page := by
      cases role with
      | table r path =>
          rw [occupant] at mine ⊢
          split at mine
          · rename_i short
            rw [if_pos short]
            exact touched.held r path page short mine
          · simp at mine
      | leaf r i path =>
          rw [occupant] at mine ⊢
          split at mine
          · rename_i length
            rw [if_pos length]
            by_cases here : r = s ∧ changed (vpnOf (i :: path))
            · obtain ⟨rfl, here⟩ := here
              have nothing := vacant _ here
              rw [space_vpnOf length] at nothing
              rw [userPage_invalid nothing] at mine
              simp at mine
            · rwa [touched.entries r i path length here]
          · simp at mine
      | object n => exact mine
      | hand => exact mine
    exact absurd listed (sound.owned.apart role page kept)

/-- A page that a step takes is mapped by it or has become a table of the process. -/
theorem Touched.spent (touched : Touched m after h.roots s changed) (before : Sound l m h) (sound : Sound l after h)
    (listed : page ∈ m.free) :
    page ∈ after.free ∨ (∃ v, changed v ∧ userPage (Vm.space after (h.roots s) v) = some page) ∨
      ∃ path, path.length ≤ 2 ∧ node after (h.roots s) path = some page := by
  rcases sound.owned.cover page (before.owned.freeManaged page listed) with free | ⟨role, mine⟩
  · exact Or.inl free
  · have taken (same : occupant m h role = some page) : False := before.owned.apart role page same listed
    cases role with
    | table r path =>
        rw [occupant] at mine taken
        split at mine
        · rename_i short
          by_cases own : r = s
          · subst own
            exact Or.inr (Or.inr ⟨path, short, mine⟩)
          · rw [if_pos short, ← touched.others r path own short] at taken
            exact (taken mine).elim
        · simp at mine
    | leaf r i path =>
        rw [occupant] at mine taken
        split at mine
        · rename_i length
          by_cases here : r = s ∧ changed (vpnOf (i :: path))
          · obtain ⟨rfl, here⟩ := here
            refine Or.inr (Or.inl ⟨_, here, ?_⟩)
            rw [space_vpnOf length]
            exact mine
          · rw [if_pos length, ← touched.entries r i path length here] at taken
            exact (taken mine).elim
        · simp at mine
    | object n => exact (taken mine).elim
    | hand => exact (taken mine).elim

theorem Alike.touched (alike : Alike m after roots) (s : Slot) : Touched m after roots s fun _ => False := by
  refine ⟨fun r i path length _ => alike r i path (by omega), fun r path table short held => ?_, fun r path _ short => ?_⟩
  · rw [alike.node r path (by omega), held]
  · exact alike.node r path (by omega)

/-- A page table that grows keeps its mappings and tables. -/
theorem Grow.touched (grow : Grow roots s m after) : Touched m after roots s fun _ => False := by
  cases grow with
  | same _ alike => exact alike.touched s
  | table up i page bound invalid free written =>
      refine ⟨fun r j path length _ => ?_, fun r path table short held => ?_, fun r path other short => ?_⟩
      · exact (Grow.table up i page bound invalid free written).unmoved r j path length
      · rw [written.node (by omega), held]
        rintro ⟨rfl, rfl⟩
        rw [node_cons, invalid] at held
        simp at held
      · exact written.node (by omega) fun same => other same.1

theorem Grows.touched (grows : Grows roots s m after) : Touched m after roots s fun _ => False := by
  induction grows with
  | refl => exact .refl m roots s _
  | tail _ grow ih => exact ih.trans grow.touched

/-- The write of a mapping moves no table. -/
theorem Rewritten.touched {i : Fin 512} {up : Path} {pte : Pte} (written : Rewritten m after roots s i up pte)
    (length : up.length = 2) : Touched m after roots s (· = vpnOf (i :: up)) := by
  refine ⟨fun r j path depth other => ?_, fun r path table short held => ?_, fun r path _ short => ?_⟩
  · apply written.other (by omega)
    rintro ⟨rfl, rfl, rfl⟩
    exact other ⟨rfl, rfl⟩
  · rw [written_tables written length r path short, held]
  · exact written_tables written length r path short

/-- A mapping changes one entry at most and adds tables to one page table. -/
theorem mapPage_touched {mapped : Bool} (forest : Forest m roots) (rooted : roots s = some root)
    (done : mapPage m root vpn page perm = .ok (mapped, after)) :
    Touched m after roots s fun v => mapped = true ∧ v = vpn := by
  rcases mapPage_grows forest rooted done with ⟨inside, ⟨_, grows⟩ | ⟨rfl, _, table, mid, grows, held, rfl⟩⟩
  · exact grows.touched.mono fun _ none => none.elim
  · have written := rewritten_leaf (i := px 0 vpn) { valid := true, perm, page } (grows.forest forest).apart rfl held
    apply (grows.touched.mono fun _ none => none.elim).trans ((written.touched rfl).mono fun v same => ?_)
    exact ⟨rfl, same.trans (vpnOf_path inside)⟩

/-- One round of `uvmunmap` with `do_free` clears one entry and frees its page. -/
theorem unmapRange_round {npages : Nat} (rooted : h.roots s = some root) (sound : Sound l m h)
    (done : unmapRange l root true (npages + 1) vpn m = .ok after) :
    vpn < maxVpn ∧ ∃ mid, unmapRange l root true npages (vpn + 1) mid = .ok after ∧ Sound l mid h ∧
      Touched m mid h.roots s (· = vpn) ∧ (space mid (h.roots s) vpn).valid = false ∧
      ∀ page, page ∈ mid.free ↔ page ∈ m.free ∨ userPage (space m (h.roots s) vpn) = some page := by
  obtain ⟨inside, mid, rest, round⟩ := unmapRange_succ done
  refine ⟨inside, mid, rest, ?_⟩
  have place : vpnOf (px 0 vpn :: tablePath vpn) = vpn := vpnOf_path inside
  rcases round with ⟨absent, rfl⟩ | ⟨table, place, ⟨valid, _, freed, freeing, rfl⟩ | ⟨keeps, rfl⟩⟩
  · rw [← rooted] at absent
    have nothing := space_absent absent
    refine ⟨sound, .refl mid h.roots s _, by rw [nothing]; rfl, fun page => ?_⟩
    rw [nothing]
    simp [userPage, zeroPte]
  · rw [← rooted] at place
    obtain ⟨kept, written⟩ := sound.unmap rfl place valid freeing
    have user : (m.entry table (px 0 vpn)).perm.u = true := by
      have entry := pteAt_held place (px 0 vpn)
      have managed := (kfree_ok freeing).1
      rw [← entry] at valid managed ⊢
      exact sound.user_of_managed rfl valid managed
    refine ⟨kept, (written.touched rfl).mono fun v same => by omega, by rw [(written.remapped inside).2]; rfl, fun page => ?_⟩
    have free : (freed.setEntry table (px 0 vpn) zeroPte).free = freed.free := rfl
    rw [free, (kfree_ok freeing).2.1, List.mem_cons, space_held place, userPage, valid, user]
    simp only [Bool.and_self, if_true, Option.some.injEq]
    rw [or_comm, eq_comm]
  · rw [← rooted] at place
    have invalid := keeps.resolve_right (by simp)
    obtain ⟨kept, written⟩ := sound.wipe rfl place (userPage_invalid invalid)
    refine ⟨kept, (written.touched rfl).mono fun v same => by omega, by rw [(written.remapped inside).2]; rfl, fun page => ?_⟩
    have free : (m.setEntry table (px 0 vpn) zeroPte).free = m.free := rfl
    rw [free, space_held place, userPage_invalid invalid]
    simp

/-- A call of `uvmunmap` that returns has named pages below `MAXVA` alone. -/
theorem unmapRange_inside {doFree : Bool} (npages : Nat) (some : 0 < npages)
    (done : unmapRange l root doFree npages vpn m = .ok after) : vpn + npages ≤ maxVpn := by
  induction npages generalizing vpn m with
  | zero => omega
  | succ npages ih =>
      obtain ⟨inside, mid, rest, _⟩ := unmapRange_succ done
      cases npages with
      | zero => omega
      | succ npages =>
          have later := ih (by omega) rest
          omega

/-- `uvmunmap` with `do_free` changes entries of the range alone. -/
theorem unmapRange_touched (rooted : h.roots s = some root) (npages : Nat) (sound : Sound l m h)
    (done : unmapRange l root true npages vpn m = .ok after) :
    Touched m after h.roots s fun v => vpn ≤ v ∧ v < vpn + npages := by
  induction npages generalizing vpn m with
  | zero =>
      simp only [unmapRange, Except.ok.injEq] at done
      subst done
      exact .refl m h.roots s _
  | succ npages ih =>
      obtain ⟨_, mid, rest, kept, touched, _⟩ := unmapRange_round rooted sound done
      apply (touched.mono _).trans ((ih kept rest).mono _)
      · intro v here
        omega
      · intro v here
        omega

/-- Nothing is mapped where `uvmunmap` with `do_free` has been. -/
theorem unmapRange_invalid (rooted : h.roots s = some root) (npages : Nat) (sound : Sound l m h)
    (done : unmapRange l root true npages vpn m = .ok after) {v : Nat} (low : vpn ≤ v) (high : v < vpn + npages) :
    (space after (h.roots s) v).valid = false := by
  induction npages generalizing vpn m with
  | zero => omega
  | succ npages ih =>
      obtain ⟨inside, mid, rest, kept, _, cleared, _⟩ := unmapRange_round rooted sound done
      by_cases here : v = vpn
      · subst here
        rw [(unmapRange_frees rooted npages kept rest).remapped s v inside fun both => by omega]
        exact cleared
      · exact ih kept rest (by omega) (by omega)

/-- The pages that `uvmunmap` with `do_free` frees are those of the user in the range. -/
theorem unmapRange_free (rooted : h.roots s = some root) (npages : Nat) (sound : Sound l m h)
    (done : unmapRange l root true npages vpn m = .ok after) (page : Page) :
    page ∈ after.free ↔ page ∈ m.free ∨
      ∃ v, vpn ≤ v ∧ v < vpn + npages ∧ userPage (space m (h.roots s) v) = some page := by
  induction npages generalizing vpn m with
  | zero =>
      simp only [unmapRange, Except.ok.injEq] at done
      subst done
      constructor
      · exact Or.inl
      · rintro (free | ⟨v, low, high, _⟩)
        · exact free
        · omega
  | succ npages ih =>
      obtain ⟨inside, mid, rest, kept, touched, _, given⟩ := unmapRange_round rooted sound done
      have same (v : Nat) (limit : v < maxVpn) (other : v ≠ vpn) :
          space mid (h.roots s) v = space m (h.roots s) v := touched.space s limit fun both => other both.2
      have bound (known : Nat) (some : 0 < npages) (high : known < vpn + 1 + npages) : known < maxVpn := by
        have last := unmapRange_inside npages some rest
        omega
      rw [ih kept rest, given]
      constructor
      · rintro ((free | mine) | ⟨v, low, high, mine⟩)
        · exact Or.inl free
        · exact Or.inr ⟨vpn, Nat.le_refl vpn, by omega, mine⟩
        · rw [same v (bound v (by omega) high) (by omega)] at mine
          exact Or.inr ⟨v, by omega, by omega, mine⟩
      · rintro (free | ⟨v, low, high, mine⟩)
        · exact Or.inl (Or.inl free)
        · by_cases here : v = vpn
          · subst here
            exact Or.inl (Or.inr mine)
          · rw [← same v (bound v (by omega) (by omega)) here] at mine
            exact Or.inr ⟨v, by omega, by omega, mine⟩

/-- `uvmunmap` without `do_free` clears one mapping of the kernel and frees nothing. -/
theorem unmapPage_touched (rooted : h.roots s = some root) (sound : Sound l m h)
    (system : userPage (space m (h.roots s) vpn) = none) (done : unmapRange l root false 1 vpn m = .ok after) :
    Sound l after h ∧ Touched m after h.roots s (· = vpn) ∧ after.free = m.free ∧
      (space after (h.roots s) vpn).valid = false := by
  obtain ⟨inside, mid, rest, round⟩ := unmapRange_succ done
  simp only [unmapRange, Except.ok.injEq] at rest
  subst rest
  have place : vpnOf (px 0 vpn :: tablePath vpn) = vpn := vpnOf_path inside
  rcases round with ⟨absent, rfl⟩ | ⟨table, held, ⟨_, impossible, _⟩ | ⟨_, rfl⟩⟩
  · rw [← rooted] at absent
    exact ⟨sound, .refl mid h.roots s _, rfl, by rw [space_absent absent]; rfl⟩
  · simp at impossible
  · rw [← rooted] at held
    rw [space_held held] at system
    obtain ⟨kept, written⟩ := sound.wipe rfl held system
    exact ⟨kept, (written.touched rfl).mono fun v same => by omega, rfl, by rw [(written.remapped inside).2]; rfl⟩

/-- A new page table maps the trampoline alone. -/
theorem uvmcreate_blank (sound : Sound l m h) (vacant : h.roots s = none) (done : uvmcreate l m = .ok (some root, after))
    {v : Nat} (inside : v < maxVpn) (other : v ≠ trampolineVpn) : (space after (some root) v).valid = false := by
  unfold uvmcreate at done
  split at done
  · simp at done
  · rename_i page mid alloc
    obtain ⟨⟨mapped, last⟩, mapping, rest⟩ := bind_ok.mp done
    cases mapped with
    | false => simp at rest
    | true =>
        simp only [if_true, pure, Except.pure, Except.ok.injEq, Prod.mk.injEq, Option.some.injEq] at rest
        obtain ⟨rfl, rfl⟩ := rest
        obtain ⟨planted, _⟩ := plant_sound sound vacant alloc
        have own : (h.setRoot s (some page)).roots s = some page := Function.update_self ..
        have same := (mapPage_touched planted.forest own mapping).space s inside fun both => other both.2.2
        rw [own] at same
        rw [same, space, pteAt_clear]
        rfl

end BtbuOs.Vm
