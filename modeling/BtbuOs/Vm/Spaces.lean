import BtbuOs.Vm.Release

namespace BtbuOs.Vm

open Machine Partition
open Sync (Tid)
open Sched (Slot)

/-- The mapping of the trampoline page. -/
def trampolinePte (l : Layout) : Pte :=
  { valid := true, perm := { r := true, w := false, x := true, u := false }, page := l.trampoline }

/-- The mapping of the trap frame of a thread. -/
def trapframePte (l : Layout) (s : Slot) (t : Tid) : Pte :=
  { valid := true, perm := { r := true, w := true, x := false, u := false }, page := l.trapframe s t }

variable {l : Layout} {m mid after : Memory} {h next : Holding} {s : Slot} {root page : Page} {vpn : Nat} {perm : Perm}

theorem Holding.hand_eta (empty : h.hand = none) (hand : Option Page) :
    ({ ({ h with hand } : Holding) with hand := none } : Holding) = h := by
  rw [← empty]

/-- A page that is allocated and mapped goes to the user. -/
theorem alloc_mapped (sound : Sound l m h) (empty : h.hand = none) (rooted : h.roots s = some root)
    (alloc : kalloc m = (some page, mid)) (user : perm.u = true) (leaf : perm.leaf = true)
    (done : mapPage mid root vpn page perm = .ok (true, after)) :
    Mapped l m after h h s vpn { valid := true, perm, page } := by
  obtain ⟨held, alike⟩ := sound.alloc empty alloc
  have rootedHeld : ({ h with hand := some page } : Holding).roots s = some root := rooted
  obtain ⟨changed, inside, fresh, entry⟩ := mapPage_user held rootedHeld rfl user leaf done
  rw [Holding.hand_eta empty] at changed
  have remapped : Remapped m mid h.roots s (· = vpn) := fun r v _ _ => alike.space r v
  refine ⟨⟨changed.sound, remapped.trans changed.remapped, alike.stays.trans changed.stays⟩, inside, ?_, entry⟩
  rw [← alike.space s vpn]
  exact fresh

/-- A page that is allocated and not mapped is freed again. -/
theorem alloc_refused {refused : Memory} (sound : Sound l m h) (empty : h.hand = none) (rooted : h.roots s = some root)
    (alloc : kalloc m = (some page, mid)) (done : mapPage mid root vpn page perm = .ok (false, refused))
    (given : kfree l refused page = .ok after) : Sound l after h ∧ Unmoved m after h.roots := by
  obtain ⟨held, alike⟩ := sound.alloc empty alloc
  have rootedHeld : ({ h with hand := some page } : Holding).roots s = some root := rooted
  obtain ⟨kept, unmoved⟩ := mapPage_refused held rootedHeld done
  obtain ⟨back, alikeAfter⟩ := kept.free rfl given
  rw [Holding.hand_eta empty] at back
  refine ⟨back, fun r i path length => ?_⟩
  have last : pteAt after (h.roots r) i path = pteAt refused (h.roots r) i path := alikeAfter r i path (by omega)
  rw [last, unmoved r i path length, alike r i path (by omega)]

/-- When `kalloc` fails, nothing changes. -/
theorem alloc_failed (sound : Sound l m h) (alloc : kalloc m = (none, after)) : Sound l after h ∧ Alike m after h.roots := by
  obtain ⟨free, entries⟩ := kalloc_none alloc
  have alike := alike_entry entries h.roots
  exact ⟨sound.congr free alike, alike⟩

/-- The program and its arguments go to fresh pages. -/
theorem loadPages_sound (rooted : h.roots s = some root) (empty : h.hand = none) (npages : Nat) (sound : Sound l m h)
    (done : loadPages root npages vpn m = .ok after) : Sound l after h ∧ Stays m after h.roots := by
  induction npages generalizing vpn m with
  | zero =>
      simp only [loadPages, Except.ok.injEq] at done
      subst done
      exact ⟨sound, fun _ _ _ _ _ => rfl⟩
  | succ npages ih =>
      rw [loadPages] at done
      split at done
      · simp at done
      · rename_i page mid alloc
        obtain ⟨⟨mapped, first⟩, mapping, rest⟩ := bind_ok.mp done
        cases mapped with
        | false => simp at rest
        | true =>
            have placed := alloc_mapped sound empty rooted alloc (by rfl) (by rfl) mapping
            obtain ⟨last, stays⟩ := ih placed.changed.sound rest
            exact ⟨last, placed.changed.stays.trans stays⟩

/-- The mapping loop of `sys_mmap` stops at the first failure and leaves the invariant intact. -/
theorem mmapLoop_sound (rooted : h.roots s = some root) (empty : h.hand = none) (user : perm.u = true)
    (leaf : perm.leaf = true) (npages : Nat) {value : Int} (sound : Sound l m h)
    (done : mmapLoop l root perm npages vpn m = .ok (value, after)) : Sound l after h ∧ Stays m after h.roots := by
  induction npages generalizing vpn m with
  | zero =>
      simp only [mmapLoop, Except.ok.injEq, Prod.mk.injEq] at done
      obtain ⟨_, rfl⟩ := done
      exact ⟨sound, fun _ _ _ _ _ => rfl⟩
  | succ npages ih =>
      rw [mmapLoop] at done
      split at done
      · rename_i mid alloc
        simp only [Except.ok.injEq, Prod.mk.injEq] at done
        obtain ⟨_, rfl⟩ := done
        obtain ⟨kept, alike⟩ := alloc_failed sound alloc
        exact ⟨kept, alike.stays⟩
      · rename_i page mid alloc
        obtain ⟨⟨mapped, first⟩, mapping, rest⟩ := bind_ok.mp done
        cases mapped with
        | false =>
            obtain ⟨freed, given, result⟩ := bind_ok.mp rest
            simp only [pure, Except.pure, Except.ok.injEq, Prod.mk.injEq] at result
            obtain ⟨_, rfl⟩ := result
            obtain ⟨kept, unmoved⟩ := alloc_refused sound empty rooted alloc mapping given
            exact ⟨kept, unmoved.stays⟩
        | true =>
            have placed := alloc_mapped sound empty rooted alloc user leaf mapping
            obtain ⟨last, stays⟩ := ih placed.changed.sound rest
            exact ⟨last, placed.changed.stays.trans stays⟩

/-- A copy that is completed maps fresh pages; only mappings for the user lie below `systemVpn`. -/
theorem uvmcopy_sound {old : Page} {r : Slot} (source : h.roots r = some old) (rooted : h.roots s = some root)
    (empty : h.hand = none) (npages : Nat) (low : vpn + npages ≤ systemVpn) (sound : Sound l m h)
    (done : uvmcopy l old (some root) npages vpn m = .ok (.done, after)) : Sound l after h ∧ Stays m after h.roots := by
  induction npages generalizing vpn m with
  | zero =>
      simp only [uvmcopy, Except.ok.injEq, Prod.mk.injEq, true_and] at done
      subst done
      exact ⟨sound, fun _ _ _ _ _ => rfl⟩
  | succ npages ih =>
      rw [uvmcopy] at done
      obtain ⟨⟨found, same⟩, walked, rest⟩ := bind_ok.mp done
      have inside := walk_inside walked
      rw [walk_peek m old inside, Except.ok.injEq, Prod.mk.injEq, ← source] at walked
      obtain ⟨place, -⟩ := walked
      cases found with
      | none => exact ih (by omega) sound rest
      | some table =>
          simp only at rest
          split at rest
          · exact ih (by omega) sound rest
          · rename_i valid
            rw [Bool.not_eq_true', Bool.not_eq_false] at valid
            have entry := space_held place
            have fits := sound.leaves r (px 0 vpn) (tablePath vpn) rfl
            rw [vpnOf_path inside, ← space, entry] at fits
            obtain ⟨leaf, system⟩ := fits valid
            have user : (m.entry table (px 0 vpn)).perm.u = true := by
              by_contra kernel
              have high := (system (by simpa using kernel)).2
              omega
            split at rest
            · rename_i impossible
              simp at impossible
            · obtain ⟨_, _, result⟩ := bind_ok.mp rest
              simp [pure, Except.pure] at result
            · rename_i impossible
              simp at impossible
            · rename_i page mid target alloc same
              simp only [Option.some.injEq] at same
              subst same
              obtain ⟨⟨mapped, first⟩, mapping, tail⟩ := bind_ok.mp rest
              cases mapped with
              | false =>
                  obtain ⟨_, _, more⟩ := bind_ok.mp tail
                  obtain ⟨_, _, result⟩ := bind_ok.mp more
                  simp [pure, Except.pure] at result
              | true =>
                  have placed := alloc_mapped sound empty rooted alloc user leaf mapping
                  obtain ⟨last, stays⟩ := ih (by omega) placed.changed.sound tail
                  exact ⟨last, placed.changed.stays.trans stays⟩

/-- An empty root is a page table that shows nothing. -/
theorem plant_sound (sound : Sound l m h) (vacant : h.roots s = none) (alloc : kalloc m = (some page, mid)) :
    Sound l (mid.clear page) (h.setRoot s (some page)) ∧ Alike m (mid.clear page) h.roots := by
  obtain ⟨alike, unheld⟩ := sound.forest.kalloc alloc
  have cleared : Alike m (mid.clear page) h.roots := alike.trans (alike_fill _ unheld)
  have own : (h.setRoot s (some page)).roots s = some page := Function.update_self ..
  have others (r : Slot) (other : r ≠ s) : (h.setRoot s (some page)).roots r = h.roots r := Function.update_of_ne other ..
  have owner : occupant (mid.clear page) (h.setRoot s (some page)) =
      Function.update (occupant m h) (.table s []) (some page) := by
    funext role
    cases role with
    | table r path =>
        by_cases mine : Role.table r path = .table s []
        · obtain ⟨rfl, rfl⟩ := Role.table.inj mine
          rw [Function.update_self, occupant_table (by simp), own]
          rfl
        · rw [Function.update_of_ne mine, occupant, occupant]
          split
          · rename_i short
            by_cases same : r = s
            · subst same
              have strict : path ≠ [] := fun top => mine (by rw [top])
              rw [own, vacant, node_none, node_clear mid page strict]
            · rw [others r same, cleared.node r path (by omega)]
          · rfl
    | leaf r i path =>
        rw [Function.update_of_ne (by simp), occupant, occupant]
        split
        · rename_i length
          by_cases same : r = s
          · subst same
            rw [own, vacant, pteAt_clear, pteAt_none]
          · rw [others r same, cleared r i path (by omega)]
        · rfl
    | object n =>
        rw [Function.update_of_ne (by simp)]
        rfl
    | hand =>
        rw [Function.update_of_ne (by simp)]
        rfl
  refine ⟨⟨?_, fun r i path short valid => ?_, fun r i path length => ?_⟩, cleared⟩
  · have owned := sound.owned
    rw [(kalloc_some alloc).1] at owned
    rw [owner]
    apply owned.take
    rw [occupant_table (by simp), vacant]
    rfl
  · by_cases same : r = s
    · rw [same, own, pteAt_clear] at valid
      simp [zeroPte] at valid
    · rw [others r same, cleared r i path (by omega)] at valid ⊢
      exact sound.dirs r i path short valid
  · by_cases same : r = s
    · rw [same, own, pteAt_clear]
      exact fits_zero l _
    · rw [others r same, cleared r i path (by omega)]
      exact sound.leaves r i path length

/-- A new page table maps the trampoline. -/
theorem uvmcreate_sound {created : Option Page} (sound : Sound l m h) (vacant : h.roots s = none)
    (done : uvmcreate l m = .ok (created, after)) :
    Sound l after (h.setRoot s created) ∧ Stays m after h.roots ∧
      ∀ root, created = some root → space after (some root) trampolineVpn = trampolinePte l := by
  unfold uvmcreate at done
  split at done
  · rename_i mid alloc
    simp only [Except.ok.injEq, Prod.mk.injEq] at done
    obtain ⟨rfl, rfl⟩ := done
    obtain ⟨kept, alike⟩ := alloc_failed sound alloc
    have same : h.setRoot s none = h := by
      rw [Holding.setRoot, ← vacant, Function.update_eq_self]
    rw [same]
    exact ⟨kept, alike.stays, fun root impossible => by simp at impossible⟩
  · rename_i root mid alloc
    obtain ⟨⟨mapped, last⟩, mapping, rest⟩ := bind_ok.mp done
    cases mapped with
    | false => simp at rest
    | true =>
        simp only [if_true, pure, Except.pure, Except.ok.injEq, Prod.mk.injEq] at rest
        obtain ⟨rfl, rfl⟩ := rest
        obtain ⟨planted, alike⟩ := plant_sound sound vacant alloc
        have own : (h.setRoot s (some root)).roots s = some root := Function.update_self ..
        have unmanaged : ¬Managed l l.trampoline := fun managed => absurd l.trampoline_lt (Nat.not_lt.mpr managed.1)
        have placed := mapPage_system planted own rfl rfl unmanaged (by decide) mapping
        refine ⟨placed.changed.sound, fun r vpn inside valid system => ?_, fun page same => ?_⟩
        · by_cases mine : r = s
          · rw [mine, vacant, space, pteAt_none] at valid
            simp [zeroPte] at valid
          · have other : (h.setRoot s (some root)).roots r = h.roots r := Function.update_of_ne mine ..
            have kept := placed.changed.remapped r vpn inside fun both => mine both.1
            rw [other] at kept
            rw [kept, alike.space r vpn]
        · rw [← same, ← own]
          exact placed.entry

/-- A page table is freed with everything that it maps. -/
theorem freepagetable_sound {maxPage : Nat} (sound : Sound l m h) (rooted : h.roots s = some root)
    (system : userPage (space m (h.roots s) trampolineVpn) = none) (done : freepagetable l m root maxPage = .ok after) :
    Sound l after (h.setRoot s none) ∧ ∀ r, r ≠ s → ∀ vpn, vpn < maxVpn → space after (h.roots r) vpn = space m (h.roots r) vpn := by
  obtain ⟨first, unmapping, rest⟩ := bind_ok.mp done
  obtain ⟨kept, remapped⟩ := unmapRange_keeps rooted sound system unmapping
  rw [uvmfree] at rest
  have cleared : ∃ second, Changed l first second h h s (fun v => 0 ≤ v ∧ v < 0 + maxPage) ∧
      freewalk l 3 root second = .ok after := by
    split at rest
    · obtain ⟨second, clearing, walking⟩ := bind_ok.mp rest
      exact ⟨second, unmapRange_frees rooted maxPage kept clearing, walking⟩
    · obtain ⟨second, same, walking⟩ := bind_ok.mp rest
      simp only [Except.ok.injEq] at same
      subst same
      exact ⟨_, .refl kept s _, walking⟩
  obtain ⟨second, cleared, walking⟩ := cleared
  obtain ⟨last, others⟩ := freewalk_root cleared.sound rooted walking
  refine ⟨last, fun r other vpn inside => ?_⟩
  rw [others r vpn other, cleared.remapped r vpn inside fun both => other both.1,
    remapped r vpn inside fun both => other both.1]

end BtbuOs.Vm
