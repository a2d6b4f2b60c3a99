import BtbuOs.Vm.Contents
import BtbuOs.Vm.UserCalls

namespace BtbuOs.Vm

open Machine Partition
open Sched (Slot)

variable {l : Layout} {m mid after : Memory} {h : Holding} {s : Slot} {root page : Page} {perm : Nat → Perm} {vpn : Nat}
  {near far pages : Nat → Prop}

/-- Some page numbers of a process that were not mapped are mapped to pages from the free list, and nothing else changes
but tables of the process. -/
structure Adds (l : Layout) (m after : Memory) (h : Holding) (s : Slot) (perm : Nat → Perm) (pages : Nat → Prop) : Prop where
  sound : Sound l after h
  inside : ∀ v, pages v → v < maxVpn
  vacant : ∀ v, pages v → (space m (h.roots s) v).valid = false
  fresh : ∀ v, pages v → ∃ page, space after (h.roots s) v = { valid := true, perm := perm v, page } ∧ page ∈ m.free
  touched : Touched m after h.roots s pages
  fewer : ∀ page, page ∈ after.free → page ∈ m.free

namespace Adds

/-- Nothing is mapped. -/
theorem nothing (sound : Sound l after h) (touched : Touched m after h.roots s fun _ => False)
    (fewer : ∀ page, page ∈ after.free → page ∈ m.free) : Adds l m after h s perm fun _ => False :=
  ⟨sound, fun _ none => none.elim, fun _ none => none.elim, fun _ none => none.elim, touched, fewer⟩

theorem space (adds : Adds l m after h s perm near) {v : Nat} (inside : v < maxVpn) (other : ¬near v) :
    Vm.space after (h.roots s) v = Vm.space m (h.roots s) v :=
  adds.touched.space s inside fun both => other both.2

/-- The page numbers of two steps lie apart. -/
theorem apart (first : Adds l m mid h s perm near) (second : Adds l mid after h s perm far) {v : Nat} (early : near v) :
    ¬far v := by
  intro late
  obtain ⟨page, entry, _⟩ := first.fresh v early
  have vacant := second.vacant v late
  rw [entry] at vacant
  simp at vacant

theorem trans (first : Adds l m mid h s perm near) (second : Adds l mid after h s perm far) :
    Adds l m after h s perm fun v => near v ∨ far v := by
  constructor
  · exact second.sound
  · intro v here
    exact here.elim (first.inside v) (second.inside v)
  · intro v here
    rcases here with early | late
    · exact first.vacant v early
    · rw [← first.space (second.inside v late) fun early => first.apart second early late]
      exact second.vacant v late
  · intro v here
    rcases here with early | late
    · obtain ⟨page, entry, listed⟩ := first.fresh v early
      refine ⟨page, ?_, listed⟩
      rw [second.space (first.inside v early) (first.apart second early), entry]
    · obtain ⟨page, entry, listed⟩ := second.fresh v late
      exact ⟨page, entry, first.fewer page listed⟩
  · exact first.touched.union second.touched
  · intro page listed
    exact first.fewer page (second.fewer page listed)

theorem congr (adds : Adds l m after h s perm near) (same : ∀ v, pages v ↔ near v) : Adds l m after h s perm pages := by
  obtain rfl : pages = near := funext fun v => propext (same v)
  exact adds

theorem flags {other : Nat → Perm} (adds : Adds l m after h s perm near) (same : ∀ v, near v → perm v = other v) :
    Adds l m after h s other near := by
  refine ⟨adds.sound, adds.inside, adds.vacant, fun v here => ?_, adds.touched, adds.fewer⟩
  rw [← same v here]
  exact adds.fresh v here

/-- A page that has been mapped is one of the user. -/
theorem user (adds : Adds l m after h s perm near) {v : Nat} (here : near v) (user : (perm v).u = true) :
    ∃ page, userPage (Vm.space after (h.roots s) v) = some page ∧ page ∈ m.free := by
  obtain ⟨page, entry, listed⟩ := adds.fresh v here
  exact ⟨page, by simp [entry, userPage, user], listed⟩

/-- One page is allocated and mapped. -/
theorem single (perm : Nat → Perm) (before : Sound l m h) (rooted : h.roots s = some root) (empty : h.hand = none)
    (user : (perm vpn).u = true) (leaf : (perm vpn).leaf = true) (alloc : kalloc m = (some page, mid))
    (done : mapPage mid root vpn page (perm vpn) = .ok (true, after)) : Adds l m after h s perm (· = vpn) := by
  have placed := alloc_mapped before empty rooted alloc user leaf done
  obtain ⟨held, alike⟩ := before.alloc empty alloc
  have mapping := mapPage_touched held.forest rooted done
  have free := (kalloc_some alloc).1
  constructor
  · exact placed.changed.sound
  · rintro v rfl
    exact placed.inside
  · rintro v rfl
    exact placed.fresh
  · rintro v rfl
    refine ⟨page, placed.entry, ?_⟩
    rw [free]
    exact List.mem_cons_self
  · exact ((alike.touched s).mono fun _ none => none.elim).trans (mapping.mono fun v same => same.2)
  · intro known still
    rw [free]
    exact List.mem_cons_of_mem page (mapPage_free held.forest rooted done known still)

/-- A page that cannot be mapped is freed again. -/
theorem refused {last : Memory} (before : Sound l m h) (rooted : h.roots s = some root) (empty : h.hand = none)
    {flags : Perm} (alloc : kalloc m = (some page, mid)) (done : mapPage mid root vpn page flags = .ok (false, after))
    (given : kfree l after page = .ok last) : Adds l m last h s perm fun _ => False := by
  obtain ⟨sound, _⟩ := alloc_refused before empty rooted alloc done given
  obtain ⟨held, alike⟩ := before.alloc empty alloc
  have mapping := mapPage_touched held.forest rooted done
  have free := (kalloc_some alloc).1
  obtain ⟨kept, _⟩ := mapPage_refused held rooted done
  have handed : occupant after { h with hand := some page } .hand = some page := rfl
  have alikeLast : Alike after last h.roots := alike_kfree given (kept.no_table handed fun r path => by simp)
  apply nothing sound
  · exact ((alike.touched s).trans (mapping.mono fun v none => by simp at none)).trans (alikeLast.touched s)
  · intro known still
    rw [(kfree_ok given).2.1, List.mem_cons] at still
    rcases still with rfl | later
    · rw [free]
      exact List.mem_cons_self
    · rw [free]
      exact List.mem_cons_of_mem page (mapPage_free held.forest rooted done known later)

/-- No page is left. -/
theorem denied (before : Sound l m h) (alloc : kalloc m = (none, after)) : Adds l m after h s perm fun _ => False := by
  obtain ⟨sound, alike⟩ := alloc_failed before alloc
  apply nothing sound (alike.touched s)
  intro page listed
  rwa [(kalloc_none alloc).1] at listed

end Adds

/-- The pages that are added hold what they are to hold, and no byte changes but those of pages from the free list. -/
structure Fills (l : Layout) (m after : Memory) (b c : Bytes) (h : Holding) (s : Slot) (perm : Nat → Perm)
    (holds : Nat → (Nat → Byte) → Prop) (pages : Nat → Prop) : Prop extends Adds l m after h s perm pages where
  data : ∀ v page, pages v → userPage (space after (h.roots s) v) = some page → holds v (c page)
  bytes : ∀ page, page ∉ m.free → c page = b page

namespace Fills

variable {b c d : Bytes} {holds : Nat → (Nat → Byte) → Prop}

/-- Nothing is mapped. -/
theorem nothing (adds : Adds l m after h s perm fun _ => False) (bytes : ∀ page, page ∉ m.free → c page = b page) :
    Fills l m after b c h s perm holds fun _ => False :=
  ⟨adds, fun _ _ none => none.elim, bytes⟩

theorem trans (first : Fills l m mid b c h s perm holds near) (second : Fills l mid after c d h s perm holds far) :
    Fills l m after b d h s perm holds fun v => near v ∨ far v := by
  refine ⟨first.toAdds.trans second.toAdds, fun v page here mine => ?_, fun page taken => ?_⟩
  · rcases here with early | late
    · rw [second.space (first.inside v early) (first.apart second.toAdds early)] at mine
      rw [second.bytes page (first.sound.user_taken mine)]
      exact first.data v page early mine
    · exact second.data v page late mine
  · rw [second.bytes page fun listed => taken (first.fewer page listed), first.bytes page taken]

theorem congr (fills : Fills l m after b c h s perm holds near) (same : ∀ v, pages v ↔ near v) :
    Fills l m after b c h s perm holds pages := by
  obtain rfl : pages = near := funext fun v => propext (same v)
  exact fills

/-- One page is allocated, filled and mapped. -/
theorem single (perm : Nat → Perm) (before : Sound l m h) (rooted : h.roots s = some root) (empty : h.hand = none)
    (user : (perm vpn).u = true) (leaf : (perm vpn).leaf = true) (alloc : kalloc m = (some page, mid))
    (done : mapPage mid root vpn page (perm vpn) = .ok (true, after)) (filled : holds vpn (c page))
    (other : ∀ known, known ≠ page → c known = b known) : Fills l m after b c h s perm holds (· = vpn) := by
  have adds := Adds.single perm before rooted empty user leaf alloc done
  have entry := (alloc_mapped before empty rooted alloc user leaf done).entry
  refine ⟨adds, ?_, fun known taken => ?_⟩
  · rintro v known rfl mine
    rw [entry] at mine
    obtain rfl : page = known := by simpa [userPage, user] using mine
    exact filled
  · apply other
    rintro rfl
    rw [(kalloc_some alloc).1] at taken
    exact taken List.mem_cons_self

end Fills

/-- The loop of `bin_loader` that returns has mapped all its pages. -/
theorem loadPages_adds (rooted : h.roots s = some root) (empty : h.hand = none) (npages : Nat) (before : Sound l m h)
    (done : loadPages root npages vpn m = .ok after) :
    Adds l m after h s (fun _ => { r := true, w := true, x := true, u := true }) fun v => vpn ≤ v ∧ v < vpn + npages := by
  induction npages generalizing vpn m with
  | zero =>
      simp only [loadPages, Except.ok.injEq] at done
      subst done
      apply (Adds.nothing before (.refl m h.roots s _) fun _ listed => listed).congr
      exact fun v => ⟨fun here => by omega, fun none => none.elim⟩
  | succ npages ih =>
      rw [loadPages] at done
      split at done
      · simp at done
      · rename_i page mid alloc
        obtain ⟨⟨mapped, next⟩, mapping, rest⟩ := bind_ok.mp done
        cases mapped with
        | false => simp at rest
        | true =>
            have first := Adds.single (fun _ => { r := true, w := true, x := true, u := true }) before rooted empty rfl rfl
              alloc mapping
            apply (first.trans (ih first.sound rest)).congr
            intro v
            omega

end BtbuOs.Vm
