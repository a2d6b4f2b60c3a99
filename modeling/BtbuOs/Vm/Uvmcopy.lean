import BtbuOs.Vm.Munmap

namespace BtbuOs.Vm

open Machine Partition
open Sched (Slot)

/-- The loop of `uvmcopy` with the bytes of the pages. -/
def uvmcopyBytes (l : Layout) (old : Page) (new : Option Page) : Nat → Nat → Memory → Bytes →
    Except String (Attempt × Memory × Bytes)
  | 0, _, m, b => .ok (.done, m, b)
  | npages + 1, vpn, m, b => do
      let (table, _) ← walk m old vpn false
      match table with
      | none => uvmcopyBytes l old new npages (vpn + 1) m b
      | some table =>
          let pte := m.entry table (px 0 vpn)
          if !pte.valid then uvmcopyBytes l old new npages (vpn + 1) m b
          else
            match kalloc m, new with
            | (none, m), none => return (if vpn = 0 then .failed else .faulted, m, b)
            | (none, m), some root => do
                let (m, b) ← unmapRangeBytes l root vpn 0 m b
                return (.failed, m, b)
            | (some page, m), none => return (.faulted, m, (b.memset page 5).memmove page pte.page)
            | (some page, m), some root => do
                let b := (b.memset page 5).memmove page pte.page
                let (mapped, m) ← mapPage m root vpn page pte.perm
                if mapped then uvmcopyBytes l old new npages (vpn + 1) m b
                else
                  let b := kfreeBytes m b page
                  let m ← kfree l m page
                  let (m, b) ← unmapRangeBytes l root vpn 0 m b
                  return (.failed, m, b)

variable {l : Layout} {m mid after : Memory} {b c d : Bytes} {h : Holding} {s r : Slot} {root old page : Page} {vpn : Nat}
  {near far pages : Nat → Prop}

/-- The loop without the bytes is the one of the kernel. -/
theorem uvmcopyBytes_forget (l : Layout) (old : Page) (new : Option Page) (npages vpn : Nat) (m : Memory) (b : Bytes) :
    (uvmcopyBytes l old new npages vpn m b).map (fun result => (result.1, result.2.1)) =
      uvmcopy l old new npages vpn m := by
  induction npages generalizing vpn m b with
  | zero => rfl
  | succ npages ih =>
      rw [uvmcopyBytes, uvmcopy]
      cases walk m old vpn false with
      | error message => rfl
      | ok result =>
          obtain ⟨found, same⟩ := result
          cases found with
          | none => exact ih (vpn + 1) m b
          | some table =>
              simp only [bind, Except.bind]
              split
              · exact ih (vpn + 1) m b
              · obtain ⟨⟨taken, mid⟩, alloc⟩ : ∃ result, kalloc m = result := ⟨_, rfl⟩
                rw [alloc]
                cases taken with
                | none =>
                    cases new with
                    | none => rfl
                    | some root =>
                        simp only
                        rw [← unmapRangeBytes_forget l root vpn 0 mid b]
                        cases unmapRangeBytes l root vpn 0 mid b with
                        | error message => rfl
                        | ok result => rfl
                | some page =>
                    cases new with
                    | none => rfl
                    | some root =>
                        simp only
                        cases mapPage mid root vpn page (m.entry table (px 0 vpn)).perm with
                        | error message => rfl
                        | ok result =>
                            obtain ⟨mapped, next⟩ := result
                            cases mapped with
                            | true => exact ih (vpn + 1) next _
                            | false =>
                                simp only [Bool.false_eq_true, if_false]
                                cases kfree l next page with
                                | error message => rfl
                                | ok freed =>
                                    simp only
                                    rw [← unmapRangeBytes_forget l root vpn 0 freed
                                      (kfreeBytes next ((b.memset page 5).memmove page (m.entry table (px 0 vpn)).page) page)]
                                    cases unmapRangeBytes l root vpn 0 freed _ with
                                    | error message => rfl
                                    | ok result => rfl

/-- Some pages of the user of one process are mapped at the same numbers of another one, with the same flags, to pages from
the free list that hold the same bytes, and nothing else changes but tables of the new process. -/
structure Copies (l : Layout) (m after : Memory) (b c : Bytes) (h : Holding) (s r : Slot) (pages : Nat → Prop) : Prop
    extends Adds l m after h s (fun v => (space m (h.roots r) v).perm) pages where
  source : ∀ v, pages v → (space m (h.roots r) v).valid = true ∧ (space m (h.roots r) v).perm.u = true
  data : ∀ v copy, pages v → userPage (space after (h.roots s) v) = some copy → c copy = b (space m (h.roots r) v).page
  bytes : ∀ page, page ∉ m.free → c page = b page

namespace Copies

theorem nothing (sound : Sound l m h) (b : Bytes) : Copies l m m b b h s r fun _ => False :=
  ⟨.nothing sound (.refl m h.roots s _) fun _ listed => listed, fun _ none => none.elim, fun _ _ none => none.elim,
    fun _ _ => rfl⟩

theorem congr (copies : Copies l m after b c h s r near) (same : ∀ v, pages v ↔ near v) :
    Copies l m after b c h s r pages := by
  obtain rfl : pages = near := funext fun v => propext (same v)
  exact copies

/-- The source of a copy stays in place. -/
theorem origin (copies : Copies l m after b c h s r near) (other : r ≠ s) {v : Nat} (inside : v < maxVpn) :
    space after (h.roots r) v = space m (h.roots r) v :=
  copies.touched.space r inside fun both => other both.1

theorem trans (before : Sound l m h) (other : r ≠ s) (first : Copies l m mid b c h s r near)
    (second : Copies l mid after c d h s r far) : Copies l m after b d h s r fun v => near v ∨ far v := by
  have origin {v : Nat} (late : far v) : space mid (h.roots r) v = space m (h.roots r) v :=
    first.origin other (second.inside v late)
  have flags : Adds l mid after h s (fun v => (space m (h.roots r) v).perm) far :=
    second.toAdds.flags fun v late => by rw [origin late]
  have users {v : Nat} (late : far v) :
      (space m (h.roots r) v).valid = true ∧ (space m (h.roots r) v).perm.u = true := by
    rw [← origin late]
    exact second.source v late
  refine ⟨first.toAdds.trans flags, fun v here => ?_, fun v copy here mine => ?_, fun page taken => ?_⟩
  · rcases here with early | late
    · exact first.source v early
    · exact users late
  · rcases here with early | late
    · rw [second.space (first.inside v early) (first.apart flags early)] at mine
      rw [second.bytes copy (first.sound.user_taken mine)]
      exact first.data v copy early mine
    · obtain ⟨valid, user⟩ := users late
      have mineBefore : userPage (space m (h.roots r) v) = some (space m (h.roots r) v).page := by
        simp [userPage, valid, user]
      rw [second.data v copy late mine, origin late]
      exact first.bytes _ (before.user_taken mineBefore)
  · rw [second.bytes page fun listed => taken (first.fewer page listed), first.bytes page taken]

/-- One page of the user is copied. -/
theorem single (before : Sound l m h) (rooted : h.roots s = some root) (empty : h.hand = none)
    (valid : (space m (h.roots r) vpn).valid = true) (user : (space m (h.roots r) vpn).perm.u = true)
    (leaf : (space m (h.roots r) vpn).perm.leaf = true) (alloc : kalloc m = (some page, mid))
    (done : mapPage mid root vpn page (space m (h.roots r) vpn).perm = .ok (true, after)) :
    Copies l m after b ((b.memset page 5).memmove page (space m (h.roots r) vpn).page) h s r (· = vpn) := by
  have adds := Adds.single (fun v => (space m (h.roots r) v).perm) before rooted empty user leaf alloc done
  have entry := (alloc_mapped before empty rooted alloc user leaf done).entry
  have listed : page ∈ m.free := by
    rw [(kalloc_some alloc).1]
    exact List.mem_cons_self
  have mine : userPage (space m (h.roots r) vpn) = some (space m (h.roots r) vpn).page := by
    simp [userPage, valid, user]
  have different : (space m (h.roots r) vpn).page ≠ page := fun same => before.user_taken mine (same ▸ listed)
  refine ⟨adds, ?_, ?_, fun known taken => ?_⟩
  · rintro v rfl
    exact ⟨valid, user⟩
  · rintro v copy rfl found
    rw [entry] at found
    obtain rfl : page = copy := by simpa [userPage, user] using found
    rw [Bytes.memmove_self, Bytes.memset_other _ _ _ different]
  · have away : known ≠ page := fun same => taken (same ▸ listed)
    rw [Bytes.memmove_other _ _ _ away, Bytes.memset_other _ _ _ away]

/-- The loop of `uvmcopy` that completes has copied all pages of the user in its range. -/
theorem loop (source : h.roots r = some old) (rooted : h.roots s = some root) (other : r ≠ s) (empty : h.hand = none)
    (npages : Nat) (low : vpn + npages ≤ systemVpn) (before : Sound l m h)
    (done : uvmcopyBytes l old (some root) npages vpn m b = .ok (.done, after, c)) :
    Copies l m after b c h s r fun v => vpn ≤ v ∧ v < vpn + npages ∧ (space m (h.roots r) v).valid = true := by
  induction npages generalizing vpn m b with
  | zero =>
      simp only [uvmcopyBytes, Except.ok.injEq, Prod.mk.injEq, true_and] at done
      obtain ⟨rfl, rfl⟩ := done
      apply (nothing before b).congr
      exact fun v => ⟨fun here => by omega, fun none => none.elim⟩
  | succ npages ih =>
      rw [uvmcopyBytes] at done
      obtain ⟨⟨found, same⟩, walked, rest⟩ := bind_ok.mp done
      have inside := walk_inside walked
      rw [walk_peek m old inside, Except.ok.injEq, Prod.mk.injEq, ← source] at walked
      obtain ⟨place, -⟩ := walked
      have skip (invalid : (space m (h.roots r) vpn).valid = false)
          (rest : uvmcopyBytes l old (some root) npages (vpn + 1) m b = .ok (.done, after, c)) :
          Copies l m after b c h s r fun v => vpn ≤ v ∧ v < vpn + (npages + 1) ∧ (space m (h.roots r) v).valid = true := by
        apply (ih (by omega) before rest).congr
        intro v
        constructor
        · rintro ⟨least, most, valid⟩
          have later : v ≠ vpn := by
            rintro rfl
            rw [invalid] at valid
            simp at valid
          exact ⟨by omega, by omega, valid⟩
        · rintro ⟨least, most, valid⟩
          exact ⟨by omega, by omega, valid⟩
      cases found with
      | none => exact skip (by rw [space_absent place]; rfl) rest
      | some table =>
          have entry := space_held place
          simp only at rest
          split at rest
          · rename_i invalid
            rw [Bool.not_eq_true'] at invalid
            exact skip (by rw [entry]; exact invalid) rest
          · rename_i valid
            rw [Bool.not_eq_true', Bool.not_eq_false, ← entry] at valid
            have user := before.user_below inside (by omega) valid
            have leaf : (space m (h.roots r) vpn).perm.leaf = true := by
              have fits := before.leaves r (px 0 vpn) (tablePath vpn) rfl
              rw [vpnOf_path inside, ← space] at fits
              exact (fits valid).1
            rw [← entry] at rest
            split at rest
            · rename_i impossible
              simp at impossible
            · obtain ⟨_, _, result⟩ := bind_ok.mp rest
              simp [pure, Except.pure] at result
            · rename_i impossible
              simp at impossible
            · rename_i page mid target alloc same
              simp only [Option.some.injEq] at same
              subst same
              obtain ⟨⟨mapped, next⟩, mapping, tail⟩ := bind_ok.mp rest
              cases mapped with
              | false =>
                  obtain ⟨_, _, more⟩ := bind_ok.mp tail
                  obtain ⟨_, _, result⟩ := bind_ok.mp more
                  simp [pure, Except.pure] at result
              | true =>
                  have first := Copies.single (b := b) before rooted empty valid user leaf alloc mapping
                  apply (first.trans before other (ih (by omega) first.sound tail)).congr
                  intro v
                  constructor
                  · rintro ⟨least, most, present⟩
                    by_cases here : v = vpn
                    · exact Or.inl here
                    · refine Or.inr ⟨by omega, by omega, ?_⟩
                      rw [first.origin other (by simp only [systemVpn] at low; omega)]
                      exact present
                  · rintro (rfl | ⟨least, most, present⟩)
                    · exact ⟨Nat.le_refl v, by omega, valid⟩
                    · rw [first.origin other (by simp only [systemVpn] at low; omega)] at present
                      exact ⟨by omega, by omega, present⟩

end Copies

end BtbuOs.Vm
