import BtbuOs.Vm.Ownership

namespace BtbuOs.Vm

open Machine Partition
open Sched (Slot)

/-- The mappings for the kernel stay in place. -/
def Stays (m after : Memory) (roots : Slot → Option Page) : Prop :=
  ∀ r vpn, vpn < maxVpn → (space m (roots r) vpn).valid = true → (space m (roots r) vpn).perm.u = false →
    space after (roots r) vpn = space m (roots r) vpn

theorem Stays.trans {m mid after : Memory} {roots : Slot → Option Page} (first : Stays m mid roots)
    (second : Stays mid after roots) : Stays m after roots := by
  intro r vpn inside valid system
  have same := first r vpn inside valid system
  rw [← same] at valid system
  rw [second r vpn inside valid system, same]

theorem Unmoved.stays {m after : Memory} {roots : Slot → Option Page} (unmoved : Unmoved m after roots) :
    Stays m after roots :=
  fun r vpn _ _ _ => unmoved.space r vpn

theorem Alike.stays {m after : Memory} {roots : Slot → Option Page} (alike : Alike m after roots) : Stays m after roots :=
  fun r vpn _ _ _ => alike.space r vpn

variable {l : Layout} {m mid after : Memory} {h between next : Holding} {s : Slot}

/-- A step of memory keeps the invariant and changes mappings of one process for the user at some page numbers. -/
structure Changed (l : Layout) (m after : Memory) (h next : Holding) (s : Slot) (changed : Nat → Prop) : Prop where
  sound : Sound l after next
  remapped : Remapped m after h.roots s changed
  stays : Stays m after h.roots

theorem Changed.refl (sound : Sound l m h) (s : Slot) (changed : Nat → Prop) : Changed l m m h h s changed :=
  ⟨sound, fun _ _ _ _ => rfl, fun _ _ _ _ _ => rfl⟩

theorem Changed.mono {changed wider : Nat → Prop} (step : Changed l m after h next s changed)
    (covers : ∀ vpn, changed vpn → wider vpn) : Changed l m after h next s wider :=
  ⟨step.sound, step.remapped.mono covers, step.stays⟩

theorem Changed.trans {changed : Nat → Prop} (first : Changed l m mid h between s changed)
    (roots : between.roots = h.roots) (second : Changed l mid after between next s changed) :
    Changed l m after h next s changed := by
  have remapped := second.remapped
  have stays := second.stays
  rw [roots] at remapped stays
  exact ⟨second.sound, first.remapped.trans remapped, first.stays.trans stays⟩

/-- A change at one page number leaves the mappings for the kernel alone when none of them is there. -/
theorem Remapped.stays {roots : Slot → Option Page} {vpn : Nat} (remapped : Remapped m after roots s (· = vpn))
    (user : (space m (roots s) vpn).valid = true → (space m (roots s) vpn).perm.u = true) : Stays m after roots := by
  intro r other inside valid system
  apply remapped r other inside
  rintro ⟨rfl, rfl⟩
  simp [user valid] at system

/-- A mapping has been added where none was. -/
structure Mapped (l : Layout) (m after : Memory) (h next : Holding) (s : Slot) (vpn : Nat) (pte : Pte) : Prop where
  changed : Changed l m after h next s (· = vpn)
  inside : vpn < maxVpn
  fresh : (space m (h.roots s) vpn).valid = false
  entry : space after (h.roots s) vpn = pte

/-- A refused mapping changes no address space. -/
theorem mapPage_refused {root : Page} {vpn : Nat} {page : Page} {perm : Perm} (sound : Sound l m h)
    (rooted : h.roots s = some root) (done : mapPage m root vpn page perm = .ok (false, after)) :
    Sound l after h ∧ Unmoved m after h.roots := by
  rcases (mapPage_grows sound.forest rooted done).2 with ⟨_, grows⟩ | ⟨impossible, _⟩
  · exact ⟨grows.sound sound, grows.unmoved⟩
  · simp at impossible

/-- A successful call writes an entry that was not valid. -/
theorem mapPage_written {root : Page} {vpn : Nat} {page : Page} {perm : Perm} (sound : Sound l m h)
    (rooted : h.roots s = some root) (roots : next.roots = h.roots) (objects : next.objects = h.objects)
    (fits : vpn < maxVpn → Fits l vpn { valid := true, perm, page })
    (owned : ∀ grown, Grows h.roots s m grown → occupant grown h (.leaf s (px 0 vpn) (tablePath vpn)) = none →
      Owned (Managed l) grown.free (Function.update (Function.update (occupant grown h) .hand next.hand)
        (.leaf s (px 0 vpn) (tablePath vpn)) (userPage { valid := true, perm, page })))
    (done : mapPage m root vpn page perm = .ok (true, after)) :
    Mapped l m after h next s vpn { valid := true, perm, page } := by
  rcases mapPage_grows sound.forest rooted done with ⟨inside, ⟨impossible, _⟩ | ⟨_, fresh, table, mid, grows, held, rfl⟩⟩
  · simp at impossible
  · have soundMid := grows.sound sound
    have written := rewritten_leaf (i := px 0 vpn) { valid := true, perm, page } soundMid.forest.apart rfl held
    have old : (space mid (h.roots s) vpn).valid = false := by rw [grows.unmoved.space, fresh]
    have vacant : occupant mid h (.leaf s (px 0 vpn) (tablePath vpn)) = none := by
      rw [occupant_leaf rfl]
      exact userPage_invalid old
    obtain ⟨remapped, entry⟩ := written.remapped inside
    have place := fits inside
    rw [← vpnOf_path inside] at place
    have changed := (grows.unmoved.remapped s (· = vpn)).trans remapped
    refine ⟨⟨?_, changed, changed.stays fun valid => by simp [fresh] at valid⟩, inside, fresh, entry⟩
    exact soundMid.write written rfl place roots objects (owned mid grows vacant)

/-- A page for the user leaves the hands of kernel code. -/
theorem mapPage_user {root : Page} {vpn : Nat} {page : Page} {perm : Perm} (sound : Sound l m h)
    (rooted : h.roots s = some root) (held : h.hand = some page) (user : perm.u = true) (leaf : perm.leaf = true)
    (done : mapPage m root vpn page perm = .ok (true, after)) :
    Mapped l m after h { h with hand := none } s vpn { valid := true, perm, page } := by
  refine mapPage_written sound rooted ?_ ?_ ?_ ?_ done
  · rfl
  · rfl
  · exact fun _ _ => ⟨leaf, fun system => by simp [user] at system⟩
  · intro grown grows vacant
    have holds : occupant grown h .hand = some page := held
    have mine : userPage { valid := true, perm, page } = some page := by simp [userPage, user]
    rw [mine]
    exact (grows.sound sound).owned.move holds vacant

/-- A mapping for the kernel leaves the roles of all pages alone. -/
theorem mapPage_system {root : Page} {vpn : Nat} {page : Page} {perm : Perm} (sound : Sound l m h)
    (rooted : h.roots s = some root) (system : perm.u = false) (leaf : perm.leaf = true) (unmanaged : ¬Managed l page)
    (high : systemVpn ≤ vpn) (done : mapPage m root vpn page perm = .ok (true, after)) :
    Mapped l m after h h s vpn { valid := true, perm, page } := by
  apply mapPage_written sound rooted rfl rfl _ _ done
  · exact fun _ _ => ⟨leaf, fun _ => ⟨unmanaged, high⟩⟩
  · intro grown grows vacant
    have kept : Function.update (occupant grown h) .hand h.hand = occupant grown h :=
      Function.update_eq_self (f := occupant grown h) Role.hand
    have nobody : userPage { valid := true, perm, page } = occupant grown h (.leaf s (px 0 vpn) (tablePath vpn)) := by
      simp [vacant, userPage, system]
    rw [kept, nobody, Function.update_eq_self]
    exact (grows.sound sound).owned

/-- `uvmunmap` with `do_free` frees what it unmaps. -/
theorem unmapRange_frees {root : Page} (rooted : h.roots s = some root) (npages : Nat) {vpn : Nat} (sound : Sound l m h)
    (done : unmapRange l root true npages vpn m = .ok after) :
    Changed l m after h h s fun v => vpn ≤ v ∧ v < vpn + npages := by
  induction npages generalizing vpn m with
  | zero =>
      simp only [unmapRange, Except.ok.injEq] at done
      subst done
      exact .refl sound s _
  | succ npages ih =>
      obtain ⟨inside, mid, rest, round⟩ := unmapRange_succ done
      have first : Changed l m mid h h s (· = vpn) := by
        rcases round with ⟨_, rfl⟩ | ⟨table, place, ⟨valid, _, freed, freeing, rfl⟩ | ⟨keeps, rfl⟩⟩
        · exact .refl sound s _
        · rw [← rooted] at place
          obtain ⟨kept, written⟩ := sound.unmap rfl place valid freeing
          have remapped := (written.remapped inside).1
          refine ⟨kept, remapped, remapped.stays fun known => ?_⟩
          apply sound.user_of_managed rfl known
          rw [pteAt_held place]
          exact (kfree_ok freeing).1
        · rw [← rooted] at place
          have invalid := keeps.resolve_right (by simp)
          have blank : userPage (m.entry table (px 0 vpn)) = none := userPage_invalid invalid
          obtain ⟨kept, written⟩ := sound.wipe rfl place blank
          have remapped := (written.remapped inside).1
          refine ⟨kept, remapped, remapped.stays fun known => ?_⟩
          rw [space_held place, invalid] at known
          simp at known
      have second := ih first.sound rest
      apply (first.mono _).trans rfl (second.mono _)
      · intro v here
        omega
      · intro v here
        omega

/-- `uvmunmap` without `do_free` clears one mapping of the kernel. -/
theorem unmapRange_keeps {root : Page} (rooted : h.roots s = some root) {vpn : Nat} (sound : Sound l m h)
    (system : userPage (space m (h.roots s) vpn) = none) (done : unmapRange l root false 1 vpn m = .ok after) :
    Sound l after h ∧ Remapped m after h.roots s (· = vpn) := by
  obtain ⟨inside, mid, rest, round⟩ := unmapRange_succ done
  simp only [unmapRange, Except.ok.injEq] at rest
  subst rest
  rcases round with ⟨_, rfl⟩ | ⟨table, place, ⟨_, impossible, _⟩ | ⟨_, rfl⟩⟩
  · exact ⟨sound, fun _ _ _ _ => rfl⟩
  · simp at impossible
  · rw [← rooted] at place
    rw [space_held place] at system
    obtain ⟨kept, written⟩ := sound.wipe rfl place system
    exact ⟨kept, (written.remapped inside).1⟩

end BtbuOs.Vm
