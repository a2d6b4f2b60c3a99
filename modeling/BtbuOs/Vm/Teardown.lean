import BtbuOs.Vm.Frames
import BtbuOs.Vm.Touched

namespace BtbuOs.Vm

open Machine Partition
open Sync (nthread Tid ThreadState)
open Sched (nproc Slot ProcState)

variable {l : Layout} {m mid after : Memory} {h : Holding} {s : Slot} {up : Path} {root : Page} {vpn : Nat}

/-- Everything mapped behind a path is mapped for the user. -/
def Bare (m : Memory) (roots : Slot → Option Page) (s : Slot) (up : Path) : Prop :=
  ∀ i path, path.length = 2 → up <:+ path → (pteAt m (roots s) i path).valid = true →
    (pteAt m (roots s) i path).perm.u = true

/-- A lower path has less behind it. -/
theorem Bare.lower {roots : Slot → Option Page} {i : Fin 512} (bare : Bare m roots s up) : Bare m roots s (i :: up) :=
  fun j path length suffix => bare j path length ((List.suffix_cons i up).trans suffix)

/-- An entry that is cleared brings no mapping for the kernel. -/
theorem Bare.beneath {roots : Slot → Option Page} {i : Fin 512} (bare : Bare m roots s up)
    (beneath : Beneath m after roots s (i :: up)) (cleared : (pteAt after (roots s) i up).valid = false) :
    Bare after roots s up := by
  intro j path length suffix valid
  by_cases behind : (i :: up) <:+ j :: path
  · rcases List.suffix_cons_iff.mp behind with same | deeper
    · obtain ⟨rfl, rfl⟩ := List.cons.inj same
      rw [cleared] at valid
      simp at valid
    · rw [pteAt, node_below cleared path deeper] at valid
      simp [zeroPte] at valid
  · have same := beneath s j path (by omega) fun both => behind both.2
    rw [same] at valid ⊢
    exact bare j path length suffix valid

/-- A page that the user has mapped is one that `kfree` accepts. -/
theorem Sound.user_managed {i : Fin 512} (sound : Sound l m h) (length : up.length = 2)
    (valid : (pteAt m (h.roots s) i up).valid = true) (user : (pteAt m (h.roots s) i up).perm.u = true) :
    Managed l (pteAt m (h.roots s) i up).page := by
  apply sound.owned.roleManaged (.leaf s i up)
  rw [occupant_leaf length, userPage, valid, user]
  rfl

theorem Sound.table_managed {table : Page} (sound : Sound l m h) (short : up.length ≤ 2)
    (held : node m (h.roots s) up = some table) : Managed l table := by
  apply sound.owned.roleManaged (.table s up)
  rw [occupant_table short, held]

/-- A round succeeds when the lower tables can be freed. -/
theorem freewalkRound_total {level : Nat} {table : Page} {i : Fin 512} {done : List (Fin 512)}
    (emptied : Emptied l m mid h s up table done) (depth : up.length + level = 2) (bare : Bare mid h.roots s up)
    (lower : ∀ child, node mid (h.roots s) (i :: up) = some child → up.length ≤ 1 →
      ∃ after, freewalk l level child mid = .ok after) : ∃ after, freewalkRound l level table mid i = .ok after := by
  have entry := pteAt_held emptied.held i
  unfold freewalkRound
  by_cases valid : (mid.entry table i).valid = true
  · by_cases leaf : (mid.entry table i).perm.leaf = true
    · have length : up.length = 2 := by
        by_contra short
        have perm := emptied.sound.dirs s i up (by omega)
        rw [entry] at perm
        simp [perm valid, noPerm, Perm.leaf] at leaf
      have user := bare i up length (List.suffix_refl _)
      have managed := emptied.sound.user_managed (s := s) (i := i) length
      rw [entry] at user managed
      obtain ⟨freed, given⟩ := kfree_total mid (managed valid (user valid))
      exact ⟨freed.setEntry table i zeroPte, by simp [valid, leaf, given, bind, Except.bind, pure, Except.pure]⟩
    · have short : up.length ≤ 1 := by
        by_contra long
        have fits := emptied.sound.leaves s i up (by omega)
        rw [entry] at fits
        exact leaf (fits valid).1
      have child : node mid (h.roots s) (i :: up) = some (mid.entry table i).page := by
        rw [node_cons, entry, valid]
        rfl
      obtain ⟨freed, walking⟩ := lower _ child short
      exact ⟨freed.setEntry table i zeroPte, by simp [valid, leaf, walking, bind, Except.bind, pure, Except.pure]⟩
  · exact ⟨mid, by simp [valid, pure, Except.pure]⟩

/-- A table can be freed when the tables behind it can. -/
theorem freewalk_completes {level : Nat} {table : Page} (sound : Sound l m h) (held : node m (h.roots s) up = some table)
    (depth : up.length + level = 2) (bare : Bare m h.roots s up)
    (lower : ∀ i child state, Sound l state h → node state (h.roots s) (i :: up) = some child → up.length ≤ 1 →
      Bare state h.roots s (i :: up) → ∃ after, freewalk l level child state = .ok after) :
    ∃ after, freewalk l (level + 1) table m = .ok after := by
  have rounds : ∃ final, (List.finRange 512).foldlM (freewalkRound l level table) m = .ok final ∧
      Emptied l m final h s up table (List.finRange 512) ∧ Bare final h.roots s up := by
    apply foldlM_total (fun done state => Emptied l m state h s up table done ∧ Bare state h.roots s up)
    · exact ⟨⟨sound, held, fun i listed => by simp at listed, fun _ _ _ _ _ => rfl⟩, bare⟩
    · intro done i rest state _ before
      obtain ⟨emptied, plain⟩ := before
      obtain ⟨after, ran⟩ := freewalkRound_total emptied depth plain fun child below short =>
        lower i child state emptied.sound below short plain.lower
      have empties (child : Page) (state final : Memory) (known : Sound l state h)
          (below : node state (h.roots s) (i :: up) = some child) (short : up.length ≤ 1)
          (walking : freewalk l level child state = .ok final) :
          ∃ empty, Emptied l state empty h s (i :: up) child (List.finRange 512) ∧ kfree l empty child = .ok final := by
        cases level with
        | zero => omega
        | succ level => exact freewalk_empties level known below (by rw [List.length_cons]; omega) walking
      obtain ⟨_, beneath, cleared⟩ := emptied.cleared depth empties ran
      exact ⟨after, ran, emptied.round depth empties ran, plain.beneath beneath cleared⟩
  obtain ⟨final, loop, emptied, _⟩ := rounds
  obtain ⟨freed, given⟩ := kfree_total final (emptied.sound.table_managed (by omega) emptied.held)
  refine ⟨freed, ?_⟩
  rw [freewalk_succ, loop]
  exact given

/-- The recursion ends and frees pages of `kalloc` alone. -/
theorem freewalk_total (level : Nat) {table : Page} (sound : Sound l m h) (held : node m (h.roots s) up = some table)
    (depth : up.length + level = 2) (bare : Bare m h.roots s up) : ∃ after, freewalk l (level + 1) table m = .ok after := by
  induction level generalizing up table m with
  | zero => exact freewalk_completes sound held depth bare fun i child state _ _ short => by omega
  | succ level ih =>
      exact freewalk_completes sound held depth bare fun i child state known below _ plain =>
        ih known below (by rw [List.length_cons]; omega) plain

/-- Every mapping that is there was there before. -/
def Shrinks (m after : Memory) (roots : Slot → Option Page) : Prop :=
  ∀ r i path, path.length = 2 → (pteAt after (roots r) i path).valid = true →
    pteAt after (roots r) i path = pteAt m (roots r) i path

theorem Shrinks.trans {roots : Slot → Option Page} (first : Shrinks m mid roots) (second : Shrinks mid after roots) :
    Shrinks m after roots := by
  intro r i path length valid
  have same := second r i path length valid
  rw [same] at valid ⊢
  exact first r i path length valid

/-- An entry that is cleared is a mapping less. -/
theorem Rewritten.shrinks {roots : Slot → Option Page} {i : Fin 512} (written : Rewritten m after roots s i up zeroPte) :
    Shrinks m after roots := by
  intro r j path length valid
  by_cases here : r = s ∧ j = i ∧ path = up
  · rw [(written r j path (by omega)).1 here] at valid
    simp [zeroPte] at valid
  · exact written.other (by omega) here

/-- A page of the user or nothing is behind each page number of a range. -/
theorem unmapRange_clears (rooted : h.roots s = some root) (npages : Nat) (sound : Sound l m h) (inside : vpn + npages ≤ maxVpn)
    (users : ∀ v, vpn ≤ v → v < vpn + npages → (space m (h.roots s) v).valid = true → (space m (h.roots s) v).perm.u = true) :
    ∃ after, unmapRange l root true npages vpn m = .ok after := by
  induction npages generalizing vpn m with
  | zero => exact ⟨m, rfl⟩
  | succ npages ih =>
      have bound : vpn < maxVpn := by omega
      have onward (mid : Memory) (known : Sound l mid h) (remapped : Remapped m mid h.roots s (· = vpn)) :
          ∃ after, unmapRange l root true npages (vpn + 1) mid = .ok after := by
        apply ih known (by omega)
        intro v low high
        rw [remapped s v (by omega) fun both => by omega]
        exact users v (by omega) (by omega)
      rw [unmapRange, walk_peek m root bound, ← rooted]
      cases place : node m (h.roots s) (tablePath vpn) with
      | none => exact onward m sound fun _ _ _ _ => rfl
      | some table =>
          have mine := users vpn (Nat.le_refl vpn) (by omega)
          have managed (used : (space m (h.roots s) vpn).valid = true) (user : (space m (h.roots s) vpn).perm.u = true) :
              Managed l (space m (h.roots s) vpn).page := sound.user_managed rfl used user
          rw [space_held place] at managed
          rw [space_held place] at mine
          cases valid : (m.entry table (px 0 vpn)).valid with
          | true =>
              obtain ⟨freed, given⟩ := kfree_total m (managed valid (mine valid))
              have system : (m.entry table (px 0 vpn)).perm ≠ noPerm := by
                intro same
                simp [same, noPerm] at mine
                simp [mine] at valid
              obtain ⟨kept, written⟩ := sound.unmap rfl place valid given
              obtain ⟨after, rest⟩ := onward _ kept (written.remapped bound).1
              refine ⟨after, ?_⟩
              simp only [bind, Except.bind, valid, system, given, if_true, if_false]
              exact rest
          | false =>
              obtain ⟨kept, written⟩ := sound.wipe rfl place (userPage_invalid valid)
              obtain ⟨after, rest⟩ := onward _ kept (written.remapped bound).1
              refine ⟨after, ?_⟩
              simp only [bind, Except.bind, valid, Bool.false_eq_true, if_false]
              exact rest

/-- A mapping for the kernel is cleared without a panic. -/
theorem unmapPage_kernel (rooted : h.roots s = some root) (sound : Sound l m h) (inside : vpn < maxVpn)
    (system : userPage (space m (h.roots s) vpn) = none) : ∃ after, unmapRange l root false 1 vpn m = .ok after ∧
      Sound l after h ∧ Remapped m after h.roots s (· = vpn) ∧ Shrinks m after h.roots ∧
      (space after (h.roots s) vpn).valid = false := by
  have total : ∃ after, unmapRange l root false 1 vpn m = .ok after ∧ Shrinks m after h.roots ∧
      (space after (h.roots s) vpn).valid = false := by
    rw [unmapRange, walk_peek m root inside, ← rooted]
    cases place : node m (h.roots s) (tablePath vpn) with
    | none => exact ⟨m, rfl, fun _ _ _ _ _ => rfl, by rw [space_absent place]; rfl⟩
    | some table =>
        have written := (sound.wipe (s := s) (i := px 0 vpn) rfl place (by rw [← space_held place]; exact system)).2
        refine ⟨m.setEntry table (px 0 vpn) zeroPte, ?_, written.shrinks, by rw [(written.remapped inside).2]; rfl⟩
        cases valid : (m.entry table (px 0 vpn)).valid with
        | true =>
            have fits := sound.leaves s (px 0 vpn) (tablePath vpn) rfl
            rw [← space, space_held place] at fits
            have leaf : (m.entry table (px 0 vpn)).perm ≠ noPerm := by
              intro same
              have bits := (fits valid).1
              simp [same, noPerm, Perm.leaf] at bits
            simp [bind, Except.bind, valid, leaf, unmapRange]
        | false => simp [bind, Except.bind, valid, unmapRange]
  obtain ⟨after, done, shrinks, cleared⟩ := total
  obtain ⟨kept, remapped⟩ := unmapRange_keeps rooted sound system done
  exact ⟨after, done, kept, remapped, shrinks, cleared⟩

theorem unmapRange_shrinks (rooted : h.roots s = some root) (npages : Nat) (sound : Sound l m h)
    (done : unmapRange l root true npages vpn m = .ok after) : Shrinks m after h.roots := by
  intro r i path length valid
  apply (unmapRange_touched rooted npages sound done).entries r i path length
  rintro ⟨rfl, low, high⟩
  rw [← space_vpnOf length, unmapRange_invalid rooted npages sound done low high] at valid
  simp at valid

/-- A process whose kernel mappings are the trampoline and the trap frames of its live threads. -/
structure Leaving (l : Layout) (m : Memory) (h : Holding) (s : Slot) (threads : Tid → ThreadState) : Prop where
  sound : Sound l m h
  kernel : ∀ i path, path.length = 2 → (pteAt m (h.roots s) i path).valid = true →
    (pteAt m (h.roots s) i path).perm.u = false →
    vpnOf (i :: path) = trampolineVpn ∨ ∃ t, alive (threads t) = true ∧ vpnOf (i :: path) = trapframeVpn t
  trampoline : userPage (space m (h.roots s) trampolineVpn) = none
  trapframe : ∀ t, alive (threads t) = true → userPage (space m (h.roots s) (trapframeVpn t)) = none

variable {threads : Tid → ThreadState} {t : Tid}

/-- A live thread gives up its trap frame and its stack. -/
theorem Leaving.freethread {state : ThreadState} (leaving : Leaving l m h s threads) (rooted : h.roots s = some root)
    (lives : alive (threads t) = true) (dead : alive state = false) (low : vpn < systemVpn) :
    ∃ first after, unmapRange l root false 1 (trapframeVpn t) m = .ok first ∧ unmapRange l root true 1 vpn first = .ok after ∧
      Leaving l after h s (Function.update threads t state) := by
  have inside : vpn < maxVpn := Nat.lt_of_lt_of_le low (by decide)
  obtain ⟨first, frame, sound, kept, shrinks, gone⟩ :=
    unmapPage_kernel rooted leaving.sound (trapframe_inside t) (leaving.trapframe t lives)
  have user (v : Nat) (least : vpn ≤ v) (most : v < vpn + 1) (valid : (space first (h.roots s) v).valid = true) :
      (space first (h.roots s) v).perm.u = true := sound.user_below (by omega) (by omega) valid
  obtain ⟨after, stack⟩ := unmapRange_clears rooted 1 sound (by omega) user
  have changed := unmapRange_frees rooted 1 sound stack
  have fewer := shrinks.trans (unmapRange_shrinks rooted 1 sound stack)
  have high := trapframe_high t
  have stays (v : Nat) (bound : v < maxVpn) (frame : v ≠ trapframeVpn t) (stack : v ≠ vpn) :
      space after (h.roots s) v = space m (h.roots s) v := by
    rw [changed.remapped s v bound fun both => by omega, kept s v bound fun both => frame both.2]
  have framed : (space after (h.roots s) (trapframeVpn t)).valid = false := by
    rw [changed.remapped s _ (trapframe_inside t) fun both => by omega]
    exact gone
  refine ⟨first, after, frame, stack, changed.sound, fun i path length valid system => ?_, ?_, fun u living => ?_⟩
  · have same := fewer s i path length valid
    have known := valid
    rw [same] at valid system
    rcases leaving.kernel i path length valid system with tramp | ⟨u, living, place⟩
    · exact Or.inl tramp
    · have other : u ≠ t := by
        rintro rfl
        rw [← space_vpnOf length, place, framed] at known
        simp at known
      exact Or.inr ⟨u, by rwa [Function.update_of_ne other], place⟩
  · have top : systemVpn ≤ trampolineVpn := by decide
    rw [stays trampolineVpn trampoline_inside (trapframe_trampoline t) (by omega)]
    exact leaving.trampoline
  · have other : u ≠ t := by
      rintro rfl
      rw [Function.update_self, dead] at living
      simp at living
    rw [Function.update_of_ne other] at living
    have above := trapframe_high u
    rw [stays _ (trapframe_inside u) (fun same => other (trapframe_inj same)) (by omega)]
    exact leaving.trapframe u living

variable {k : Kernel}

/-- The state of the loop of `freeproc`. -/
structure Draining (l : Layout) (k : Kernel) (h : Holding) (s : Slot) (done : List Tid) (state : Kernel) : Prop where
  leaving : Leaving l state.memory h s (state.pool s).threads
  fields : ∃ threads, state.pool s = { k.pool s with threads }
  dead : ∀ t, t ∈ done → alive ((state.pool s).threads t) = false

/-- A round of the loop frees the pages of one thread. -/
theorem Draining.round {state : Kernel} {done : List Tid} (draining : Draining l k h s done state)
    (rooted : h.roots s = some root) (held : (k.pool s).pagetable = some root)
    (stackRoom : (k.pool s).ustackBase + nthread ≤ systemVpn) (t : Tid) :
    ∃ after, freeprocRound l s state t = .ok after ∧ Draining l k h s (done ++ [t]) after := by
  obtain ⟨threads, fields⟩ := draining.fields
  have finish (m : Memory) (leaving : Leaving l m h s (Function.update threads t .unused)) :
      Draining l k h s (done ++ [t]) (({ state with memory := m } : Kernel).setThread s t .unused) := by
    have own : (({ state with memory := m } : Kernel).setThread s t .unused).pool s =
        { k.pool s with threads := Function.update threads t .unused } := by
      rw [setThread_self, threaded]
      change { state.pool s with threads := Function.update (state.pool s).threads t .unused } = _
      rw [fields]
    refine ⟨?_, ⟨_, own⟩, fun u listed => ?_⟩
    · rw [own]
      exact leaving
    · rw [own]
      dsimp only
      by_cases same : u = t
      · subst same
        simp [alive]
      · rw [Function.update_of_ne same]
        have earlier := draining.dead u (by simpa [same] using listed)
        rwa [fields] at earlier
  have before := draining.leaving
  rw [fields] at before
  cases lives : alive (threads t) with
  | true =>
      have low : ustackVpn (state.pool s) t < systemVpn := by
        have bound : t.val < nthread := t.isLt
        rw [fields]
        change (k.pool s).ustackBase + t.val < systemVpn
        omega
      obtain ⟨first, m, frame, stack, leaving⟩ := before.freethread rooted lives (show alive .unused = false from rfl) low
      refine ⟨_, ?_, finish m leaving⟩
      have held : (state.pool s).pagetable = some root := by
        rw [fields]
        exact held
      have living : alive ((state.pool s).threads t) = true := by
        rw [fields]
        exact lives
      rw [freeprocRound, if_pos living, freethread, held]
      simp only [bind, Except.bind, frame, stack, pure, Except.pure]
  | false =>
      have living : alive ((state.pool s).threads t) = false := by
        rw [fields]
        exact lives
      refine ⟨_, ?_, finish state.memory ⟨before.sound, fun i path length valid system => ?_, before.trampoline, fun u known => ?_⟩⟩
      · rw [freeprocRound, living]
        rfl
      · rcases before.kernel i path length valid system with tramp | ⟨u, known, place⟩
        · exact Or.inl tramp
        · have other : u ≠ t := by
            rintro rfl
            rw [lives] at known
            simp at known
          exact Or.inr ⟨u, by rwa [Function.update_of_ne other], place⟩
      · have other : u ≠ t := by
          rintro rfl
          rw [Function.update_self] at known
          simp [alive] at known
        rw [Function.update_of_ne other] at known
        exact before.trapframe u known

/-- A process without live threads loses its page table. -/
theorem Leaving.freepagetable {maxPage : Nat} (leaving : Leaving l m h s threads) (rooted : h.roots s = some root)
    (dead : ∀ t, alive (threads t) = false) (most : maxPage ≤ systemVpn) :
    ∃ after, freepagetable l m root maxPage = .ok after ∧ Sound l after (h.setRoot s none) := by
  obtain ⟨first, trampoline, sound, kept, shrinks, gone⟩ :=
    unmapPage_kernel rooted leaving.sound trampoline_inside leaving.trampoline
  have limit : systemVpn ≤ maxVpn := by decide
  obtain ⟨second, range⟩ := unmapRange_clears rooted maxPage sound (show 0 + maxPage ≤ maxVpn by omega) fun v _ high =>
    sound.user_below (by omega) (by omega)
  have changed := unmapRange_frees rooted maxPage sound range
  have fewer := unmapRange_shrinks rooted maxPage sound range
  have bare : Bare second h.roots s [] := by
    intro i path length _ valid
    have again := valid
    rw [fewer s i path length valid] at again
    by_contra system
    rw [Bool.not_eq_true, fewer s i path length valid, shrinks s i path length again] at system
    rw [shrinks s i path length again] at again
    rcases leaving.kernel i path length again system with same | ⟨t, living, _⟩
    · rw [fewer s i path length valid, ← space_vpnOf length, same, gone] at valid
      simp at valid
    · rw [dead t] at living
      simp at living
  have top : node second (h.roots s) [] = some root := rooted
  obtain ⟨after, walked⟩ := freewalk_total 2 changed.sound top rfl bare
  refine ⟨after, ?_, (freewalk_root changed.sound rooted walked).1⟩
  rw [Vm.freepagetable, trampoline]
  by_cases some : 0 < maxPage
  · simp [bind, Except.bind, uvmfree, some, range, walked]
  · obtain rfl : maxPage = 0 := by omega
    simp only [unmapRange, Except.ok.injEq] at range
    subst range
    simp [bind, Except.bind, uvmfree, walked]

/-- The fields of a process that say where its pages are. -/
structure Placed (p : Process) (root : Page) : Prop where
  pagetable : p.pagetable = some root
  stackRoom : p.ustackBase + nthread ≤ systemVpn
  most : p.maxPage ≤ systemVpn

/-- The process gives back its page table with everything that it maps. -/
theorem freeproc_total (placed : Placed (k.pool s) root) (rooted : h.roots s = some root)
    (leaving : Leaving l k.memory h s (k.pool s).threads) :
    ∃ after, freeproc l k s = .ok after ∧ Sound l after.memory (h.setRoot s none) := by
  have rounds : ∃ mid, (List.finRange nthread).foldlM (freeprocRound l s) k = .ok mid ∧
      Draining l k h s (List.finRange nthread) mid := by
    apply foldlM_total (fun done state => Draining l k h s done state)
    · exact ⟨leaving, ⟨_, rfl⟩, fun t listed => by simp at listed⟩
    · exact fun done t rest state _ draining => draining.round rooted placed.pagetable placed.stackRoom t
  obtain ⟨mid, loop, drained⟩ := rounds
  obtain ⟨threads, fields⟩ := drained.fields
  have dead (t : Tid) : alive ((mid.pool s).threads t) = false := drained.dead t (List.mem_finRange t)
  have most : (mid.pool s).maxPage ≤ systemVpn := by
    rw [fields]
    exact placed.most
  have held : (mid.pool s).pagetable = some root := by
    rw [fields]
    exact placed.pagetable
  obtain ⟨m, freed, sound⟩ := drained.leaving.freepagetable rooted dead most
  let p : Process := { mid.pool s with state := .unused, pagetable := none, maxPage := 0, ustackBase := 0 }
  refine ⟨{ mid.setProcess s p with memory := m }, ?_, sound⟩
  change ((List.finRange nthread).foldlM (freeprocRound l s) k >>= fun k => _) = _
  rw [loop]
  simp only [bind, Except.bind, held, freed, pure, Except.pure]
  rfl

/-- The exit of the main thread. -/
theorem exit_total (placed : Placed (k.pool s) root) (rooted : h.roots s = some root)
    (lives : alive ((k.pool s).threads 0) = true) (leaving : Leaving l k.memory h s (k.pool s).threads) :
    ∃ after, exit l k s 0 = .ok (after, []) ∧ Sound l after.memory (h.setRoot s none) := by
  have low : ustackVpn (k.pool s) 0 < systemVpn := by
    have stackRoom := placed.stackRoom
    have many : 0 < nthread := by decide
    change (k.pool s).ustackBase + 0 < systemVpn
    omega
  obtain ⟨first, m, frame, stack, left⟩ := leaving.freethread rooted lives (show alive .exited = false from rfl) low
  have own : (k.setThread s 0 .exited).pool s = threaded (k.pool s) 0 .exited := setThread_self k s 0 .exited
  have freed : Vm.freethread l (k.setThread s 0 .exited) s 0 = .ok { k.setThread s 0 .exited with memory := m } := by
    rw [Vm.freethread, own]
    simp only [threaded, placed.pagetable]
    change (do
      let m ← unmapRange l root false 1 (trapframeVpn 0) k.memory
      let m ← unmapRange l root true 1 (ustackVpn (k.pool s) 0) m
      return { k.setThread s 0 .exited with memory := m }) = _
    simp only [bind, Except.bind, frame, stack, pure, Except.pure]
  have ended : Placed (({ k.setThread s 0 .exited with memory := m } : Kernel).pool s) root := by
    change Placed ((k.setThread s 0 .exited).pool s) root
    rw [own]
    exact ⟨placed.pagetable, placed.stackRoom, placed.most⟩
  have threads : Leaving l m h s (({ k.setThread s 0 .exited with memory := m } : Kernel).pool s).threads := by
    change Leaving l m h s ((k.setThread s 0 .exited).pool s).threads
    rw [own]
    exact left
  obtain ⟨after, cleared, sound⟩ := freeproc_total ended rooted threads
  have ended : ∃ pool, exit l k s 0 = .ok ({ after with pool }, []) := by
    simp only [exit, bind, Except.bind, freed, if_true, cleared, pure, Except.pure]
    split
    · exact ⟨_, rfl⟩
    · exact ⟨_, rfl⟩
  obtain ⟨pool, exited⟩ := ended
  exact ⟨{ after with pool }, exited, sound⟩

/-- The page table of one process and the pages that are in other use. -/
def alone (s : Slot) (root : Page) (others : Nat → Option Page) : Holding where
  roots := Function.update (fun _ => none) s (some root)
  objects := others
  hand := none

/-- A page belongs to a page table as one of its tables or as the target of a user mapping. -/
def Belongs (m : Memory) (root page : Page) : Prop :=
  (∃ path, path.length ≤ 2 ∧ node m (some root) path = some page) ∨
    ∃ i path, path.length = 2 ∧ userPage (pteAt m (some root) i path) = some page

variable {others : Nat → Option Page} {page : Page}

theorem alone_root (s : Slot) (root : Page) (others : Nat → Option Page) : (alone s root others).roots s = some root := by
  simp [alone]

theorem alone_away (root : Page) (others : Nat → Option Page) {r : Slot} (other : r ≠ s) :
    (alone s root others).roots r = none := by
  simp [alone, other]

/-- The pages of the process are the pages with its roles. -/
theorem belongs_role (m : Memory) (s : Slot) (root : Page) (others : Nat → Option Page) (page : Page) : Belongs m root page ↔
    ∃ role, occupant m (alone s root others) role = some page ∧ ∀ n, role ≠ .object n := by
  constructor
  · intro belongs
    rcases belongs with ⟨path, short, held⟩ | ⟨i, path, length, mine⟩
    · exact ⟨.table s path, by rw [occupant_table short, alone_root, held], fun n => by simp⟩
    · exact ⟨.leaf s i path, by rw [occupant_leaf length, alone_root, mine], fun n => by simp⟩
  · intro ⟨role, mine, own⟩
    cases role with
    | table r path =>
        rw [occupant] at mine
        split at mine
        · rename_i short
          by_cases same : r = s
          · subst same
            rw [alone_root] at mine
            exact Or.inl ⟨path, short, mine⟩
          · rw [alone_away root others same, node_none] at mine
            simp at mine
        · simp at mine
    | leaf r i path =>
        rw [occupant] at mine
        split at mine
        · rename_i length
          by_cases same : r = s
          · subst same
            rw [alone_root] at mine
            exact Or.inr ⟨i, path, length, mine⟩
          · rw [alone_away root others same, pteAt_none, userPage_invalid rfl] at mine
            simp at mine
        · simp at mine
    | object n => exact absurd rfl (own n)
    | hand => simp [occupant, alone] at mine

/-- Without the process only the other uses are left. -/
theorem occupant_gone {role : Role} (mine : occupant after ((alone s root others).setRoot s none) role = some page) :
    ∃ n, role = .object n ∧ others n = some page := by
  have nobody (r : Slot) : ((alone s root others).setRoot s none).roots r = none := by
    by_cases same : r = s
    · simp [Holding.setRoot, same]
    · simp [Holding.setRoot, alone]
  cases role with
  | table r path =>
      rw [occupant, nobody, node_none] at mine
      simp at mine
  | leaf r i path =>
      rw [occupant, nobody, pteAt_none, userPage_invalid rfl] at mine
      simp at mine
  | object n => exact ⟨n, rfl, mine⟩
  | hand => simp [occupant, alone, Holding.setRoot] at mine

/-- The free list grows by the pages of a process that is gone. -/
theorem Sound.returned (before : Sound l m (alone s root others)) (gone : Sound l after ((alone s root others).setRoot s none)) :
    ∃ pages : List Page, pages.Nodup ∧ (∀ page, page ∈ pages ↔ Belongs m root page) ∧ after.free.Perm (pages ++ m.free) := by
  have free (page : Page) : page ∈ after.free ↔ Belongs m root page ∨ page ∈ m.free := by
    constructor
    · intro listed
      rcases before.owned.cover page (gone.owned.freeManaged page listed) with old | ⟨role, mine⟩
      · exact Or.inr old
      · refine Or.inl ((belongs_role m s root others page).mpr ⟨role, mine, fun n same => ?_⟩)
        subst same
        exact gone.owned.apart (.object n) page mine listed
    · intro known
      have managed : Managed l page := by
        rcases known with belongs | listed
        · obtain ⟨role, mine, _⟩ := (belongs_role m s root others _).mp belongs
          exact before.owned.roleManaged role page mine
        · exact before.owned.freeManaged page listed
      rcases gone.owned.cover page managed with listed | ⟨role, mine⟩
      · exact listed
      · obtain ⟨n, _, object⟩ := occupant_gone mine
        have still : occupant m (alone s root others) (.object n) = some page := object
        rcases known with belongs | listed
        · obtain ⟨first, held, apart⟩ := (belongs_role m s root others _).mp belongs
          exact absurd (before.owned.single first (.object n) page held still) (apart n)
        · exact absurd listed (before.owned.apart (.object n) page still)
  refine ⟨after.free.filter fun page => page ∉ m.free, gone.owned.nodup.filter _, fun page => ?_, ?_⟩
  · rw [List.mem_filter, free, decide_eq_true_eq]
    constructor
    · exact fun known => known.1.resolve_right known.2
    · intro belongs
      obtain ⟨role, mine, _⟩ := (belongs_role m s root others _).mp belongs
      exact ⟨Or.inl belongs, before.owned.apart role page mine⟩
  · apply (List.perm_ext_iff_of_nodup gone.owned.nodup _).mpr
    · intro page
      rw [List.mem_append, List.mem_filter, free, decide_eq_true_eq]
      tauto
    · apply (gone.owned.nodup.filter _).append before.owned.nodup
      intro page first second
      exact of_decide_eq_true (List.mem_filter.mp first).2 second

/-- Among the pages of a whole machine, all pages of the other processes are in other use. -/
theorem Sound.alone (sound : Sound l m h) (rooted : h.roots s = some root) : ∃ others, Sound l m (alone s root others) := by
  classical
  let others : Nat → Option Page := fun n => if Managed l n ∧ n ∉ m.free ∧ ¬Belongs m root n then some n else none
  have other {n : Nat} {page : Page} (used : others n = some page) :
      n = page ∧ Managed l page ∧ page ∉ m.free ∧ ¬Belongs m root page := by
    simp only [others] at used
    split at used
    · rename_i known
      obtain rfl := Option.some.inj used
      exact ⟨rfl, known⟩
    · simp at used
  have mine {role : Role} {page : Page} (held : occupant m (Vm.alone s root others) role = some page) :
      (∃ n, role = .object n ∧ others n = some page) ∨ occupant m h role = some page ∧ Belongs m root page := by
    have belongs (own : ∀ n, role ≠ .object n) : Belongs m root page :=
      (belongs_role m s root others page).mpr ⟨role, held, own⟩
    cases role with
    | table r path =>
        refine Or.inr ⟨?_, belongs fun n => by simp⟩
        by_cases same : r = s
        · subst same
          rw [← held, occupant, occupant, alone_root, rooted]
        · rw [occupant, alone_away root others same, node_none] at held
          simp at held
    | leaf r i path =>
        refine Or.inr ⟨?_, belongs fun n => by simp⟩
        by_cases same : r = s
        · subst same
          rw [← held, occupant, occupant, alone_root, rooted]
        · rw [occupant, alone_away root others same, pteAt_none, userPage_invalid rfl] at held
          simp at held
    | object n => exact Or.inl ⟨n, rfl, held⟩
    | hand => simp [occupant, Vm.alone] at held
  refine ⟨others, ⟨?_, fun r i path short valid => ?_, fun r i path length => ?_⟩⟩
  · constructor
    · exact sound.owned.nodup
    · exact sound.owned.freeManaged
    · intro role page held
      rcases mine held with ⟨n, _, used⟩ | ⟨known, _⟩
      · exact (other used).2.1
      · exact sound.owned.roleManaged role page known
    · intro role page held
      rcases mine held with ⟨n, _, used⟩ | ⟨known, _⟩
      · exact (other used).2.2.1
      · exact sound.owned.apart role page known
    · intro first second page held same
      rcases mine held with ⟨n, rfl, used⟩ | ⟨known, belongs⟩ <;>
        rcases mine same with ⟨n', rfl, again⟩ | ⟨also, belongsAlso⟩
      · rw [(other used).1, (other again).1]
      · exact absurd belongsAlso (other used).2.2.2
      · exact absurd belongs (other again).2.2.2
      · exact sound.owned.single first second page known also
    · intro page managed
      by_cases listed : page ∈ m.free
      · exact Or.inl listed
      · by_cases belongs : Belongs m root page
        · obtain ⟨role, held, _⟩ := (belongs_role m s root others page).mp belongs
          exact Or.inr ⟨role, held⟩
        · exact Or.inr ⟨.object page, if_pos ⟨managed, listed, belongs⟩⟩
  · by_cases same : r = s
    · subst same
      rw [alone_root, ← rooted] at valid ⊢
      exact sound.dirs r i path short valid
    · rw [alone_away root others same, pteAt_none] at valid
      simp [zeroPte] at valid
  · by_cases same : r = s
    · subst same
      rw [alone_root, ← rooted]
      exact sound.leaves r i path length
    · rw [alone_away root others same, pteAt_none]
      exact fits_zero l _

/-- The exit of the main thread returns every page of the process once and no static page. -/
theorem exit_returns (placed : Placed (k.pool s) root) (lives : alive ((k.pool s).threads 0) = true)
    (leaving : Leaving l k.memory (alone s root others) s (k.pool s).threads) :
    ∃ after pages, exit l k s 0 = .ok (after, []) ∧ pages.Nodup ∧ (∀ page, page ∈ pages ↔ Belongs k.memory root page) ∧
      after.memory.free.Perm (pages ++ k.memory.free) ∧ l.trampoline ∉ after.memory.free ∧
      ∀ r t, l.trapframe r t ∉ after.memory.free := by
  obtain ⟨after, exited, gone⟩ := exit_total placed (alone_root s root others) lives leaving
  obtain ⟨pages, nodup, members, free⟩ := leaving.sound.returned gone
  refine ⟨after, pages, exited, nodup, members, free, fun listed => ?_, fun r t listed => ?_⟩
  · exact absurd l.trampoline_lt (Nat.not_lt.mpr (gone.owned.freeManaged _ listed).1)
  · exact trapframe_unmanaged l r t (gone.owned.freeManaged _ listed)

/-- A mapping for the user below the system pages changes nothing for the kernel. -/
theorem Leaving.map {perm : Perm} (leaving : Leaving l m h s threads) (rooted : h.roots s = some root) (empty : h.hand = none)
    (user : perm.u = true) (leaf : perm.leaf = true) (low : vpn < systemVpn) (alloc : kalloc m = (some page, mid))
    (done : mapPage mid root vpn page perm = .ok (true, after)) : Leaving l after h s threads := by
  have placed := alloc_mapped leaving.sound empty rooted alloc user leaf done
  obtain ⟨held, alike⟩ := leaving.sound.alloc empty alloc
  have entries {i : Fin 512} {path : Path} (length : path.length = 2) (here : vpnOf (i :: path) ≠ vpn) :
      pteAt after (h.roots s) i path = pteAt m (h.roots s) i path := by
    have same : pteAt after (h.roots s) i path = pteAt mid (h.roots s) i path :=
      (mapPage_touched held.forest rooted done).entries s i path length fun both => here both.2.2
    rw [same, alike s i path (by omega)]
  have high {v : Nat} (inside : v < maxVpn) (least : systemVpn ≤ v) : space after (h.roots s) v = space m (h.roots s) v :=
    placed.changed.remapped s v inside fun both => by omega
  refine ⟨placed.changed.sound, fun i path length valid system => ?_, ?_, fun t lives => ?_⟩
  · have here : vpnOf (i :: path) ≠ vpn := by
      intro same
      rw [← space_vpnOf length, same, placed.entry] at system
      simp [user] at system
    rw [entries length here] at valid system
    exact leaving.kernel i path length valid system
  · rw [high trampoline_inside (by decide)]
    exact leaving.trampoline
  · rw [high (trapframe_inside t) (trapframe_high t)]
    exact leaving.trapframe t lives

/-- A new page table maps the trampoline alone. -/
theorem uvmcreate_leaving (sound : Sound l m h) (vacant : h.roots s = none) (done : uvmcreate l m = .ok (some root, after)) :
    Leaving l after (h.setRoot s (some root)) s fun _ => .unused := by
  have own : (h.setRoot s (some root)).roots s = some root := Function.update_self ..
  obtain ⟨created, _, trampoline⟩ := uvmcreate_sound sound vacant done
  refine ⟨created, fun i path length valid _ => ?_, ?_, fun t lives => by simp [alive] at lives⟩
  · unfold uvmcreate at done
    split at done
    · simp at done
    · rename_i page mid alloc
      obtain ⟨⟨mapped, last⟩, mapping, rest⟩ := bind_ok.mp done
      cases mapped with
      | false => simp at rest
      | true =>
          simp only [if_true, pure, Except.pure, Except.ok.injEq, Prod.mk.injEq, Option.some.injEq] at rest
          obtain ⟨rfl, rfl⟩ := rest
          obtain ⟨planted, _⟩ := plant_sound sound vacant alloc
          by_contra other
          rw [not_or] at other
          have same := (mapPage_touched planted.forest own mapping).entries s i path length fun both => other.1 both.2.2
          rw [same, own, pteAt_clear] at valid
          simp [zeroPte] at valid
  · rw [own, trampoline root rfl]
    rfl

/-- The trap frame of a thread is mapped when the thread comes to life. -/
theorem Leaving.start (leaving : Leaving l m h s threads) (rooted : h.roots s = some root)
    (done : mapPage m root (trapframeVpn t) (l.trapframe s t) { r := true, w := true, x := false, u := false } = .ok (true, after)) :
    Leaving l after h s (Function.update threads t .running) := by
  have placed := mapPage_system leaving.sound rooted rfl rfl (trapframe_unmanaged l s t) (trapframe_high t) done
  have living {u : Tid} (lives : alive (threads u) = true) : alive (Function.update threads t .running u) = true := by
    by_cases same : u = t
    · simp [same, alive]
    · rwa [Function.update_of_ne same]
  refine ⟨placed.changed.sound, fun i path length valid system => ?_, ?_, fun u lives => ?_⟩
  · by_cases here : vpnOf (i :: path) = trapframeVpn t
    · exact Or.inr ⟨t, by simp [alive], here⟩
    · rw [(mapPage_touched leaving.sound.forest rooted done).entries s i path length fun both => here both.2.2] at valid system
      rcases leaving.kernel i path length valid system with tramp | ⟨u, lives, place⟩
      · exact Or.inl tramp
      · exact Or.inr ⟨u, living lives, place⟩
  · rw [placed.changed.remapped s _ trampoline_inside fun both => trapframe_trampoline t both.2]
    exact leaving.trampoline
  · by_cases same : u = t
    · rw [same, placed.entry]
      rfl
    · rw [Function.update_of_ne same] at lives
      rw [placed.changed.remapped s _ (trapframe_inside u) fun both => same (trapframe_inj both.2)]
      exact leaving.trapframe u lives

/-- The only process of this kernel has one thread. -/
def soleProcess (m : Memory) (root : Page) : Kernel :=
  { bootKernel (smallLayout 8) with
    memory := m
    pool := fun _ => { state := .used, parent := none, pagetable := some root, maxPage := 2, ustackBase := 2,
                       threads := Function.update (fun _ => .unused) 0 .running } }

/-- A process with one page exits. -/
theorem exit_returns_run : ∃ m root page after pages, userPage (space m (some root) 1) = some page ∧
    exit (smallLayout 8) (soleProcess m root) 0 0 = .ok (after, []) ∧ page ∈ pages ∧
    after.memory.free.Perm (pages ++ m.free) := by
  have built : ∃ root m₁ m₂ page m₃ m, uvmcreate (smallLayout 8) (bootKernel (smallLayout 8)).memory = .ok (some root, m₁) ∧
      mapPage m₁ root (trapframeVpn 0) ((smallLayout 8).trapframe 0 0) { r := true, w := true, x := false, u := false } =
        .ok (true, m₂) ∧ kalloc m₂ = (some page, m₃) ∧
      mapPage m₃ root 1 page { r := true, w := true, x := false, u := true } = .ok (true, m) :=
    ⟨_, _, _, _, _, _, rfl, rfl, rfl, rfl⟩
  obtain ⟨root, m₁, m₂, page, m₃, m, created, framed, alloc, mapped⟩ := built
  have boot := (bootKernel_kept (smallLayout 8)).1.sound
  have rooted : ((bootKernel (smallLayout 8)).holding.setRoot 0 (some root)).roots 0 = some root := by
    simp [Holding.setRoot]
  have started := (uvmcreate_leaving boot rfl created).start rooted framed
  have placed := alloc_mapped started.sound rfl rooted alloc (by rfl) (by rfl) mapped
  have leaving : Leaving (smallLayout 8) m (alone 0 root fun _ => none) 0 (Function.update (fun _ => .unused) 0 .running) :=
    started.map rooted rfl (by rfl) (by rfl) (by decide) alloc mapped
  have stackRoom : 2 + nthread ≤ systemVpn := by decide
  have most : 2 ≤ systemVpn := by decide
  obtain ⟨after, pages, exited, _, members, free, _, _⟩ :=
    exit_returns (k := soleProcess m root) ⟨rfl, stackRoom, most⟩ rfl leaving
  have mine : userPage (space m (some root) 1) = some page := by
    rw [← rooted, placed.entry]
    rfl
  exact ⟨m, root, page, after, pages, mine, exited,
    (members page).mpr (Or.inr ⟨px 0 1, tablePath 1, rfl, mine⟩), free⟩

end BtbuOs.Vm
