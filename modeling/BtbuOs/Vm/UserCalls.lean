import BtbuOs.Vm.Frames
import BtbuOs.Vm.Supply

namespace BtbuOs.Vm

open Machine Partition
open Sync (nthread Tid ThreadState)
open Sched (nproc Slot ProcState)

variable {l : Layout} {m after : Memory} {h : Holding} {s : Slot} {root : Page} {vpn : Nat} {perm : Perm}

/-- One round of the check loop tests the entry of one page number. -/
theorem checkRange_succ (wanted : Bool) (npages : Nat) (inside : vpn < maxVpn) :
    checkRange m root wanted (npages + 1) vpn =
      if (space m (some root) vpn).valid = wanted then checkRange m root wanted npages (vpn + 1) else .ok false := by
  rw [checkRange, walk_peek m root inside]
  cases found : node m (some root) (tablePath vpn) with
  | none =>
      rw [space_absent found]
      rfl
  | some table =>
      rw [space_held found]
      rfl

/-- A page number below `MAXVA` that is not as wanted stops the check loop. -/
theorem checkRange_stop {wanted : Bool} {npages stop : Nat} (low : vpn ≤ stop) (high : stop < vpn + npages)
    (inside : stop < maxVpn) (unwanted : (space m (some root) stop).valid ≠ wanted) :
    checkRange m root wanted npages vpn = .ok false := by
  induction npages generalizing vpn with
  | zero => omega
  | succ npages ih =>
      rw [checkRange_succ wanted npages (by omega)]
      by_cases here : stop = vpn
      · subst here
        rw [if_neg unwanted]
      · split
        · exact ih (by omega) (by omega)
        · rfl

/-- The check loop ends when all pages are as wanted. -/
theorem checkRange_all {wanted : Bool} {npages : Nat} (inside : vpn + npages ≤ maxVpn)
    (fits : ∀ v, vpn ≤ v → v < vpn + npages → (space m (some root) v).valid = wanted) :
    checkRange m root wanted npages vpn = .ok true := by
  induction npages generalizing vpn with
  | zero => rfl
  | succ npages ih =>
      rw [checkRange_succ wanted npages (by omega), if_pos (fits vpn (Nat.le_refl vpn) (by omega))]
      apply ih (by omega)
      intro v low high
      exact fits v (by omega) (by omega)

/-- Page tables grow with free pages. -/
theorem Grows.free {roots : Slot → Option Page} (grows : Grows roots s m after) :
    ∀ page, page ∈ after.free → page ∈ m.free := by
  induction grows with
  | refl => exact fun _ listed => listed
  | tail _ grow ih =>
      intro page listed
      apply ih page
      cases grow with
      | same free alike => rwa [← free]
      | table up i fresh short invalid free written =>
          rw [free]
          exact List.mem_cons_of_mem fresh listed

/-- A call of `mapPage` frees no page. -/
theorem mapPage_free {roots : Slot → Option Page} {page : Page} {mapped : Bool} (forest : Forest m roots)
    (rooted : roots s = some root) (done : mapPage m root vpn page perm = .ok (mapped, after)) :
    ∀ known, known ∈ after.free → known ∈ m.free := by
  rcases (mapPage_grows forest rooted done).2 with ⟨_, grows⟩ | ⟨_, _, table, mid, grows, _, rfl⟩
  · exact grows.free
  · exact grows.free

/-- The mapping loop of `sys_mmap` ends, at the trampoline at the latest. -/
theorem mmapLoop_total (rooted : h.roots s = some root) (empty : h.hand = none) (user : perm.u = true)
    (leaf : perm.leaf = true) (npages : Nat) (sound : Sound l m h) (inside : vpn < maxVpn)
    (stop : (space m (h.roots s) trampolineVpn).valid = true) (system : (space m (h.roots s) trampolineVpn).perm.u = false) :
    ∃ value after, mmapLoop l root perm npages vpn m = .ok (value, after) ∧ ∀ page, page ∈ after.free → page ∈ m.free := by
  induction npages generalizing vpn m with
  | zero => exact ⟨0, m, rfl, fun _ listed => listed⟩
  | succ npages ih =>
      rw [mmapLoop]
      split
      · rename_i mid alloc
        refine ⟨-1, mid, rfl, fun page listed => ?_⟩
        rwa [(kalloc_none alloc).1] at listed
      · rename_i page mid alloc
        have free := (kalloc_some alloc).1
        have below (known : Page) (listed : known ∈ mid.free) : known ∈ m.free := by
          rw [free]
          exact List.mem_cons_of_mem page listed
        obtain ⟨held, _⟩ := sound.alloc empty alloc
        obtain ⟨⟨mapped, next⟩, mapping⟩ := mapPage_total mid root page perm inside
        have fewer := mapPage_free held.forest rooted mapping
        cases mapped with
        | false =>
            have managed : Managed l page := sound.owned.freeManaged page (by rw [free]; exact List.mem_cons_self)
            obtain ⟨freed, given⟩ := kfree_total next managed
            refine ⟨-1, freed, by simp [bind, Except.bind, mapping, given, pure, Except.pure], fun known listed => ?_⟩
            rw [(kfree_ok given).2.1, List.mem_cons] at listed
            rcases listed with rfl | old
            · rw [free]
              exact List.mem_cons_self
            · exact below known (fewer known old)
        | true =>
            have placed := alloc_mapped sound empty rooted alloc user leaf mapping
            have different : vpn ≠ trampolineVpn := by
              intro same
              have fresh := placed.fresh
              rw [same, stop] at fresh
              simp at fresh
            have same := placed.changed.stays s trampolineVpn (by decide) stop system
            rw [← same] at stop system
            have room : vpn + 1 < maxVpn := by
              have limit : maxVpn = trampolineVpn + 1 := rfl
              omega
            obtain ⟨value, after, rest, freeAfter⟩ := ih placed.changed.sound room stop system
            refine ⟨value, after, by simpa [bind, Except.bind, mapping] using rest, fun known listed => ?_⟩
            exact below known (fewer known (freeAfter known listed))

/-- A range of pages of the user is unmapped without a panic, and only its pages are freed. -/
theorem unmapRange_user (rooted : h.roots s = some root) (npages : Nat) (sound : Sound l m h)
    (inside : vpn + npages ≤ maxVpn)
    (users : ∀ v, vpn ≤ v → v < vpn + npages → ∃ page, userPage (space m (h.roots s) v) = some page) :
    ∃ after, unmapRange l root true npages vpn m = .ok after ∧ ∀ page, page ∈ after.free →
      page ∈ m.free ∨ ∃ v, v < maxVpn ∧ userPage (space m (h.roots s) v) = some page := by
  induction npages generalizing vpn m with
  | zero => exact ⟨m, rfl, fun _ listed => Or.inl listed⟩
  | succ npages ih =>
      have bound : vpn < maxVpn := by omega
      obtain ⟨page, mine⟩ := users vpn (Nat.le_refl vpn) (by omega)
      have managed := sound.owned.roleManaged (.leaf s (px 0 vpn) (tablePath vpn)) page (by rw [occupant_leaf rfl]; exact mine)
      cases place : node m (h.roots s) (tablePath vpn) with
      | none =>
          rw [space_absent place, userPage] at mine
          simp [zeroPte] at mine
      | some table =>
          have found := mine
          rw [space_held place, userPage] at found
          simp only [Option.ite_none_right_eq_some, Bool.and_eq_true, Option.some.injEq] at found
          obtain ⟨⟨valid, user⟩, rfl⟩ := found
          have system : (m.entry table (px 0 vpn)).perm ≠ noPerm := by
            intro same
            simp [same, noPerm] at user
          obtain ⟨freed, given⟩ := kfree_total m managed
          obtain ⟨kept, written⟩ := sound.unmap rfl place valid given
          have remapped := (written.remapped bound).1
          have same (v : Nat) (limit : v < maxVpn) (other : v ≠ vpn) :
              space (freed.setEntry table (px 0 vpn) zeroPte) (h.roots s) v = space m (h.roots s) v :=
            remapped s v limit fun both => other both.2
          have room : vpn + 1 + npages ≤ maxVpn := by omega
          obtain ⟨after, rest, free⟩ := ih kept room fun v low high => by
            rw [same v (by omega) (by omega)]
            exact users v (by omega) (by omega)
          refine ⟨after, ?_, fun known listed => ?_⟩
          · rw [unmapRange, walk_peek m root bound, ← rooted, place]
            simp only [bind, Except.bind, valid, system, given, if_true, if_false]
            exact rest
          · rcases free known listed with old | ⟨v, limit, target⟩
            · have freedList : known ∈ freed.free := old
              rw [(kfree_ok given).2.1, List.mem_cons] at freedList
              rcases freedList with rfl | older
              · exact Or.inr ⟨vpn, bound, mine⟩
              · exact Or.inl older
            · by_cases here : v = vpn
              · rw [here, (written.remapped bound).2, userPage] at target
                simp [zeroPte] at target
              · rw [same v limit here] at target
                exact Or.inr ⟨v, limit, target⟩

variable {k : Kernel}

/-- A page that is mapped for the user in the address space of a process. -/
def UserPage (k : Kernel) (s : Slot) (page : Page) : Prop :=
  ∃ vpn, vpn < maxVpn ∧ userPage (space k.memory (k.pool s).pagetable vpn) = some page

/-- A call does no harm when it does not panic, leaves the mappings of the kernel in all address spaces alone, and reads,
writes and frees pages of the user only. -/
structure Harmless (k after : Kernel) (s : Slot) (events : List Event) : Prop where
  calm : ∀ message, Event.panicked message ∉ events
  stays : ∀ r vpn, vpn < maxVpn → (space k.memory (k.pool r).pagetable vpn).valid = true →
    (space k.memory (k.pool r).pagetable vpn).perm.u = false →
    space after.memory (after.pool r).pagetable vpn = space k.memory (k.pool r).pagetable vpn
  freed : ∀ page, page ∈ after.memory.free → page ∈ k.memory.free ∨ UserPage k s page
  read : ∀ page offset, Event.loaded page offset ∈ events → UserPage k s page
  written : ∀ page offset data, Event.stored page offset data ∈ events → UserPage k s page

/-- A call that leaves the page table of its process in place and accesses no byte of a page. -/
theorem Harmless.change {value : Int} (stays : Stays k.memory m k.holding.roots)
    (freed : ∀ page, page ∈ m.free → page ∈ k.memory.free ∨ UserPage k s page) :
    Harmless k { k with memory := m } s [.returned value] :=
  ⟨fun _ listed => by simp at listed, stays, freed, fun _ _ listed => by simp at listed, fun _ _ _ listed => by simp at listed⟩

/-- A refusal changes nothing. -/
theorem Harmless.refusal (k : Kernel) (s : Slot) (value : Int) : Harmless k k s [.returned value] :=
  Harmless.change (fun _ _ _ _ _ => rfl) fun _ listed => Or.inl listed

/-- The system calls on the memory of the user. -/
def ThreadCall.onMemory : ThreadCall → Bool
  | .mmap .. | .munmap .. | .trace .. | .threadCreate => true
  | _ => false

/-- The arguments that `sys_mmap` goes on with after its first tests. -/
def mmapAccepts (start len : BitVec 64) (prot : BitVec 32) : Prop :=
  start &&& 4095 = 0 ∧ prot &&& ~~~7 = 0 ∧ prot &&& 7 ≠ 0 ∧ len ≠ 0

/-- The page numbers that `sys_munmap` checks and unmaps. -/
def inRange (start len : BitVec 64) (vpn : Nat) : Prop :=
  start.toNat / 4096 ≤ vpn ∧ vpn < start.toNat / 4096 + rangeRounds start (roundUp len)

/-- A new thread finds its two pages unmapped and memory enough. -/
def roomForThread (k : Kernel) (s : Slot) (denials : List Bool) : Prop :=
  match (k.pool s).pagetable, (List.finRange nthread).find? fun t => (k.pool s).threads t = .unused with
  | some root, some t =>
      (space k.memory (some root) (ustackVpn (k.pool s) t)).valid = false ∧
        (space k.memory (some root) (trapframeVpn t)).valid = false ∧
        supplies (1 + missing k.memory root (ustackVpn (k.pool s) t)) (k.prepared denials)
  | _, _ => True

/-- No address from `MAXVA` on reaches `walk`, no mapping of the kernel is unmapped, and a new thread has room. -/
def tame (k : Kernel) (s : Slot) (denials : List Bool) : ThreadCall → Prop
  | .mmap start len prot =>
      mmapAccepts start len prot → start.toNat / 4096 < maxVpn ∨
        rangeRounds start (roundUp len) = 0 ∧ (roundUp len = 0 ∨ (kalloc (k.prepared denials)).1 = none)
  | .munmap start len =>
      start &&& 4095 = 0 → len ≠ 0 →
        (∃ vpn, inRange start len vpn ∧ vpn < maxVpn ∧ (space k.memory (k.pool s).pagetable vpn).valid = false) ∨
          ∀ vpn, inRange start len vpn →
            vpn < maxVpn ∧ ∃ page, userPage (space k.memory (k.pool s).pagetable vpn) = some page
  | .trace request id _ => request = 0 ∨ request = 1 → id.toNat / 4096 < maxVpn
  | .threadCreate => roomForThread k s denials
  | _ => True

/-- What the invariant says about the page table of a process. -/
theorem Kept.stop (kept : Kept l k) (rooted : (k.pool s).pagetable = some root) :
    (space k.memory (k.holding.roots s) trampolineVpn).valid = true ∧
      (space k.memory (k.holding.roots s) trampolineVpn).perm.u = false := by
  have held : k.holding.roots s = some root := rooted
  rw [held, kept.trampoline s root rooted]
  exact ⟨rfl, rfl⟩

/-- The first tests of `sys_mmap` refuse the arguments. -/
theorem sysMmap_rejected {start len : BitVec 64} {prot : BitVec 32} (rooted : (k.pool s).pagetable = some root)
    (refused : ¬mmapAccepts start len prot) : ∃ value, sysMmap l k s start len prot = .ok (k, [.returned value]) := by
  unfold sysMmap
  rw [rooted]
  simp only
  split_ifs with aligned flags low empty
  · exact ⟨-1, rfl⟩
  · exact ⟨-1, rfl⟩
  · exact ⟨-1, rfl⟩
  · exact ⟨0, rfl⟩
  · exact absurd ⟨not_not.mp aligned, not_not.mp flags, low, empty⟩ refused

/-- After its first tests `sys_mmap` runs its two loops. -/
theorem sysMmap_accepted {start len : BitVec 64} {prot : BitVec 32} (rooted : (k.pool s).pagetable = some root)
    (accepted : mmapAccepts start len prot) :
    (checkRange k.memory root false (rangeRounds start (roundUp len)) (start.toNat / 4096) = .ok false →
        sysMmap l k s start len prot = .ok (k, [.returned (-1)])) ∧
      (checkRange k.memory root false (rangeRounds start (roundUp len)) (start.toNat / 4096) = .ok true →
        ∀ value after, mmapLoop l root { r := prot.getLsbD 0, w := prot.getLsbD 1, x := prot.getLsbD 2, u := true } (roundUp len)
            (start.toNat / 4096) k.memory = .ok (value, after) →
          sysMmap l k s start len prot = .ok ({ k with memory := after }, [.returned value])) := by
  obtain ⟨aligned, flags, low, nonempty⟩ := accepted
  unfold sysMmap
  rw [rooted]
  simp only
  rw [if_neg (not_not.mpr aligned), if_neg (not_not.mpr flags), if_neg low, if_neg nonempty]
  constructor
  · intro found
    rw [found]
    rfl
  · intro clear value after mapped
    rw [clear, mapped]
    rfl

theorem sysMmap_harmless {start len : BitVec 64} {prot : BitVec 32} (kept : Kept l k)
    (rooted : (k.pool s).pagetable = some root) (gentle : tame k s k.memory.denials (.mmap start len prot)) :
    ∃ next events, sysMmap l k s start len prot = .ok (next, events) ∧ Harmless k next s events := by
  have held : k.holding.roots s = some root := rooted
  by_cases accepted : mmapAccepts start len prot
  · obtain ⟨refused, mapped⟩ := sysMmap_accepted (l := l) rooted accepted
    have leaf : ({ r := prot.getLsbD 0, w := prot.getLsbD 1, x := prot.getLsbD 2, u := true } : Perm).leaf = true :=
      prot_bits prot accepted.2.2.1
    obtain ⟨valid, system⟩ := kept.stop rooted
    have done (clear : checkRange k.memory root false (rangeRounds start (roundUp len)) (start.toNat / 4096) = .ok true)
        (total : ∃ value after, mmapLoop l root { r := prot.getLsbD 0, w := prot.getLsbD 1, x := prot.getLsbD 2, u := true } (roundUp len)
          (start.toNat / 4096) k.memory = .ok (value, after) ∧ ∀ page, page ∈ after.free → page ∈ k.memory.free) :
        ∃ next events, sysMmap l k s start len prot = .ok (next, events) ∧ Harmless k next s events := by
      obtain ⟨value, after, ran, free⟩ := total
      obtain ⟨_, stays⟩ := mmapLoop_sound held rfl rfl leaf _ kept.sound ran
      exact ⟨_, _, mapped clear value after ran, Harmless.change stays fun page listed => Or.inl (free page listed)⟩
    rcases gentle accepted with inside | ⟨wrapped, nothing⟩
    · have total := mmapLoop_total held rfl rfl leaf (roundUp len) kept.sound inside valid system
      by_cases taken : ∃ stop, start.toNat / 4096 ≤ stop ∧ stop < start.toNat / 4096 + rangeRounds start (roundUp len) ∧
          stop < maxVpn ∧ (space k.memory (some root) stop).valid = true
      · obtain ⟨stop, lower, upper, limit, found⟩ := taken
        exact ⟨k, _, refused (checkRange_stop lower upper limit (by simp [found])), Harmless.refusal k s _⟩
      · have vacant (v : Nat) (lower : start.toNat / 4096 ≤ v)
            (upper : v < start.toNat / 4096 + rangeRounds start (roundUp len)) (limit : v < maxVpn) :
            (space k.memory (some root) v).valid = false := by
          by_contra found
          exact taken ⟨v, lower, upper, limit, by simpa using found⟩
        -- the trampoline ends every free range
        have short : start.toNat / 4096 + rangeRounds start (roundUp len) ≤ maxVpn := by
          by_contra beyond
          have free := vacant trampolineVpn (by simp only [trampolineVpn]; omega) (by simp only [trampolineVpn]; omega) (by decide)
          rw [held] at valid
          simp [free] at valid
        exact done (checkRange_all short fun v lower upper => vacant v lower upper (by omega)) total
    · have clear : checkRange k.memory root false (rangeRounds start (roundUp len)) (start.toNat / 4096) = .ok true := by
        rw [wrapped]
        rfl
      apply done clear
      rcases nothing with empty | denied
      · rw [empty]
        exact ⟨0, k.memory, rfl, fun _ listed => listed⟩
      · cases pages : roundUp len with
        | zero => exact ⟨0, k.memory, rfl, fun _ listed => listed⟩
        | succ npages =>
            cases alloc : kalloc k.memory with
            | mk page rest =>
                have same : k.prepared k.memory.denials = k.memory := rfl
                rw [same, alloc] at denied
                simp only at denied
                subst denied
                refine ⟨-1, rest, by rw [mmapLoop, alloc], fun known listed => ?_⟩
                rwa [(kalloc_none alloc).1] at listed
  · obtain ⟨value, same⟩ := sysMmap_rejected (l := l) rooted accepted
    exact ⟨k, _, same, Harmless.refusal k s value⟩

theorem sysMunmap_harmless {start len : BitVec 64} (kept : Kept l k) (rooted : (k.pool s).pagetable = some root)
    (gentle : tame k s k.memory.denials (.munmap start len)) :
    ∃ next events, sysMunmap l k s start len = .ok (next, events) ∧ Harmless k next s events := by
  have held : k.holding.roots s = some root := rooted
  unfold sysMunmap
  rw [rooted]
  simp only
  split
  · exact ⟨k, _, rfl, Harmless.refusal k s _⟩
  split
  · exact ⟨k, _, rfl, Harmless.refusal k s _⟩
  rename_i aligned nonempty
  rcases gentle (not_not.mp aligned) nonempty with ⟨stop, ⟨lower, upper⟩, limit, absent⟩ | users
  · rw [rooted] at absent
    rw [checkRange_stop lower upper limit (by simp [absent])]
    exact ⟨k, _, rfl, Harmless.refusal k s _⟩
  · rw [rooted] at users
    have valid (v : Nat) (lower : start.toNat / 4096 ≤ v)
        (upper : v < start.toNat / 4096 + rangeRounds start (roundUp len)) : (space k.memory (some root) v).valid = true := by
      obtain ⟨_, page, mine⟩ := users v ⟨lower, upper⟩
      by_contra invalid
      rw [userPage_invalid (by simpa using invalid)] at mine
      simp at mine
    by_cases empty : rangeRounds start (roundUp len) = 0
    · rw [empty]
      exact ⟨k, _, rfl, Harmless.refusal k s _⟩
    · have short : start.toNat / 4096 + rangeRounds start (roundUp len) ≤ maxVpn := by
        have last := (users (start.toNat / 4096 + rangeRounds start (roundUp len) - 1) ⟨by omega, by omega⟩).1
        omega
      rw [checkRange_all short valid]
      obtain ⟨after, ran, free⟩ := unmapRange_user held _ kept.sound short fun v lower upper => by
        rw [held]
        exact (users v ⟨lower, upper⟩).2
      have changed := unmapRange_frees held _ kept.sound ran
      refine ⟨{ k with memory := after }, [.returned 0], ?_, Harmless.change changed.stays free⟩
      simp [bind, Except.bind, ran, pure, Except.pure]

/-- The page that `sys_trace` accesses is one of the user. -/
theorem traceAddr_user (k : Kernel) (root : Page) (bit : Perm → Bool) (inside : vpn < maxVpn) :
    ∃ page, traceAddr k.memory root vpn bit = .ok page ∧
      ∀ known, page = some known → userPage (space k.memory (some root) vpn) = some known := by
  rw [traceAddr, walk_peek k.memory root inside]
  cases place : node k.memory (some root) (tablePath vpn) with
  | none => exact ⟨none, rfl, fun known impossible => by simp at impossible⟩
  | some table =>
      have entry := space_held place
      simp only [bind, Except.bind, walkaddr_eq, entry, inside, true_and, pure, Except.pure]
      split
      · rename_i allowed
        simp only [Bool.and_eq_true] at allowed
        refine ⟨_, rfl, fun known found => ?_⟩
        simp only [allowed, and_self, if_true, Option.ite_none_left_eq_some, Option.some.injEq] at found
        simp [userPage, allowed, found.2]
      · exact ⟨none, rfl, fun known impossible => by simp at impossible⟩

theorem sysTrace_harmless {request : BitVec 32} {id : BitVec 64} (data : BitVec 8)
    (rooted : (k.pool s).pagetable = some root) (gentle : request = 0 ∨ request = 1 → id.toNat / 4096 < maxVpn) :
    ∃ events, sysTrace k s request id data = .ok events ∧ Harmless k k s events := by
  have quiet (events : List Event) (calm : ∀ message, Event.panicked message ∉ events)
      (read : ∀ page offset, Event.loaded page offset ∈ events → UserPage k s page)
      (written : ∀ page offset value, Event.stored page offset value ∈ events → UserPage k s page) : Harmless k k s events :=
    ⟨calm, fun _ _ _ _ _ => rfl, fun _ listed => Or.inl listed, read, written⟩
  have refused : Harmless k k s [.returned (-1)] := Harmless.refusal k s _
  unfold sysTrace
  rw [rooted]
  simp only
  split_ifs with reading writing counting beyond
  · have inside := gentle (Or.inl reading)
    obtain ⟨page, found, user⟩ := traceAddr_user k root Perm.r inside
    rw [found]
    cases page with
    | none => exact ⟨_, rfl, refused⟩
    | some page =>
        refine ⟨_, rfl, quiet _ ?_ (fun known offset listed => ?_) ?_⟩
        · simp
        · simp only [List.mem_singleton, Event.loaded.injEq] at listed
          rw [listed.1]
          exact ⟨_, inside, by rw [rooted]; exact user page rfl⟩
        · simp
  · have inside := gentle (Or.inr writing)
    obtain ⟨page, found, user⟩ := traceAddr_user k root Perm.w inside
    rw [found]
    cases page with
    | none => exact ⟨_, rfl, refused⟩
    | some page =>
        refine ⟨_, rfl, quiet _ ?_ ?_ fun known offset value listed => ?_⟩
        · simp
        · simp
        · simp only [List.mem_cons, Event.stored.injEq, reduceCtorEq, List.not_mem_nil, or_false] at listed
          rw [listed.1]
          exact ⟨_, inside, by rw [rooted]; exact user page rfl⟩
  · exact ⟨_, rfl, refused⟩
  · exact ⟨_, rfl, quiet _ (by simp) (by simp) (by simp)⟩
  · exact ⟨_, rfl, refused⟩

/-- Two page numbers of the reserved pages share their tables. -/
theorem trapframe_path (t : Tid) : tablePath (trapframeVpn t) = tablePath trampolineVpn := by
  revert t
  decide

/-- A thread gets its stack and its trap frame when both pages are unmapped and memory is enough. -/
theorem allocthread_supplied {t : Tid} (kept : Kept l k) (rooted : (k.pool s).pagetable = some root)
    (found : ((List.finRange nthread).find? fun t => (k.pool s).threads t = .unused) = some t)
    (stack : (space k.memory (some root) (ustackVpn (k.pool s) t)).valid = false)
    (trapframe : (space k.memory (some root) (trapframeVpn t)).valid = false)
    (enough : supplies (1 + missing k.memory root (ustackVpn (k.pool s) t)) k.memory) :
    ∃ after, allocthread l k s root true = .ok (some t, after) ∧ (∀ r, (after.pool r).pagetable = (k.pool r).pagetable) ∧
      Stays k.memory after.memory k.holding.roots ∧ ∀ page, page ∈ after.memory.free → page ∈ k.memory.free := by
  have held : k.holding.roots s = some root := rooted
  have low : ustackVpn (k.pool s) t < systemVpn := by
    have bounds := (kept.bounds s).2
    have limit : t.val < nthread := t.isLt
    simp only [ustackVpn, systemVpn, maxVpn, Nat.reducePow] at bounds ⊢
    omega
  have inside : ustackVpn (k.pool s) t < maxVpn := by
    simp only [systemVpn] at low
    omega
  have apart : trapframeVpn t ≠ ustackVpn (k.pool s) t := by
    have high := trapframe_high t
    omega
  obtain ⟨page, first, alloc, rest⟩ := supplies_kalloc (by rwa [Nat.add_comm] at enough)
  obtain ⟨handed, alike⟩ := kept.sound.alloc rfl alloc
  have heldHand : ({ k.holding with hand := some page } : Holding).roots s = some root := rooted
  have vacant : (space first (some root) (ustackVpn (k.pool s) t)).valid = false := by
    have same := alike.space s (ustackVpn (k.pool s) t)
    rw [held] at same
    rw [same, stack]
  rw [← missing_alike alike held] at rest
  obtain ⟨second, placing, _⟩ := mapPage_supplied (n := 0) page { r := true, w := true, x := false, u := true } handed.forest
    heldHand inside vacant (by rwa [Nat.zero_add])
  have placed := alloc_mapped kept.sound rfl held alloc rfl rfl placing
  have sound := placed.changed.sound
  have still : (space second (some root) (trapframeVpn t)).valid = false := by
    have same := placed.changed.remapped s (trapframeVpn t) (trapframe_inside t) fun both => apart both.2
    rw [held] at same
    rw [same, trapframe]
  have beside : missing second root (trapframeVpn t) = 0 := by
    apply missing_beside (trapframe_path t)
    rw [kept.trampoline_stays (placed.changed.stays s) rooted]
    rfl
  have last : supplies (0 + missing second root (trapframeVpn t)) second := by
    rw [beside]
    exact ⟨Nat.zero_le _, fun denied listed => by simp at listed⟩
  obtain ⟨third, mapping, _⟩ := mapPage_supplied (l.trapframe s t) { r := true, w := true, x := false, u := false } sound.forest
    held (trapframe_inside t) still last
  have framed := mapPage_system sound held rfl rfl (trapframe_unmanaged l s t) (trapframe_high t) mapping
  have created : mapUstack (k.setThread s t .used) s root t =
      .ok { k.setProcess s (started (k.pool s) t (max (k.pool s).maxPage (ustackVpn (k.pool s) t + 1))) with memory := second } := by
    have own : (k.setThread s t .used).pool s = { k.pool s with threads := Function.update (k.pool s).threads t .used } :=
      setProcess_self k s _
    have memory : (k.setThread s t .used).memory = k.memory := rfl
    have vpn : ustackVpn { k.pool s with threads := Function.update (k.pool s).threads t .used } t = ustackVpn (k.pool s) t := rfl
    rw [mapUstack, own, memory, vpn, uvmmap, alloc]
    simp only [bind, Except.bind, Option.getD_some, placing, if_true, uvmmap, pure, Except.pure]
    rw [Kernel.setThread, setProcess_twice]
    rfl
  refine ⟨{ k.setProcess s (started (k.pool s) t (max (k.pool s).maxPage (ustackVpn (k.pool s) t + 1))) with memory := third },
    ?_, fun r => ?_, placed.changed.stays.trans framed.changed.stays, fun known listed => ?_⟩
  · rw [allocthread, found]
    simp only [bind, Except.bind, created, mapping, if_true, pure, Except.pure]
  · by_cases own : r = s
    · subst own
      rw [setProcess_self]
      rfl
    · rw [setProcess_other _ _ _ own]
  · have older := mapPage_free sound.forest held mapping known listed
    have oldest := mapPage_free handed.forest heldHand placing known older
    rw [(kalloc_some alloc).1]
    exact List.mem_cons_of_mem page oldest

theorem sysThreadCreate_harmless (kept : Kept l k) (rooted : (k.pool s).pagetable = some root)
    (gentle : tame k s k.memory.denials .threadCreate) :
    ∃ next events, sysThreadCreate l k s = .ok (next, events) ∧ Harmless k next s events := by
  unfold sysThreadCreate
  rw [rooted]
  cases found : (List.finRange nthread).find? fun t => (k.pool s).threads t = .unused with
  | none =>
      refine ⟨k, [.returned (-1)], ?_, Harmless.refusal k s _⟩
      simp only [allocthread, found, bind, Except.bind, pure, Except.pure]
  | some t =>
      have room : roomForThread k s k.memory.denials := gentle
      rw [roomForThread, rooted, found] at room
      obtain ⟨stack, trapframe, enough⟩ := room
      obtain ⟨after, created, roots, stays, free⟩ := allocthread_supplied kept rooted found stack trapframe enough
      refine ⟨after.setThread s t .runnable, [.returned t.val], ?_, ?_⟩
      · simp only [created, bind, Except.bind, pure, Except.pure]
      · refine ⟨fun message listed => by simp at listed, fun r vpn inside valid system => ?_, fun page listed => ?_,
          fun page offset listed => by simp at listed, fun page offset data listed => by simp at listed⟩
        · have same : ((after.setThread s t .runnable).pool r).pagetable = (k.pool r).pagetable := by
            rw [← roots r]
            by_cases own : r = s
            · subst own
              rw [Kernel.setThread, setProcess_self]
            · rw [Kernel.setThread, setProcess_other _ _ _ own]
          rw [same]
          exact stays r vpn inside valid system
        · exact Or.inl (free page listed)

/-- A tame call does no harm. -/
theorem operate_harmless {t : Tid} {call : ThreadCall} (kept : Kept l k) (lives : alive ((k.pool s).threads t) = true)
    (memory : call.onMemory = true) (gentle : tame k s k.memory.denials call) :
    ∃ next events, operate l k s t call = .ok (next, events) ∧ Harmless k next s events := by
  obtain ⟨root, rooted⟩ := Option.ne_none_iff_exists'.mp (kept.rooted s t lives)
  cases call with
  | mmap start len prot => exact sysMmap_harmless kept rooted gentle
  | munmap start len => exact sysMunmap_harmless kept rooted gentle
  | trace request id data =>
      obtain ⟨events, traced, harmless⟩ := sysTrace_harmless data rooted gentle
      exact ⟨k, events, by simp only [operate, traced, bind, Except.bind, pure, Except.pure], harmless⟩
  | threadCreate => exact sysThreadCreate_harmless kept rooted gentle
  | fork => exact absurd memory Bool.false_ne_true
  | spawn program fits => exact absurd memory Bool.false_ne_true
  | exec program fits => exact absurd memory Bool.false_ne_true
  | waittid tid => exact absurd memory Bool.false_ne_true
  | wait np => exact absurd memory Bool.false_ne_true
  | exit => exact absurd memory Bool.false_ne_true

/-- Every call of a run that is made for a thread is tame. -/
def Gentle (k : Kernel) (action : Action) : Prop :=
  fed k action = true ∧ ∀ s t call, action.call = .thread s t call → tame k s action.denials call

/-- In every run of tame calls no call of a thread on the memory of its user harms the kernel. -/
theorem user_calls_harmless (l : Layout) {k : Kernel} {trace : List Event}
    (reached : Reaches (step l) (fun k _ action => Gentle k action) (· = bootKernel l) k trace) (s : Slot) (t : Tid)
    (call : ThreadCall) (memory : call.onMemory = true) (denials : List Bool)
    (gentle : Gentle k { call := .thread s t call, denials }) {after : Kernel} {events : List Event}
    (stepped : step l k { call := .thread s t call, denials } = some (after, events)) : Harmless k after s events := by
  have kept := (reached_kept (reached.weaken fun _ _ _ gentle => gentle.1)).1
  have ready := kept.prepare denials
  unfold step at stepped
  simp only at stepped
  split at stepped
  · simp at stepped
  split at stepped
  · simp at stepped
  split at stepped
  · simp at stepped
  rename_i running _
  rw [not_or, not_not, Bool.not_eq_false] at running
  obtain ⟨next, emitted, done, harmless⟩ := operate_harmless ready running.2 memory (gentle.2 s t call rfl)
  have result : operate l { k with memory := { k.memory with denials := denials } } s t call = .ok (next, emitted) := done
  rw [result, settle, Option.some.injEq, Prod.mk.injEq] at stepped
  obtain ⟨rfl, rfl⟩ := stepped
  exact ⟨harmless.calm, harmless.stays, harmless.freed, harmless.read, harmless.written⟩

/-- A loaded program maps one page at an address. -/
def mmapCall (start : BitVec 64) : Action := firstThread (.mmap start 4096 3)

/-- The first program is loaded. -/
def loadRun : List Action := [{ call := .loadInitApp 1 true, denials := [] }]

/-- A program maps a page far above its own pages. -/
theorem user_calls_harmless_run : ∃ k trace after events,
    Reaches (step (smallLayout 12)) (fun k _ action => Gentle k action) (· = bootKernel (smallLayout 12)) k trace ∧
      step (smallLayout 12) k (mmapCall 0x100000) = some (after, events) ∧ events = [.returned 0] ∧ Harmless k after 0 events := by
  obtain ⟨k, trace, reached, mapped⟩ := replay_witness (step (smallLayout 12))
    (fun _ _ action => action.call = .loadInitApp 1 true) (· = bootKernel (smallLayout 12)) loadRun
    (bootKernel (smallLayout 12)) rfl
    (fun k _ => ((step (smallLayout 12) k (mmapCall 0x100000)).map Prod.snd) = some [.returned 0]) (by decide +kernel)
  have tamed : Reaches (step (smallLayout 12)) (fun k _ action => Gentle k action) (· = bootKernel (smallLayout 12)) k trace := by
    apply reached.weaken
    intro k trace action loads
    refine ⟨by rw [fed, loads], fun s t call made => ?_⟩
    rw [loads] at made
    simp at made
  rw [decide_eq_true_eq, Option.map_eq_some_iff] at mapped
  obtain ⟨⟨after, events⟩, stepped, returned⟩ := mapped
  have gentle : Gentle k (mmapCall 0x100000) := by
    refine ⟨rfl, fun s t call made => ?_⟩
    obtain ⟨rfl, rfl, rfl⟩ := Call.thread.inj made
    exact fun _ => Or.inl (by decide)
  exact ⟨k, trace, after, events, tamed, stepped, returned,
    user_calls_harmless (smallLayout 12) tamed 0 0 (.mmap 0x100000 4096 3) rfl [] gentle stepped⟩

/-- The address 2^38 is `MAXVA`. -/
def traceCall : Action := firstThread (.trace 0 0x4000000000 0)

/-- A program that traces an address from `MAXVA` on stops the kernel. -/
theorem trace_panics : ∃ k trace after events,
    Reaches (step (smallLayout 12)) (fun k _ action => fed k action = true) (· = bootKernel (smallLayout 12)) k trace ∧
      step (smallLayout 12) k traceCall = some (after, events) ∧ ¬Harmless k after 0 events := by
  obtain ⟨k, trace, reached, panicked⟩ := replay_witness (step (smallLayout 12)) (fun k _ action => fed k action = true)
    (· = bootKernel (smallLayout 12)) loadRun (bootKernel (smallLayout 12)) rfl
    (fun k _ => ((step (smallLayout 12) k traceCall).map Prod.snd) = some [.panicked "walk"]) (by decide +kernel)
  rw [decide_eq_true_eq, Option.map_eq_some_iff] at panicked
  obtain ⟨⟨after, events⟩, stepped, message⟩ := panicked
  refine ⟨k, trace, after, events, reached, stepped, fun harmless => ?_⟩
  apply harmless.calm "walk"
  change events = [.panicked "walk"] at message
  rw [message]
  exact List.mem_singleton.mpr rfl

end BtbuOs.Vm
