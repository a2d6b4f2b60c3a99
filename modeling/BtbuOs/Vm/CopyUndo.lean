import BtbuOs.Vm.CopyRange
import BtbuOs.Vm.Fork
import BtbuOs.Vm.Teardown

namespace BtbuOs.Vm

open Machine Partition
open Sched (Slot)

variable {l : Layout} {m mid after : Memory} {b c : Bytes} {h : Holding} {s r : Slot} {root old page : Page} {vpn npages : Nat}

/-- The way out of `uvmcopy` at a failure. -/
def uvmcopyErr (l : Layout) (root : Page) (vpn : Nat) (m : Memory) (b : Bytes) : Except String (Attempt × Memory × Bytes) :=
  (unmapRangeBytes l root vpn 0 m b).map fun result => (.failed, result.1, result.2)

/-- The child has a fresh page for each page of the parent in the range, with equal flags and bytes, and no other one; nothing else
changes but the tables of the child. -/
structure Reproduced (l : Layout) (m after : Memory) (b c : Bytes) (h : Holding) (s r : Slot) (npages : Nat) : Prop where
  sound : Sound l after h
  valid : ∀ v, v < npages → (space after (h.roots s) v).valid = (space m (h.roots r) v).valid
  perm : ∀ v, v < npages → (space m (h.roots r) v).valid = true → (space after (h.roots s) v).perm = (space m (h.roots r) v).perm
  fresh : ∀ v, v < npages → (space m (h.roots r) v).valid = true → (space after (h.roots s) v).page ∈ m.free
  data : ∀ v, v < npages → (space m (h.roots r) v).valid = true →
    c (space after (h.roots s) v).page = b (space m (h.roots r) v).page
  distinct : ∀ v u, v < npages → u < npages → (space m (h.roots r) v).valid = true → (space m (h.roots r) u).valid = true →
    (space after (h.roots s) v).page = (space after (h.roots s) u).page → v = u
  spaces : ∀ q v, v < maxVpn → ¬(q = s ∧ v < npages) → space after (h.roots q) v = space m (h.roots q) v
  fewer : ∀ page, page ∈ after.free → page ∈ m.free
  bytes : ∀ page, page ∉ m.free → c page = b page

/-- The child has no page in the range, and each page that was free is free again, once, or has become a table of the child; no
translation of another process and no byte of a page in use changes. -/
structure Undone (l : Layout) (m after : Memory) (b c : Bytes) (h : Holding) (s : Slot) (npages : Nat) : Prop where
  sound : Sound l after h
  none : ∀ v, v < npages → (space after (h.roots s) v).valid = false
  spaces : ∀ q v, v < maxVpn → ¬(q = s ∧ v < npages) → space after (h.roots q) v = space m (h.roots q) v
  once : after.free.Nodup
  fewer : ∀ page, page ∈ after.free → page ∈ m.free
  spent : ∀ page, page ∈ m.free → page ∈ after.free ∨ ∃ path, path.length ≤ 2 ∧ node after (h.roots s) path = some page
  bytes : ∀ page, page ∉ m.free → c page = b page

namespace Copies

/-- Nothing has been copied. -/
theorem none (adds : Adds l m after h s (fun v => (space m (h.roots r) v).perm) fun _ => False)
    (bytes : ∀ page, page ∉ m.free → c page = b page) : Copies l m after b c h s r fun _ => False :=
  ⟨adds, fun _ none => none.elim, fun _ _ none => none.elim, bytes⟩

/-- One round of `uvmcopy` passes over a page, copies it, or leaves the loop. -/
theorem round (source : h.roots r = some old) (rooted : h.roots s = some root) (empty : h.hand = .none)
    (npages : Nat) (low : vpn < systemVpn) (before : Sound l m h) (b : Bytes) :
    ((space m (h.roots r) vpn).valid = false ∧
      uvmcopyBytes l old (some root) (npages + 1) vpn m b = uvmcopyBytes l old (some root) npages (vpn + 1) m b) ∨
    ((space m (h.roots r) vpn).valid = true ∧ ∃ mid c, Copies l m mid b c h s r (· = vpn) ∧
      uvmcopyBytes l old (some root) (npages + 1) vpn m b = uvmcopyBytes l old (some root) npages (vpn + 1) mid c) ∨
    ∃ mid c, Copies l m mid b c h s r (fun _ => False) ∧
      uvmcopyBytes l old (some root) (npages + 1) vpn m b = uvmcopyErr l root vpn mid c := by
  have inside : vpn < maxVpn := Nat.lt_of_lt_of_le low (by decide)
  rw [uvmcopyBytes, walk_peek m old inside, ← source]
  cases place : node m (h.roots r) (tablePath vpn) with
  | none => exact Or.inl ⟨by rw [space_absent place]; rfl, rfl⟩
  | some table =>
      have entry := space_held place
      cases valid : (m.entry table (px 0 vpn)).valid with
      | false => exact Or.inl ⟨by rw [entry]; exact valid, by simp [bind, Except.bind, valid]⟩
      | true =>
          have present : (space m (h.roots r) vpn).valid = true := by rw [entry]; exact valid
          have user := before.user_below inside low present
          have leaf : (space m (h.roots r) vpn).perm.leaf = true := by
            have fits := before.leaves r (px 0 vpn) (tablePath vpn) rfl
            rw [vpnOf_path inside, ← space] at fits
            exact (fits present).1
          obtain ⟨⟨found, mid⟩, alloc⟩ : ∃ result, kalloc m = result := ⟨_, rfl⟩
          cases found with
          | none =>
              refine Or.inr (Or.inr ⟨mid, b, none (.denied before alloc) fun _ _ => rfl, ?_⟩)
              simp only [bind, Except.bind, valid, Bool.not_true, Bool.false_eq_true, if_false, alloc, uvmcopyErr]
              cases unmapRangeBytes l root vpn 0 mid b with
              | error message => rfl
              | ok result => rfl
          | some page =>
              have listed : page ∈ m.free := by
                rw [(kalloc_some alloc).1]
                exact List.mem_cons_self
              obtain ⟨⟨mapped, next⟩, mapping⟩ := mapPage_total mid root page (space m (h.roots r) vpn).perm inside
              cases mapped with
              | true =>
                  have copied := single (b := b) before rooted empty present user leaf alloc mapping
                  rw [entry] at mapping copied
                  refine Or.inr (Or.inl ⟨present, next, _, copied, ?_⟩)
                  simp only [bind, Except.bind, valid, Bool.not_true, Bool.false_eq_true, if_false, alloc, mapping, if_true]
              | false =>
                  have managed : Managed l page := before.owned.freeManaged page listed
                  obtain ⟨freed, given⟩ := kfree_total next managed
                  refine Or.inr (Or.inr ⟨freed, kfreeBytes next ((b.memset page 5).memmove page (space m (h.roots r) vpn).page) page,
                    none (.refused before rooted empty alloc mapping given) fun known taken => ?_, ?_⟩)
                  · have different : known ≠ page := fun same => taken (same ▸ listed)
                    rw [kfreeBytes_other _ _ _ different, Bytes.memmove_other _ _ _ different, Bytes.memset_other _ _ _ different]
                  · rw [entry] at mapping
                    rw [entry]
                    simp only [bind, Except.bind, valid, Bool.not_true, Bool.false_eq_true, if_false, alloc, mapping, given, uvmcopyErr]
                    cases unmapRangeBytes l root vpn 0 freed _ with
                    | error message => rfl
                    | ok result => rfl

/-- The pages of the source in a part of the range. -/
def part (m : Memory) (h : Holding) (r : Slot) (vpn count v : Nat) : Prop :=
  vpn ≤ v ∧ v < vpn + count ∧ (space m (h.roots r) v).valid = true

/-- The loop of `uvmcopy` copies all pages of its range, or those before the page of its first failure. -/
theorem outcome (source : h.roots r = some old) (rooted : h.roots s = some root) (other : r ≠ s) (empty : h.hand = .none)
    (npages : Nat) (low : vpn + npages ≤ systemVpn) (before : Sound l m h) (b : Bytes) :
    (∃ after c, Copies l m after b c h s r (part m h r vpn npages) ∧
      uvmcopyBytes l old (some root) npages vpn m b = .ok (.done, after, c)) ∨
    ∃ count mid c, count < npages ∧ Copies l m mid b c h s r (part m h r vpn count) ∧
      uvmcopyBytes l old (some root) npages vpn m b = uvmcopyErr l root (vpn + count) mid c := by
  induction npages generalizing vpn m b with
  | zero =>
      refine Or.inl ⟨m, b, (nothing before b).congr fun v => ⟨fun here => ?_, fun none => none.elim⟩, rfl⟩
      have bounds := here.1
      have limit := here.2.1
      omega
  | succ npages ih =>
      rcases round source rooted empty npages (by omega : vpn < systemVpn) before b with
        ⟨invalid, same⟩ | ⟨valid, mid, d, first, same⟩ | ⟨mid, d, nothing, same⟩
      · -- the page is not mapped, so that the later pages are all
        have skip (count : Nat) (v : Nat) : part m h r vpn (count + 1) v ↔ part m h r (vpn + 1) count v := by
          constructor
          · rintro ⟨least, most, present⟩
            have later : v ≠ vpn := by
              rintro rfl
              rw [invalid] at present
              exact Bool.false_ne_true present
            exact ⟨by omega, by omega, present⟩
          · rintro ⟨least, most, present⟩
            exact ⟨by omega, by omega, present⟩
        rw [same]
        rcases ih (by omega : vpn + 1 + npages ≤ systemVpn) before b with ⟨after, c, copies, ran⟩ | ⟨count, mid, c, short, copies, ran⟩
        · exact Or.inl ⟨after, c, copies.congr (skip npages), ran⟩
        · exact Or.inr ⟨count + 1, mid, c, by omega, copies.congr (skip count), by rw [ran, Nat.add_right_comm, Nat.add_assoc]⟩
      · have also (count : Nat) (bound : count ≤ npages) (v : Nat) :
            part m h r vpn (count + 1) v ↔ v = vpn ∨ part mid h r (vpn + 1) count v := by
          have limit : systemVpn ≤ maxVpn := by decide
          constructor
          · rintro ⟨least, most, present⟩
            by_cases here : v = vpn
            · exact Or.inl here
            · refine Or.inr ⟨by omega, by omega, ?_⟩
              rwa [first.origin other (by omega : v < maxVpn)]
          · rintro (rfl | ⟨least, most, present⟩)
            · exact ⟨Nat.le_refl v, by omega, valid⟩
            · rw [first.origin other (by omega : v < maxVpn)] at present
              exact ⟨by omega, by omega, present⟩
        rw [same]
        rcases ih (by omega : vpn + 1 + npages ≤ systemVpn) first.sound d with ⟨after, c, copies, ran⟩ | ⟨count, mid, c, short, copies, ran⟩
        · exact Or.inl ⟨after, c, (first.trans before other copies).congr (also npages (Nat.le_refl npages)), ran⟩
        · refine Or.inr ⟨count + 1, mid, c, by omega, (first.trans before other copies).congr (also count (by omega)), ?_⟩
          rw [ran, Nat.add_right_comm, Nat.add_assoc]
      · refine Or.inr ⟨0, mid, d, Nat.succ_pos npages, nothing.congr fun v => ⟨fun here => ?_, fun none => none.elim⟩, same⟩
        have bounds := here.1
        have limit := here.2.1
        omega

/-- A copy that has completed is complete. -/
theorem reproduced (copies : Copies l m after b c h s r (part m h r 0 npages)) (low : npages ≤ systemVpn)
    (vacant : ∀ v, v < npages → (space m (h.roots s) v).valid = false) : Reproduced l m after b c h s r npages := by
  have limit : systemVpn ≤ maxVpn := by decide
  have listed (v : Nat) (inside : v < npages) (valid : (space m (h.roots r) v).valid = true) : part m h r 0 npages v :=
    ⟨Nat.zero_le v, by omega, valid⟩
  have entry (v : Nat) (inside : v < npages) (valid : (space m (h.roots r) v).valid = true) :
      ∃ page, space after (h.roots s) v = { valid := true, perm := (space m (h.roots r) v).perm, page } ∧ page ∈ m.free :=
    copies.fresh v (listed v inside valid)
  have mine (v : Nat) (inside : v < npages) (valid : (space m (h.roots r) v).valid = true) :
      userPage (space after (h.roots s) v) = some (space after (h.roots s) v).page := by
    obtain ⟨page, same, -⟩ := entry v inside valid
    have user := copies.sound.user_below (s := s) (by omega : v < maxVpn) (by omega) (by rw [same])
    have flags : (space m (h.roots r) v).perm.u = true := by rwa [same] at user
    rw [same]
    simp only [userPage, flags, Bool.and_self, if_true]
  constructor
  · exact copies.sound
  · intro v inside
    cases valid : (space m (h.roots r) v).valid with
    | true =>
        obtain ⟨page, same, -⟩ := entry v inside valid
        rw [same]
    | false =>
        rw [copies.toAdds.space (by omega) fun here => Bool.false_ne_true (valid.symm.trans here.2.2)]
        exact vacant v inside
  · intro v inside valid
    obtain ⟨page, same, -⟩ := entry v inside valid
    rw [same]
  · intro v inside valid
    obtain ⟨page, same, free⟩ := entry v inside valid
    rw [same]
    exact free
  · intro v inside valid
    exact copies.data v _ (listed v inside valid) (mine v inside valid)
  · intro v u inside insideOther valid validOther same
    refine copies.sound.distinct (by omega) (by omega) (mine v inside valid) ?_
    rw [same]
    exact mine u insideOther validOther
  · intro q v inside away
    exact copies.touched.space q inside fun both => away ⟨both.1, by have below := both.2.2.1; omega⟩
  · exact copies.fewer
  · exact copies.bytes

/-- What has been copied before a failure is undone. -/
theorem undone {count : Nat} (rooted : h.roots s = some root) (before : Sound l m h) (short : count < npages)
    (low : npages ≤ systemVpn) (vacant : ∀ v, v < npages → (space m (h.roots s) v).valid = false)
    (copies : Copies l m mid b c h s r (part m h r 0 count)) :
    ∃ after d, uvmcopyErr l root count mid c = .ok (.failed, after, d) ∧ Undone l m after b d h s npages := by
  have limit : systemVpn ≤ maxVpn := by decide
  obtain ⟨after, ran⟩ : ∃ after, unmapRange l root true count 0 mid = .ok after :=
    unmapRange_clears rooted count copies.sound (by omega) fun v _ high valid => copies.sound.user_below (by omega) (by omega) valid
  obtain ⟨last, d, done⟩ := unmapRangeBytes_total c ran
  have same : last = after := by
    have forget := unmapRangeBytes_forget l root count 0 mid c
    rw [done, ran] at forget
    exact Except.ok.inj forget
  rw [same] at done
  have sound := (unmapRange_frees rooted count copies.sound ran).sound
  have cleared := unmapRange_touched rooted count copies.sound ran
  have touched : Touched m after h.roots s fun v => v < npages :=
    (copies.touched.mono fun v here => by have below := here.2.1; omega).trans (cleared.mono fun v here => by omega)
  have gone (v : Nat) (inside : v < npages) : (space after (h.roots s) v).valid = false := by
    by_cases early : v < count
    · exact unmapRange_invalid rooted count copies.sound ran (Nat.zero_le v) (by omega)
    · rw [cleared.space s (by omega) fun both => by have below := both.2.2; omega,
        copies.toAdds.space (by omega) fun here => by have below := here.2.1; omega]
      exact vacant v inside
  have fewer (page : Page) (listed : page ∈ after.free) : page ∈ m.free := touched.fewer before sound (fun v inside => vacant v inside) listed
  refine ⟨after, d, by rw [uvmcopyErr, done]; rfl, ⟨sound, gone, fun q v inside away => ?_, sound.owned.nodup, fewer, fun page listed => ?_,
    fun page taken => ?_⟩⟩
  · exact touched.space q inside away
  · rcases touched.spent before sound listed with free | ⟨v, inside, mine⟩ | table
    · exact Or.inl free
    · rw [userPage_invalid (gone v inside)] at mine
      exact absurd mine (by simp)
    · exact Or.inr table
  · rw [(unmapRangeBytes_kept count done fun listed => taken (fewer page listed)).2]
    exact copies.bytes page taken

end Copies

/-- `uvmcopy` to a page table without pages in the range returns: it has reproduced the range of the source, or nothing of it is left. -/
theorem uvmcopy_undone (source : h.roots r = some old) (rooted : h.roots s = some root) (other : r ≠ s) (empty : h.hand = none)
    (low : npages ≤ systemVpn) (before : Sound l m h) (vacant : ∀ v, v < npages → (space m (h.roots s) v).valid = false) (b : Bytes) :
    ∃ result after c, uvmcopyBytes l old (some root) npages 0 m b = .ok (result, after, c) ∧
      (result = .done ∧ Reproduced l m after b c h s r npages ∨ result = .failed ∧ Undone l m after b c h s npages) := by
  rcases Copies.outcome source rooted other empty npages (by omega : 0 + npages ≤ systemVpn) before b with ⟨after, c, copies, ran⟩ | ⟨count, mid, c, short, copies, ran⟩
  · exact ⟨.done, after, c, ran, Or.inl ⟨rfl, copies.reproduced low vacant⟩⟩
  · rw [Nat.zero_add] at ran
    obtain ⟨after, d, done, undone⟩ := copies.undone rooted before short low vacant
    exact ⟨.failed, after, d, ran.trans done, Or.inr ⟨rfl, undone⟩⟩

/-- Three pages are left for the copy of five: two of them become tables, and the third one comes back. -/
theorem uvmcopy_undone_run : ∃ k trace np first old root after c,
    Reaches (step (smallLayout 14)) (fun k _ action => fed k action = true) (· = bootKernel (smallLayout 14)) k trace ∧
      allocproc (smallLayout 14) k = .ok (some np, first) ∧ (first.pool 0).pagetable = some old ∧ (first.pool np).pagetable = some root ∧
      uvmcopyBytes (smallLayout 14) old (some root) 5 0 first.memory blankBytes = .ok (.failed, after, c) ∧
      Undone (smallLayout 14) first.memory after blankBytes c first.holding np 5 := by
  obtain ⟨k, trace, reached, test⟩ := replay_witness (step (smallLayout 14)) (fun k _ action => fed k action = true)
    (· = bootKernel (smallLayout 14)) loadTwoPages (bootKernel (smallLayout 14)) rfl
    (fun k _ => (allocproc (smallLayout 14) k).toOption.any fun made => made.1.any fun np => (made.2.pool 0).pagetable.any fun old =>
      (made.2.pool np).pagetable.any fun root => decide (0 ≠ np) && (List.range 5).all (fun v => !(space made.2.memory (some root) v).valid) &&
        decide ((uvmcopyBytes (smallLayout 14) old (some root) 5 0 made.2.memory blankBytes).toOption.map Prod.fst = some .failed))
    (by decide +kernel)
  simp only [Option.any_eq_true, Bool.and_eq_true, decide_eq_true_eq, List.all_eq_true, List.mem_range, Bool.not_eq_true'] at test
  obtain ⟨⟨slot, first⟩, made, np, taken, old, source, root, rooted, ⟨other, vacant⟩, failed⟩ := test
  obtain rfl : slot = some np := taken
  have created := toOption_some.mp made
  have sound := (allocproc_kept (reached_kept reached).1 created).1.sound
  obtain ⟨result, after, c, ran, outcome⟩ := uvmcopy_undone (h := first.holding) (s := np) (r := 0) source rooted other rfl
    (by decide : 5 ≤ systemVpn) sound (by rw [show first.holding.roots np = some root from rooted]; exact vacant) blankBytes
  rw [ran] at failed
  obtain rfl : result = .failed := Option.some.inj failed
  obtain ⟨-, undone⟩ := outcome.resolve_left fun done => absurd done.1 (by decide)
  exact ⟨k, trace, np, first, old, root, after, c, reached, created, source, rooted, ran, undone⟩

end BtbuOs.Vm
