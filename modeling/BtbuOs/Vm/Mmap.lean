import BtbuOs.Vm.Additions
import BtbuOs.Vm.Refinement

namespace BtbuOs.Vm

open Machine Partition
open Sched (Slot)

/-- The mapping loop of `sys_mmap` with the bytes of the pages. -/
def mmapLoopBytes (l : Layout) (root : Page) (perm : Perm) : Nat → Nat → Memory → Bytes →
    Except String (Int × Memory × Bytes)
  | 0, _, m, b => .ok (0, m, b)
  | npages + 1, vpn, m, b =>
      match kalloc m with
      | (none, m) => .ok (-1, m, b)
      | (some page, m) => do
          let b := (b.memset page 5).memset page 0
          let (mapped, m) ← mapPage m root vpn page perm
          if mapped then mmapLoopBytes l root perm npages (vpn + 1) m b
          else
            let b := kfreeBytes m b page
            let m ← kfree l m page
            return (-1, m, b)

/-- `sys_mmap` with the bytes of the pages. -/
def sysMmapBytes (l : Layout) (k : Kernel) (b : Bytes) (s : Slot) (start len : BitVec 64) (prot : BitVec 32) :
    Except String (Kernel × Bytes × Int) :=
  match (k.pool s).pagetable with
  | none => .error "fault"
  | some root =>
      if start &&& 4095 ≠ 0 then .ok (k, b, -1)
      else if prot &&& ~~~7 ≠ 0 then .ok (k, b, -1)
      else if prot &&& 7 = 0 then .ok (k, b, -1)
      else if len = 0 then .ok (k, b, 0)
      else do
        let vpn := start.toNat / 4096
        let clear ← checkRange k.memory root false (rangeRounds start (roundUp len)) vpn
        if !clear then return (k, b, -1)
        else
          let perm := { r := prot.getLsbD 0, w := prot.getLsbD 1, x := prot.getLsbD 2, u := true }
          let (value, m, b) ← mmapLoopBytes l root perm (roundUp len) vpn k.memory b
          return ({ k with memory := m }, b, value)

/-- The loop without the bytes is the one of the kernel. -/
theorem mmapLoopBytes_forget (l : Layout) (root : Page) (perm : Perm) (npages vpn : Nat) (m : Memory) (b : Bytes) :
    (mmapLoopBytes l root perm npages vpn m b).map (fun result => (result.1, result.2.1)) =
      mmapLoop l root perm npages vpn m := by
  induction npages generalizing vpn m b with
  | zero => rfl
  | succ npages ih =>
      rw [mmapLoopBytes, mmapLoop]
      obtain ⟨⟨found, mid⟩, alloc⟩ : ∃ result, kalloc m = result := ⟨_, rfl⟩
      rw [alloc]
      cases found with
      | none => rfl
      | some page =>
          simp only
          cases mapping : mapPage mid root vpn page perm with
          | error message => rfl
          | ok result =>
              obtain ⟨mapped, next⟩ := result
              cases mapped with
              | true => exact ih (vpn + 1) next _
              | false =>
                  simp only [bind, Except.bind, Bool.false_eq_true, if_false]
                  cases kfree l next page with
                  | error message => rfl
                  | ok freed => rfl

/-- Without the bytes the call is the one of the kernel. -/
theorem sysMmapBytes_forget (l : Layout) (k : Kernel) (b : Bytes) (s : Slot) (start len : BitVec 64) (prot : BitVec 32) :
    (sysMmapBytes l k b s start len prot).map (fun result => (result.1, [Event.returned result.2.2])) =
      sysMmap l k s start len prot := by
  unfold sysMmapBytes sysMmap
  cases (k.pool s).pagetable with
  | none => rfl
  | some root =>
      simp only
      split_ifs
      · rfl
      · rfl
      · rfl
      · rfl
      · cases checkRange k.memory root false (rangeRounds start (roundUp len)) (start.toNat / 4096) with
        | error message => rfl
        | ok clear =>
            cases clear with
            | false => rfl
            | true =>
                rw [← mmapLoopBytes_forget l root _ _ _ _ b]
                simp only [bind, Except.bind, Bool.not_true, Bool.false_eq_true, if_false]
                cases mmapLoopBytes l root _ (roundUp len) (start.toNat / 4096) k.memory b with
                | error message => rfl
                | ok result => rfl

variable {l : Layout} {m mid after : Memory} {b c d : Bytes} {h : Holding} {s : Slot} {root page : Page} {perm : Perm}
  {vpn : Nat} {near far : Nat → Prop}

/-- Some page numbers of a process that were not mapped are mapped to pages from the free list full of zeros, and nothing
else changes but tables of the process. -/
structure MapsFresh (l : Layout) (m after : Memory) (b c : Bytes) (h : Holding) (s : Slot) (perm : Perm)
    (pages : Nat → Prop) : Prop extends Adds l m after h s (fun _ => perm) pages where
  zero : ∀ v page, pages v → userPage (space after (h.roots s) v) = some page → ∀ offset, c page offset = 0
  bytes : ∀ page, page ∉ m.free → c page = b page

namespace MapsFresh

/-- The pages are filled with zeros. -/
theorem fills {pages : Nat → Prop} (fresh : MapsFresh l m after b c h s perm pages) :
    Fills l m after b c h s (fun _ => perm) (fun _ data => ∀ offset, data offset = 0) pages :=
  ⟨fresh.toAdds, fresh.zero, fresh.bytes⟩

theorem of_fills {pages : Nat → Prop}
    (fills : Fills l m after b c h s (fun _ => perm) (fun _ data => ∀ offset, data offset = 0) pages) :
    MapsFresh l m after b c h s perm pages :=
  ⟨fills.toAdds, fills.data, fills.bytes⟩

theorem nothing (adds : Adds l m after h s (fun _ => perm) fun _ => False) (bytes : ∀ page, page ∉ m.free → c page = b page) :
    MapsFresh l m after b c h s perm fun _ => False :=
  of_fills (.nothing adds bytes)

theorem trans (first : MapsFresh l m mid b c h s perm near) (second : MapsFresh l mid after c d h s perm far) :
    MapsFresh l m after b d h s perm fun v => near v ∨ far v :=
  of_fills (first.fills.trans second.fills)

theorem congr {pages : Nat → Prop} (fresh : MapsFresh l m after b c h s perm near) (same : ∀ v, pages v ↔ near v) :
    MapsFresh l m after b c h s perm pages :=
  of_fills (fresh.fills.congr same)

/-- One page is allocated, cleared and mapped. -/
theorem single (before : Sound l m h) (rooted : h.roots s = some root) (empty : h.hand = none) (user : perm.u = true)
    (leaf : perm.leaf = true) (alloc : kalloc m = (some page, mid)) (done : mapPage mid root vpn page perm = .ok (true, after)) :
    MapsFresh l m after b ((b.memset page 5).memset page 0) h s perm (· = vpn) := by
  apply of_fills
  apply Fills.single (fun _ => perm) before rooted empty user leaf alloc done
  · intro offset
    exact Bytes.memset_self ..
  · intro known different
    rw [Bytes.memset_other _ _ _ different, Bytes.memset_other _ _ _ different]

/-- A page that cannot be mapped is freed again. -/
theorem refused {last : Memory} (before : Sound l m h) (rooted : h.roots s = some root) (empty : h.hand = none)
    (alloc : kalloc m = (some page, mid)) (done : mapPage mid root vpn page perm = .ok (false, after))
    (given : kfree l after page = .ok last) :
    MapsFresh l m last b (kfreeBytes after ((b.memset page 5).memset page 0) page) h s perm fun _ => False := by
  apply nothing (.refused before rooted empty alloc done given)
  intro known taken
  have different : known ≠ page := by
    rintro rfl
    rw [(kalloc_some alloc).1] at taken
    exact taken List.mem_cons_self
  rw [kfreeBytes_other _ _ _ different, Bytes.memset_other _ _ _ different, Bytes.memset_other _ _ _ different]

/-- The loop of `sys_mmap` maps the first pages of the range: all of them, or those before the first failure. -/
theorem loop (rooted : h.roots s = some root) (empty : h.hand = none) (user : perm.u = true) (leaf : perm.leaf = true)
    (npages : Nat) {value : Int} (before : Sound l m h)
    (done : mmapLoopBytes l root perm npages vpn m b = .ok (value, after, c)) :
    ∃ count, (value = 0 ∧ count = npages ∨ value = -1 ∧ count < npages) ∧
      MapsFresh l m after b c h s perm fun v => vpn ≤ v ∧ v < vpn + count := by
  induction npages generalizing vpn m b with
  | zero =>
      simp only [mmapLoopBytes, Except.ok.injEq, Prod.mk.injEq] at done
      obtain ⟨rfl, rfl, rfl⟩ := done
      refine ⟨0, Or.inl ⟨rfl, rfl⟩, ?_⟩
      apply (nothing (.nothing before (.refl m h.roots s _) fun _ listed => listed) fun _ _ => rfl).congr
      exact fun v => ⟨fun here => by omega, fun none => none.elim⟩
  | succ npages ih =>
      rw [mmapLoopBytes] at done
      have stops {fin : Memory} {e : Bytes} (none : MapsFresh l m fin b e h s perm fun _ => False) :
          MapsFresh l m fin b e h s perm fun v => vpn ≤ v ∧ v < vpn + 0 :=
        none.congr fun v => ⟨fun here => by omega, fun none => none.elim⟩
      split at done
      · rename_i mid alloc
        simp only [Except.ok.injEq, Prod.mk.injEq] at done
        obtain ⟨rfl, rfl, rfl⟩ := done
        exact ⟨0, Or.inr ⟨rfl, Nat.succ_pos npages⟩, stops (nothing (.denied before alloc) fun _ _ => rfl)⟩
      · rename_i page mid alloc
        obtain ⟨⟨mapped, next⟩, mapping, rest⟩ := bind_ok.mp done
        cases mapped with
        | false =>
            obtain ⟨last, given, result⟩ := bind_ok.mp rest
            simp only [pure, Except.pure, Except.ok.injEq, Prod.mk.injEq] at result
            obtain ⟨rfl, rfl, rfl⟩ := result
            exact ⟨0, Or.inr ⟨rfl, Nat.succ_pos npages⟩, stops (refused before rooted empty alloc mapping given)⟩
        | true =>
            have first := MapsFresh.single (b := b) before rooted empty user leaf alloc mapping
            obtain ⟨count, outcome, later⟩ := ih first.sound rest
            refine ⟨count + 1, ?_, (first.trans later).congr fun v => ?_⟩
            · rcases outcome with ⟨zero, all⟩ | ⟨failed, some⟩
              · exact Or.inl ⟨zero, by omega⟩
              · exact Or.inr ⟨failed, by omega⟩
            · omega

end MapsFresh

end BtbuOs.Vm
