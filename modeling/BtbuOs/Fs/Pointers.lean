import BtbuOs.Lib.Ownership
import BtbuOs.Fs.Volume

namespace BtbuOs.Fs

open Bytes Ownership State

/-- No two entries have the same inode in memory. -/
def Unique (s : State) : Prop :=
  ∀ ip iq, 0 < (s.itable ip).ref → 0 < (s.itable iq).ref → (s.itable ip).inum = (s.itable iq).inum → ip = iq

section Addr

variable {sb : Superblock} {s after : State} {ip : InodeIx} {i j k : Nat}

theorem addr_live (sb : Superblock) (unique : Unique s) (live : Live s ip i) (k : Nat) : addr sb s i k = (s.itable ip).addrs k := by
  cases search : (List.finRange ninode).find? fun ip => Live s ip i with
  | none =>
      have absent := List.find?_eq_none.mp search ip (List.mem_finRange ip)
      simp [live] at absent
  | some iq =>
      have found := List.find?_some search
      rw [decide_eq_true_eq] at found
      have same := unique iq ip found.1 live.1 (found.2.2.trans live.2.2.symm)
      rw [addr, search, same]

theorem addr_idle (idle : ∀ ip, ¬Live s ip i) (k : Nat) : addr sb s i k = (dinode sb s i).addrs k := by
  have search : (List.finRange ninode).find? (fun ip => Live s ip i) = none :=
    List.find?_eq_none.mpr fun ip _ => by simp [idle ip]
  rw [addr, search]

theorem live_or_idle (s : State) (i : Nat) : (∃ ip, Live s ip i) ∨ ∀ ip, ¬Live s ip i := by
  by_cases some : ∃ ip, Live s ip i
  · exact Or.inl some
  · exact Or.inr fun ip live => some ⟨ip, live⟩

theorem pointer_slot (inside : i < sb.ninodes) (slot : k ≤ ndirect) : pointer sb s (i, k) = addr sb s i k := by
  have small : k ≤ maxfile := Nat.le_trans slot (by decide)
  rw [pointer, if_pos ⟨inside, small⟩, if_pos slot]

theorem pointer_entry (inside : i < sb.ninodes) (small : j < nindirect) :
    pointer sb s (i, ndirect + 1 + j) = entry sb s i j := by
  have last : nindirect = 256 := rfl
  have first : ndirect = 12 := rfl
  have whole : maxfile = 268 := rfl
  rw [pointer, if_pos ⟨inside, by omega⟩, if_neg (by omega), Nat.add_sub_cancel_left]

/-- A place with a block is a slot or an entry of an inode. -/
theorem place_cases {p : Place} (nonzero : pointer sb s p ≠ 0) :
    (∃ i k, i < sb.ninodes ∧ k ≤ ndirect ∧ p = (i, k)) ∨
      ∃ i j, i < sb.ninodes ∧ j < nindirect ∧ p = (i, ndirect + 1 + j) := by
  have last : nindirect = 256 := rfl
  have first : ndirect = 12 := rfl
  have whole : maxfile = 268 := rfl
  obtain ⟨i, k⟩ := p
  unfold pointer at nonzero
  split at nonzero
  · rename_i inside
    simp only at inside
    by_cases slot : k ≤ ndirect
    · exact Or.inl ⟨i, k, inside.1, slot, rfl⟩
    · have place : k = ndirect + 1 + (k - (ndirect + 1)) := by omega
      exact Or.inr ⟨i, k - (ndirect + 1), inside.1, by omega, by rw [← place]⟩
  · contradiction

/-- A state refers to no more blocks than another one when its slots do not and the indirect blocks stay. -/
theorem pointer_shrink (slots : ∀ i, i < sb.ninodes → ∀ k, k ≤ ndirect → addr sb after i k ≠ 0 → addr sb after i k = addr sb s i k)
    (blocks : ∀ i, i < sb.ninodes → addr sb s i ndirect ≠ 0 →
      ∀ j, word (after.bread (addr sb s i ndirect)) j = word (s.bread (addr sb s i ndirect)) j) {p : Place}
    (nonzero : pointer sb after p ≠ 0) : pointer sb after p = pointer sb s p := by
  rcases place_cases nonzero with ⟨i, k, inside, slot, rfl⟩ | ⟨i, j, inside, small, rfl⟩
  · rw [pointer_slot inside slot] at nonzero ⊢
    rw [pointer_slot inside slot]
    exact slots i inside k slot nonzero
  · rw [pointer_entry inside small] at nonzero ⊢
    rw [pointer_entry inside small]
    unfold entry at nonzero ⊢
    split at nonzero
    · contradiction
    · rename_i table
      have same := slots i inside ndirect (Nat.le_refl _) table
      rw [if_neg table, if_neg (same ▸ table), same]
      exact blocks i inside (same ▸ table) j

/-- The pointers of two states agree when their slots and the blocks behind the indirect pointers do. -/
theorem pointer_congr (slots : ∀ i, i < sb.ninodes → ∀ k, k ≤ ndirect → addr sb after i k = addr sb s i k)
    (blocks : ∀ i, i < sb.ninodes → addr sb s i ndirect ≠ 0 →
      ∀ j, word (after.bread (addr sb s i ndirect)) j = word (s.bread (addr sb s i ndirect)) j) (p : Place) :
    pointer sb after p = pointer sb s p := by
  unfold pointer
  split
  · rename_i inside
    split
    · rename_i low
      exact slots p.1 inside.1 p.2 low
    · unfold entry
      rw [slots p.1 inside.1 ndirect (Nat.le_refl _)]
      split
      · rfl
      · rename_i table
        exact blocks p.1 inside.1 table _
  · rfl

end Addr

/-- Every block belongs to one place, a copy in memory refers to all that its inode on the disk refers to, no pointer is unwritten, and no call of `balloc` returned a block with a reference. -/
structure Sound (sb : Superblock) (s : State) : Prop where
  valid : sb.Valid
  unique : Unique s
  inside : ∀ ip i, Live s ip i → i < sb.ninodes
  synced : ∀ ip i, Live s ip i → ∀ k, k ≤ ndirect → (dinode sb s i).addrs k ≠ 0 →
    (dinode sb s i).addrs k = (s.itable ip).addrs k
  owned : Owned (dataStart sb) sb.size (inUse sb s) (pointer sb s)
  metadata : ∀ b, b < dataStart sb → s.unwritten b = none
  tables : ∀ i, i < sb.ninodes → addr sb s i ndirect ≠ 0 → s.unwritten (addr sb s i ndirect) = none
  fresh : ∀ call ∈ s.taken, ∀ p, call.1 p ≠ call.2

section Steps

variable {sb : Superblock} {s after : State} {ip : InodeIx} {i j k b : Nat} {data : Memory}

theorem Sound.addr_below (sound : Sound sb s) (inside : i < sb.ninodes) (slot : k ≤ ndirect) (nonzero : addr sb s i k ≠ 0) :
    dataStart sb ≤ addr sb s i k ∧ addr sb s i k < sb.size := by
  rw [← pointer_slot inside slot] at nonzero ⊢
  exact ⟨sound.owned.above _ nonzero, sound.owned.below _ nonzero⟩

/-- Fewer copies in memory, with the same addresses, refer to fewer blocks. -/
theorem Sound.relabel (sound : Sound sb s) (disk : after.disk = s.disk) (unwritten : after.unwritten = s.unwritten)
    (taken : after.taken = s.taken) (unique : Unique after)
    (fewer : ∀ ip i, Live after ip i → Live s ip i ∧ (after.itable ip).addrs = (s.itable ip).addrs) : Sound sb after := by
  have bread (b : Nat) : after.bread b = s.bread b := by rw [State.bread, State.bread, disk, unwritten]
  have dinodes (i : Nat) : dinode sb after i = dinode sb s i := dinode_congr (bread _)
  have slots (i k : Nat) (slot : k ≤ ndirect) (nonzero : addr sb after i k ≠ 0) : addr sb after i k = addr sb s i k := by
    rcases live_or_idle after i with ⟨ip, live⟩ | idle
    · rw [addr_live sb unique live, addr_live sb sound.unique (fewer ip i live).1, (fewer ip i live).2]
    · rw [addr_idle idle, dinodes] at nonzero ⊢
      rcases live_or_idle s i with ⟨ip, live⟩ | before
      · rw [addr_live sb sound.unique live]
        exact sound.synced ip i live k slot nonzero
      · rw [addr_idle before]
  constructor
  · exact sound.valid
  · exact unique
  · exact fun ip i live => sound.inside ip i (fewer ip i live).1
  · intro ip i live
    rw [dinodes, (fewer ip i live).2]
    exact sound.synced ip i (fewer ip i live).1
  · apply sound.owned.shrink
    · intro p nonzero
      apply pointer_shrink (fun i _ => slots i) _ nonzero
      intro i inside nonzero j
      rw [bread]
    · intro p _ marked
      rwa [inUse_congr (bread _)]
    · intro b _ _ marked
      rwa [inUse_congr (bread _)]
  · rw [unwritten]
    exact sound.metadata
  · intro i inside nonzero
    rw [unwritten, slots i ndirect (Nat.le_refl _) nonzero]
    rw [slots i ndirect (Nat.le_refl _) nonzero] at nonzero
    exact sound.tables i inside nonzero
  · rw [taken]
    exact sound.fresh

/-- A step keeps the slots when it changes an inode on the disk only behind its copy in memory. -/
theorem slots_keep (unique : Unique s) (itable : after.itable = s.itable)
    (disk : (∀ ip, ¬Live s ip i) → (dinode sb after i).addrs k = (dinode sb s i).addrs k) : addr sb after i k = addr sb s i k := by
  have live (ip : InodeIx) : Live after ip i ↔ Live s ip i := by rw [Live, Live, itable]
  have still : Unique after := by
    rw [Unique, itable]
    exact unique
  rcases live_or_idle s i with ⟨ip, held⟩ | idle
  · rw [addr_live sb still ((live ip).mpr held), addr_live sb unique held, itable]
  · rw [addr_idle fun ip held => idle ip ((live ip).mp held), addr_idle idle, disk idle]

/-- A step that adds no slot and keeps the marks and the indirect blocks keeps the invariant. -/
theorem Sound.keep (sound : Sound sb s) (itable : after.itable = s.itable)
    (disk : ∀ i, i < sb.ninodes → (∀ ip, ¬Live s ip i) → ∀ k, k ≤ ndirect → (dinode sb after i).addrs k ≠ 0 →
      (dinode sb after i).addrs k = (dinode sb s i).addrs k)
    (synced : ∀ ip i, Live s ip i → ∀ k, k ≤ ndirect → (dinode sb after i).addrs k ≠ 0 →
      (dinode sb after i).addrs k = (s.itable ip).addrs k)
    (marks : ∀ b, b < sb.size → inUse sb s b = true → inUse sb after b = true)
    (blocks : ∀ i, i < sb.ninodes → addr sb s i ndirect ≠ 0 →
      ∀ j, word (after.bread (addr sb s i ndirect)) j = word (s.bread (addr sb s i ndirect)) j)
    (metadata : ∀ b, b < dataStart sb → after.unwritten b = none)
    (tables : ∀ i, i < sb.ninodes → addr sb s i ndirect ≠ 0 → after.unwritten (addr sb s i ndirect) = none)
    (fresh : ∀ call ∈ after.taken, ∀ p, call.1 p ≠ call.2) : Sound sb after := by
  have live (ip : InodeIx) (i : Nat) : Live after ip i ↔ Live s ip i := by rw [Live, Live, itable]
  have unique : Unique after := by
    rw [Unique, itable]
    exact sound.unique
  have slots (i : Nat) (inside : i < sb.ninodes) (k : Nat) (slot : k ≤ ndirect) (nonzero : addr sb after i k ≠ 0) :
      addr sb after i k = addr sb s i k := by
    rcases live_or_idle s i with ⟨ip, held⟩ | idle
    · rw [addr_live sb unique ((live ip i).mpr held), addr_live sb sound.unique held, itable]
    · have still (ip : InodeIx) : ¬Live after ip i := fun held => idle ip ((live ip i).mp held)
      rw [addr_idle still] at nonzero ⊢
      rw [addr_idle idle]
      exact disk i inside idle k slot nonzero
  constructor
  · exact sound.valid
  · exact unique
  · exact fun ip i held => sound.inside ip i ((live ip i).mp held)
  · intro ip i held
    rw [itable]
    exact synced ip i ((live ip i).mp held)
  · have fewer (p : Place) (nonzero : pointer sb after p ≠ 0) := pointer_shrink slots blocks nonzero
    apply sound.owned.shrink fewer
    · intro p nonzero
      have below := sound.owned.below p (by rwa [fewer p nonzero] at nonzero)
      rw [← fewer p nonzero] at below
      exact marks _ below
    · exact fun b _ => marks b
  · exact metadata
  · intro i inside nonzero
    have same := slots i inside ndirect (Nat.le_refl _) nonzero
    rw [same] at nonzero ⊢
    exact tables i inside nonzero
  · exact fresh

/-- Two inodes with the same indirect block are the same. -/
theorem Sound.table_eq (sound : Sound sb s) (inside : i < sb.ninodes) (other : j < sb.ninodes) (nonzero : addr sb s i ndirect ≠ 0)
    (same : addr sb s i ndirect = addr sb s j ndirect) : i = j := by
  have first := pointer_slot (s := s) inside (Nat.le_refl ndirect)
  have second := pointer_slot (s := s) other (Nat.le_refl ndirect)
  have equal := sound.owned.apart (i, ndirect) (j, ndirect) (by rwa [first]) (by rw [first, second, same])
  exact (Prod.mk.inj equal).1

/-- No pointer changes with the data of a block that is not an indirect block. -/
theorem Sound.pointer_bwrite (sound : Sound sb s) (above : dataStart sb ≤ b)
    (plain : ∀ i, i < sb.ninodes → addr sb s i ndirect ≠ 0 → addr sb s i ndirect ≠ b) (data : Memory) (p : Place) :
    pointer sb (s.bwrite b data) p = pointer sb s p := by
  apply pointer_congr
  · intro i inside k _
    exact slots_keep sound.unique rfl fun _ => by rw [dinode_bwrite sound.valid s data inside above]
  · intro i inside nonzero j
    rw [bread_bwrite_of_ne s data (plain i inside nonzero)]

theorem Sound.pointer_spoil (sound : Sound sb s) (above : dataStart sb ≤ b)
    (plain : ∀ i, i < sb.ninodes → addr sb s i ndirect ≠ 0 → addr sb s i ndirect ≠ b) (data : Memory) (p : Place) :
    pointer sb (s.spoil b data) p = pointer sb s p := by
  apply pointer_congr
  · intro i inside k _
    exact slots_keep sound.unique rfl fun _ => by rw [dinode_spoil sound.valid s data inside above]
  · intro i inside nonzero j
    rw [bread_spoil_of_ne s data (plain i inside nonzero)]

/-- A block that is not the indirect block of an inode gets other data. -/
theorem Sound.bwrite (sound : Sound sb s) (above : dataStart sb ≤ b)
    (plain : ∀ i, i < sb.ninodes → addr sb s i ndirect ≠ 0 → addr sb s i ndirect ≠ b) (data : Memory) :
    Sound sb (s.bwrite b data) := by
  apply sound.keep
  · rfl
  · intro i inside _ k _ _
    rw [dinode_bwrite sound.valid s data inside above]
  · intro ip i live k slot
    rw [dinode_bwrite sound.valid s data (sound.inside ip i live) above]
    exact sound.synced ip i live k slot
  · intro x inside marked
    rwa [inUse_bwrite s data inside above]
  · intro i inside nonzero j
    rw [bread_bwrite_of_ne s data (plain i inside nonzero)]
  · exact fun x low => unwritten_bwrite s data (Or.inr (sound.metadata x low))
  · exact fun i inside nonzero => unwritten_bwrite s data (Or.inr (sound.tables i inside nonzero))
  · exact sound.fresh

theorem Sound.spoil (sound : Sound sb s) (above : dataStart sb ≤ b)
    (plain : ∀ i, i < sb.ninodes → addr sb s i ndirect ≠ 0 → addr sb s i ndirect ≠ b) (data : Memory) :
    Sound sb (s.spoil b data) := by
  apply sound.keep
  · rfl
  · intro i inside _ k _ _
    rw [dinode_spoil sound.valid s data inside above]
  · intro ip i live k slot
    rw [dinode_spoil sound.valid s data (sound.inside ip i live) above]
    exact sound.synced ip i live k slot
  · intro x inside marked
    rwa [inUse_spoil s data inside above]
  · intro i inside nonzero j
    rw [bread_spoil_of_ne s data (plain i inside nonzero)]
  · intro x low
    rw [unwritten_spoil s data (by omega)]
    exact sound.metadata x low
  · intro i inside nonzero
    rw [unwritten_spoil s data (plain i inside nonzero)]
    exact sound.tables i inside nonzero
  · exact sound.fresh

/-- No pointer is lost with a buffer that was not written. -/
theorem Sound.recycle (sound : Sound sb s) (b : Nat) : Sound sb (s.recycle b) := by
  have metadata (x : Nat) (low : x < dataStart sb) : (s.recycle b).bread x = s.bread x :=
    bread_recycle_of_written s b (sound.metadata x low)
  have between := bmapstart_lt sb
  have dinodes (i : Nat) (inside : i < sb.ninodes) : dinode sb (s.recycle b) i = dinode sb s i := by
    have below := iblock_lt sound.valid inside
    exact dinode_congr (metadata _ (by omega))
  apply sound.keep
  · rfl
  · intro i inside _ k _ _
    rw [dinodes i inside]
  · intro ip i live k slot
    rw [dinodes i (sound.inside ip i live)]
    exact sound.synced ip i live k slot
  · intro x inside marked
    rwa [inUse_congr (metadata _ (bblock_lt inside))]
  · intro i inside nonzero j
    rw [bread_recycle_of_written s b (sound.tables i inside nonzero)]
  · exact fun x low => unwritten_recycle s b (sound.metadata x low)
  · exact fun i inside nonzero => unwritten_recycle s b (sound.tables i inside nonzero)
  · exact sound.fresh

/-- The state after `balloc` has taken a block. -/
def allocated (sb : Superblock) (s : State) (b : Nat) : State := ((mark sb s b).bwrite b fun _ => 0).take (pointer sb s) b

/-- A block that no place refers to. -/
structure Spare (sb : Superblock) (s : State) (b : Nat) : Prop where
  above : dataStart sb ≤ b
  below : b < sb.size
  marked : inUse sb s b = true
  fresh : ∀ p, pointer sb s p ≠ b
  zero : s.bread b = fun _ => 0
  written : s.unwritten b = none

theorem balloc_cases {after : State} (done : balloc sb s = .ok (b, after)) :
    b < sb.size ∧ inUse sb s b = false ∧ after = allocated sb s b := by
  unfold balloc at done
  split at done
  · contradiction
  · rename_i x found
    cases done
    have free := List.find?_some found
    have member := List.mem_of_find?_eq_some found
    exact ⟨List.mem_range.mp member, by simpa using free, rfl⟩

/-- The block that is found is the first free one. -/
theorem balloc_first {after : State} (done : balloc sb s = .ok (b, after)) {x : Nat} (earlier : x < b) : inUse sb s x = true := by
  unfold balloc at done
  split at done
  · contradiction
  · rename_i y found
    cases done
    simpa using (List.find?_range_eq_some.mp found).2.2 x earlier

theorem itable_allocated (sb : Superblock) (s : State) (b : Nat) : (allocated sb s b).itable = s.itable := rfl

theorem inUse_allocated (above : dataStart sb ≤ b) {x : Nat} (inside : x < sb.size) :
    inUse sb (allocated sb s b) x = (decide (x = b) || inUse sb s x) := by
  show inUse sb ((mark sb s b).bwrite b fun _ => 0) x = _
  rw [inUse_bwrite _ _ inside above, inUse_mark]

theorem bread_allocated (inside : b < sb.size) {x : Nat} (above : dataStart sb ≤ x) (apart : x ≠ b) :
    (allocated sb s b).bread x = s.bread x := by
  rw [allocated, bread_take, bread_bwrite_of_ne _ _ apart, bread_mark s inside above]

theorem dinode_allocated (valid : sb.Valid) (above : dataStart sb ≤ b) (inside : i < sb.ninodes) :
    dinode sb (allocated sb s b) i = dinode sb s i := by
  show dinode sb ((mark sb s b).bwrite b fun _ => 0) i = _
  rw [dinode_bwrite valid _ _ inside above, dinode_mark valid s b inside]

theorem unwritten_allocated {x : Nat} (written : s.unwritten x = none) : (allocated sb s b).unwritten x = none :=
  unwritten_bwrite (mark sb s b) (fun _ => 0) (Or.inr (unwritten_bwrite s _ (Or.inr written)))

theorem Sound.addr_ne_of_free (sound : Sound sb s) (inside : i < sb.ninodes) (slot : k ≤ ndirect) (below : b < sb.size)
    (free : inUse sb s b = false) : addr sb s i k ≠ b := by
  rw [← pointer_slot inside slot]
  exact sound.owned.ne_of_free free below _

/-- A new block belongs to no place yet. -/
theorem Sound.allocated (sound : Sound sb s) (below : b < sb.size) (free : inUse sb s b = false) :
    Sound sb (allocated sb s b) ∧ Spare sb (Fs.allocated sb s b) b ∧ ∀ p, pointer sb (Fs.allocated sb s b) p = pointer sb s p := by
  have above := sound.owned.le_of_free free below
  have slots (i : Nat) (inside : i < sb.ninodes) (k : Nat) (_ : k ≤ ndirect) :
      addr sb (Fs.allocated sb s b) i k = addr sb s i k :=
    slots_keep sound.unique rfl fun _ => by rw [dinode_allocated sound.valid above inside]
  have blocks (i : Nat) (inside : i < sb.ninodes) (nonzero : addr sb s i ndirect ≠ 0) (j : Nat) :
      word ((Fs.allocated sb s b).bread (addr sb s i ndirect)) j = word (s.bread (addr sb s i ndirect)) j := by
    have place := sound.addr_below inside (Nat.le_refl ndirect) nonzero
    rw [bread_allocated below place.1 (sound.addr_ne_of_free inside (Nat.le_refl _) below free)]
  have pointers := pointer_congr slots blocks
  refine ⟨?_, ?_, pointers⟩
  · apply sound.keep
    · rfl
    · intro i inside _ k _ _
      rw [dinode_allocated sound.valid above inside]
    · intro ip i live k slot
      rw [dinode_allocated sound.valid above (sound.inside ip i live)]
      exact sound.synced ip i live k slot
    · intro x inside marked
      rw [inUse_allocated above inside, marked, Bool.or_true]
    · exact blocks
    · exact fun x low => unwritten_allocated (sound.metadata x low)
    · exact fun i inside nonzero => unwritten_allocated (sound.tables i inside nonzero)
    · intro call member p
      rcases List.mem_append.mp member with old | new
      · exact sound.fresh call old p
      · rw [List.mem_singleton.mp new]
        exact sound.owned.ne_of_free free below p
  · constructor
    · exact above
    · exact below
    · rw [inUse_allocated above below]
      simp
    · intro p
      rw [pointers]
      exact sound.owned.ne_of_free free below p
    · exact bread_bwrite (mark sb s b) b _
    · exact unwritten_bwrite (mark sb s b) (fun _ => 0) (Or.inl rfl)

theorem itable_setAddr (s : State) (ip iq : InodeIx) (k a : Nat) : ((s.setAddr ip k a).itable iq).ref = (s.itable iq).ref ∧
    ((s.setAddr ip k a).itable iq).valid = (s.itable iq).valid ∧ ((s.setAddr ip k a).itable iq).inum = (s.itable iq).inum := by
  by_cases own : iq = ip
  · subst own
    simp [State.setAddr]
  · rw [State.setAddr, itable_setInode_of_ne s _ own]
    exact ⟨rfl, rfl, rfl⟩

theorem live_setAddr (s : State) (ip iq : InodeIx) (k a : Nat) : Live (s.setAddr ip k a) iq i ↔ Live s iq i := by
  obtain ⟨ref, valid, inum⟩ := itable_setAddr s ip iq k a
  rw [Live, Live, ref, valid, inum]

theorem unique_setAddr (unique : Unique s) (ip : InodeIx) (k a : Nat) : Unique (s.setAddr ip k a) := by
  intro iq ir
  obtain ⟨ref, _, inum⟩ := itable_setAddr s ip iq k a
  obtain ⟨other, _, number⟩ := itable_setAddr s ip ir k a
  rw [ref, inum, other, number]
  exact unique iq ir

/-- Only the slot that is set changes. -/
theorem addr_setAddr (sb : Superblock) (unique : Unique s) (live : Live s ip i) (k a x y : Nat) :
    addr sb (s.setAddr ip k a) x y = if x = i ∧ y = k then a else addr sb s x y := by
  have still := unique_setAddr unique ip k a
  rcases live_or_idle s x with ⟨iq, held⟩ | idle
  · rw [addr_live sb still ((live_setAddr s ip iq k a).mpr held), addr_live sb unique held]
    by_cases own : iq = ip
    · subst own
      have number : x = i := held.2.2.symm.trans live.2.2
      by_cases slot : y = k
      · rw [if_pos ⟨number, slot⟩, slot]
        simp [State.setAddr]
      · rw [if_neg fun both => slot both.2]
        simp [State.setAddr, slot]
    · have apart : x ≠ i := by
        rintro rfl
        exact own (unique iq ip held.1 live.1 (held.2.2.trans live.2.2.symm))
      rw [if_neg fun both => apart both.1, State.setAddr, itable_setInode_of_ne s _ own]
  · have apart : x ≠ i := by
      rintro rfl
      exact idle ip live
    rw [if_neg fun both => apart both.1, addr_idle idle, addr_idle fun iq held => idle iq ((live_setAddr s ip iq k a).mp held)]
    rfl

/-- An empty slot of an inode in memory gets a spare block. -/
theorem Sound.setAddr (sound : Sound sb s) (live : Live s ip i) (slot : k ≤ ndirect) (empty : addr sb s i k = 0)
    (spare : Spare sb s b) : Sound sb (s.setAddr ip k b) ∧
      ∀ p, pointer sb (s.setAddr ip k b) p = if p = (i, k) then b else pointer sb s p := by
  have inside := sound.inside ip i live
  have slots (x y : Nat) := addr_setAddr sb sound.unique live k b x y
  have entries (x j : Nat) : entry sb (s.setAddr ip k b) x j = entry sb s x j := by
    unfold entry
    rw [slots]
    by_cases own : x = i ∧ ndirect = k
    · rw [if_pos own, own.1, own.2, empty, if_pos rfl, bread_setAddr, spare.zero, word_zero, ite_self]
    · rw [if_neg own]
      rfl
  have pointers (p : Place) : pointer sb (s.setAddr ip k b) p = if p = (i, k) then b else pointer sb s p := by
    have small : k ≤ maxfile := Nat.le_trans slot (by decide)
    by_cases own : p = (i, k)
    · rw [if_pos own, own, pointer_slot inside slot, slots, if_pos ⟨rfl, rfl⟩]
    · have elsewhere : ¬(p.1 = i ∧ p.2 = k) := fun both => own (Prod.ext both.1 both.2)
      rw [if_neg own]
      unfold pointer
      rw [slots, entries, if_neg elsewhere]
  refine ⟨?_, pointers⟩
  constructor
  · exact sound.valid
  · exact unique_setAddr sound.unique ip k b
  · exact fun iq x held => sound.inside iq x ((live_setAddr s ip iq k b).mp held)
  · intro iq x held y bounded nonzero
    have before := (live_setAddr s ip iq k b).mp held
    have same := sound.synced iq x before y bounded nonzero
    rw [← addr_live sb (unique_setAddr sound.unique ip k b) held, slots]
    by_cases own : x = i ∧ y = k
    · rw [← addr_live sb sound.unique before, own.1, own.2, empty, ← own.1, ← own.2] at same
      exact absurd same nonzero
    · rw [if_neg own, addr_live sb sound.unique before]
      exact same
  · apply sound.owned.assign spare.fresh spare.above spare.below spare.marked
    · rw [pointers, if_pos rfl]
    · intro p apart
      rw [pointers, if_neg apart]
  · exact sound.metadata
  · intro x bounded nonzero
    rw [slots] at nonzero ⊢
    by_cases own : x = i ∧ ndirect = k
    · rw [if_pos own]
      exact spare.written
    · rw [if_neg own] at nonzero ⊢
      exact sound.tables x bounded nonzero
  · exact sound.fresh

/-- An empty entry of an indirect block gets a spare block. -/
theorem Sound.setEntry (sound : Sound sb s) (inside : i < sb.ninodes) (small : j < nindirect)
    (table : addr sb s i ndirect ≠ 0) (empty : entry sb s i j = 0) (spare : Spare sb s b) :
    Sound sb (s.bwrite (addr sb s i ndirect) (setWord (s.bread (addr sb s i ndirect)) j b)) ∧
      ∀ p, pointer sb (s.bwrite (addr sb s i ndirect) (setWord (s.bread (addr sb s i ndirect)) j b)) p =
        if p = (i, ndirect + 1 + j) then b else pointer sb s p := by
  have above := (sound.addr_below inside (Nat.le_refl ndirect) table).1
  have word32 : b % 2 ^ 32 = b := by
    have size := sound.valid.size
    have below := spare.below
    exact Nat.mod_eq_of_lt (by omega)
  have slots (x : Nat) (bounded : x < sb.ninodes) (y : Nat) :
      addr sb (s.bwrite (addr sb s i ndirect) (setWord (s.bread (addr sb s i ndirect)) j b)) x y = addr sb s x y :=
    slots_keep sound.unique rfl fun _ => by rw [dinode_bwrite sound.valid s _ bounded above]
  have entries (x y : Nat) (bounded : x < sb.ninodes) :
      entry sb (s.bwrite (addr sb s i ndirect) (setWord (s.bread (addr sb s i ndirect)) j b)) x y =
        if x = i ∧ y = j then b else entry sb s x y := by
    unfold entry
    rw [slots x bounded]
    by_cases own : x = i
    · subst own
      rw [if_neg table, if_neg table, bread_bwrite]
      by_cases same : y = j
      · rw [if_pos ⟨rfl, same⟩, same, word_setWord, word32]
      · rw [if_neg fun both => same both.2, word_setWord_of_ne _ _ same]
    · have elsewhere : ¬(x = i ∧ y = j) := fun both => own both.1
      rw [if_neg elsewhere]
      split
      · rfl
      · rename_i nonzero
        have apart : addr sb s x ndirect ≠ addr sb s i ndirect := fun same => own (sound.table_eq bounded inside nonzero same)
        rw [bread_bwrite_of_ne s _ apart]
  have pointers (p : Place) :
      pointer sb (s.bwrite (addr sb s i ndirect) (setWord (s.bread (addr sb s i ndirect)) j b)) p =
        if p = (i, ndirect + 1 + j) then b else pointer sb s p := by
    by_cases own : p = (i, ndirect + 1 + j)
    · rw [if_pos own, own, pointer_entry inside small, entries _ _ inside, if_pos ⟨rfl, rfl⟩]
    · rw [if_neg own]
      unfold pointer
      split
      · rename_i bounded
        rw [slots _ bounded.1, entries _ _ bounded.1]
        split
        · rfl
        · rename_i high
          have elsewhere : ¬(p.1 = i ∧ p.2 - (ndirect + 1) = j) := fun both => own (Prod.ext both.1 (by omega))
          rw [if_neg elsewhere]
      · rfl
  refine ⟨?_, pointers⟩
  constructor
  · exact sound.valid
  · exact sound.unique
  · exact sound.inside
  · intro iq x held y bounded
    rw [dinode_bwrite sound.valid s _ (sound.inside iq x held) above]
    exact sound.synced iq x held y bounded
  · have marks (x : Nat) (bounded : x < sb.size) := inUse_bwrite s (setWord (s.bread (addr sb s i ndirect)) j b) bounded above
    have kept := sound.owned.congr (fun _ => rfl) fun x bounded marked => (marks x bounded).trans marked
    have given : pointer sb (s.bwrite (addr sb s i ndirect) (setWord (s.bread (addr sb s i ndirect)) j b)) (i, ndirect + 1 + j) = b := by
      rw [pointers, if_pos rfl]
    apply kept.assign spare.fresh spare.above spare.below ((marks b spare.below).trans spare.marked) given
    intro p apart
    rw [pointers, if_neg apart]
  · exact fun x low => unwritten_bwrite s _ (Or.inr (sound.metadata x low))
  · intro x bounded nonzero
    rw [slots x bounded] at nonzero ⊢
    exact unwritten_bwrite s _ (Or.inr (sound.tables x bounded nonzero))
  · exact sound.fresh

end Steps

end BtbuOs.Fs
