import BtbuOs.Fs.Pointers

namespace BtbuOs.Fs

open Bytes Ownership State

variable {sb : Superblock} {s mid after : State} {ip iq : InodeIx} {i k : Nat}

/-- The field of a 32-bit address holds every address of a copy in memory. -/
theorem Sound.addr_mod (sound : Sound sb s) (live : Live s ip i) (slot : k ≤ ndirect) :
    (s.itable ip).addrs k % 2 ^ 32 = (s.itable ip).addrs k := by
  rw [← addr_live sb sound.unique live]
  by_cases zero : addr sb s i k = 0
  · rw [zero, Nat.zero_mod]
  · have below := (sound.addr_below (sound.inside ip i live) slot zero).2
    have size := sound.valid.size
    exact Nat.mod_eq_of_lt (by omega)

/-- The write of a copy in memory makes the inode on the disk agree with it. -/
theorem Sound.iupdate (sound : Sound sb s) (live : Live s ip i) : Sound sb (iupdate sb s ip) := by
  have number := live.2.2
  have inside : (s.itable ip).inum < sb.ninodes := by
    rw [number]
    exact sound.inside ip i live
  apply sound.keep
  · rfl
  · intro x bounded idle y slot _
    have apart : x ≠ (s.itable ip).inum := by
      rintro rfl
      exact idle ip ⟨live.1, live.2.1, rfl⟩
    exact (dinode_iupdate_of_ne apart).addrs y slot
  · intro iq x held y slot nonzero
    by_cases own : x = (s.itable ip).inum
    · have same := sound.unique iq ip held.1 live.1 (held.2.2.trans own)
      rw [own, (dinode_iupdate sb s ip).addrs y slot, same]
      exact sound.addr_mod live slot
    · rw [(dinode_iupdate_of_ne own).addrs y slot] at nonzero ⊢
      exact sound.synced iq x held y slot nonzero
  · intro b _ marked
    rwa [inUse_iupdate sound.valid inside]
  · intro x bounded nonzero j
    rw [bread_iupdate sound.valid inside (sound.addr_below bounded (Nat.le_refl _) nonzero).1]
  · exact fun b low => unwritten_bwrite s _ (Or.inr (sound.metadata b low))
  · exact fun x bounded nonzero => unwritten_bwrite s _ (Or.inr (sound.tables x bounded nonzero))
  · exact sound.fresh

/-- Fields other than the addresses and the identity of an inode in memory may change. -/
theorem Sound.setInode (sound : Sound sb s) {inode : Inode} (inum : inode.inum = (s.itable ip).inum)
    (ref : 0 < inode.ref → 0 < (s.itable ip).ref) (valid : inode.valid = true → (s.itable ip).valid = true)
    (addrs : inode.addrs = (s.itable ip).addrs) : Sound sb (s.setInode ip inode) := by
  have entry (iq : InodeIx) : ((s.setInode ip inode).itable iq).inum = (s.itable iq).inum ∧
      (0 < ((s.setInode ip inode).itable iq).ref → 0 < (s.itable iq).ref) ∧
      (((s.setInode ip inode).itable iq).valid = true → (s.itable iq).valid = true) ∧
      ((s.setInode ip inode).itable iq).addrs = (s.itable iq).addrs := by
    by_cases own : iq = ip
    · subst own
      rw [itable_setInode]
      exact ⟨inum, ref, valid, addrs⟩
    · rw [itable_setInode_of_ne s _ own]
      exact ⟨rfl, id, id, rfl⟩
  apply sound.relabel
  · rfl
  · rfl
  · rfl
  · intro iq ir first second same
    rw [(entry iq).1, (entry ir).1] at same
    exact sound.unique iq ir ((entry iq).2.1 first) ((entry ir).2.1 second) same
  · intro iq x held
    have fields := entry iq
    refine ⟨⟨fields.2.1 held.1, fields.2.2.1 held.2.1, ?_⟩, fields.2.2.2⟩
    rw [← fields.1]
    exact held.2.2

theorem Sound.idup (sound : Sound sb s) (held : 0 < (s.itable ip).ref) : Sound sb (idup s ip) :=
  sound.setInode rfl (fun _ => held) id rfl

/-- What `iget` does to the table: an entry gets one more reference, or an unused entry gets the number. -/
theorem iget_cases {inum : Nat} (done : iget s inum = .ok (ip, after)) :
    (0 < (s.itable ip).ref ∧ (s.itable ip).inum = inum ∧ after = s.setRef ip ((s.itable ip).ref + 1)) ∨
      ((∀ iq, 0 < (s.itable iq).ref → (s.itable iq).inum ≠ inum) ∧ (s.itable ip).ref = 0 ∧
        after = s.setInode ip { s.itable ip with inum, ref := 1, valid := false }) := by
  unfold iget at done
  split at done
  · rename_i iq found
    cases done
    have test := List.find?_some found
    rw [decide_eq_true_eq] at test
    exact Or.inl ⟨test.1, test.2, rfl⟩
  · rename_i absent
    split at done
    · contradiction
    · rename_i iq found
      cases done
      have test := List.find?_some found
      rw [decide_eq_true_eq] at test
      refine Or.inr ⟨fun iq positive same => ?_, test, rfl⟩
      have failed := List.find?_eq_none.mp absent iq (List.mem_finRange iq)
      simp [positive, same] at failed

theorem Sound.iget (sound : Sound sb s) {inum : Nat} (done : iget s inum = .ok (ip, after)) : Sound sb after := by
  rcases iget_cases done with ⟨held, _, rfl⟩ | ⟨absent, free, rfl⟩
  · exact sound.setInode rfl (fun _ => held) id rfl
  · have others (iq : InodeIx) (apart : iq ≠ ip) := itable_setInode_of_ne s { s.itable ip with inum, ref := 1, valid := false } apart
    apply sound.relabel
    · rfl
    · rfl
    · rfl
    · intro iq ir first second same
      by_cases own : iq = ip
      · by_cases other : ir = ip
        · rw [own, other]
        · rw [others ir other] at second same
          subst own
          rw [itable_setInode] at same
          exact absurd same.symm (absent ir second)
      · by_cases other : ir = ip
        · rw [others iq own] at first same
          subst other
          rw [itable_setInode] at same
          exact absurd same (absent iq first)
        · rw [others iq own] at first same
          rw [others ir other] at second same
          exact sound.unique iq ir first second same
    · intro iq x held
      by_cases own : iq = ip
      · subst own
        have valid := held.2.1
        simp at valid
      · rw [Live, others iq own] at held
        rw [others iq own]
        exact ⟨held, rfl⟩

/-- The disk, the buffers and the pointers are the same, whatever became of the table. -/
structure Still (sb : Superblock) (s after : State) : Prop where
  disk : after.disk = s.disk
  unwritten : after.unwritten = s.unwritten
  taken : after.taken = s.taken
  addr : ∀ i k, addr sb after i k = addr sb s i k

theorem Still.trans (first : Still sb s mid) (second : Still sb mid after) : Still sb s after :=
  ⟨second.disk.trans first.disk, second.unwritten.trans first.unwritten, second.taken.trans first.taken,
    fun i k => (second.addr i k).trans (first.addr i k)⟩

theorem Still.bread (still : Still sb s after) (b : Nat) : after.bread b = s.bread b := by
  rw [State.bread, State.bread, still.disk, still.unwritten]

theorem Still.pointer (still : Still sb s after) (p : Place) : pointer sb after p = pointer sb s p :=
  pointer_congr (fun i _ k _ => still.addr i k) (fun _ _ _ j => by rw [still.bread]) p

/-- The pointers stay when the copies in memory with their addresses stay. -/
theorem still_of_live (disk : after.disk = s.disk) (unwritten : after.unwritten = s.unwritten) (taken : after.taken = s.taken)
    (before : Unique s) (unique : Unique after) (lives : ∀ iq x, Live after iq x ↔ Live s iq x)
    (addrs : ∀ iq x, Live s iq x → (after.itable iq).addrs = (s.itable iq).addrs) : Still sb s after := by
  refine ⟨disk, unwritten, taken, fun i k => ?_⟩
  rcases live_or_idle s i with ⟨iq, held⟩ | idle
  · rw [addr_live sb unique ((lives iq i).mpr held), addr_live sb before held, addrs iq i held]
  · have same : after.bread (iblock sb i) = s.bread (iblock sb i) := by rw [State.bread, State.bread, disk, unwritten]
    rw [addr_idle fun iq held => idle iq ((lives iq i).mp held), addr_idle idle, dinode_congr same]

/-- A reference that is taken changes no pointer. -/
theorem Sound.iget_still (sound : Sound sb s) {inum : Nat} (done : Fs.iget s inum = .ok (ip, after)) : Still sb s after := by
  have unique := (sound.iget done).unique
  rcases iget_cases done with ⟨held, _, rfl⟩ | ⟨_, free, rfl⟩
  · apply still_of_live
    · rfl
    · rfl
    · rfl
    · exact sound.unique
    · exact unique
    · intro iq x
      by_cases own : iq = ip
      · subst own
        rw [Live, Live, setRef, itable_setInode]
        simp only [held, true_and]
        have more : 0 < (s.itable iq).ref + 1 := by omega
        simp only [more, true_and]
      · rw [Live, Live, setRef, itable_setInode_of_ne s _ own]
    · intro iq x _
      by_cases own : iq = ip
      · subst own
        rw [setRef, itable_setInode]
      · rw [setRef, itable_setInode_of_ne s _ own]
  · apply still_of_live
    · rfl
    · rfl
    · rfl
    · exact sound.unique
    · exact unique
    · intro iq x
      by_cases own : iq = ip
      · subst own
        rw [Live, Live, itable_setInode, free]
        simp
      · rw [Live, Live, itable_setInode_of_ne s _ own]
    · intro iq x live
      have apart : iq ≠ ip := by
        rintro rfl
        rw [Live, free] at live
        exact absurd live.1 (Int.lt_irrefl 0)
      rw [itable_setInode_of_ne s _ apart]

/-- The entry that `ivalid` fills from the disk. -/
def Inode.loaded (inode : Inode) (d : Dinode) : Inode :=
  { inode with valid := true, type := d.type, nlink := d.nlink, size := d.size, addrs := d.addrs }

/-- The copies in memory after an entry is filled. -/
theorem live_loaded (s : State) (d : Dinode) (ip iq : InodeIx) (x : Nat) :
    Live (s.setInode ip ((s.itable ip).loaded d)) iq x ↔
      iq = ip ∧ 0 < (s.itable ip).ref ∧ (s.itable ip).inum = x ∨ iq ≠ ip ∧ Live s iq x := by
  by_cases own : iq = ip
  · subst own
    rw [Live, itable_setInode]
    simp [Inode.loaded]
  · rw [Live, itable_setInode_of_ne s _ own]
    simp [own, Live]

/-- An inode in memory that is read from the disk refers to the same blocks as before. -/
theorem Sound.load_still (sound : Sound sb s) (held : 0 < (s.itable ip).ref) (stale : ¬(s.itable ip).valid = true) :
    Unique (s.setInode ip ((s.itable ip).loaded (dinode sb s (s.itable ip).inum))) ∧
      Still sb s (s.setInode ip ((s.itable ip).loaded (dinode sb s (s.itable ip).inum))) := by
  have lives := live_loaded s (dinode sb s (s.itable ip).inum) ip
  have entry (iq : InodeIx) : ((s.setInode ip ((s.itable ip).loaded (dinode sb s (s.itable ip).inum))).itable iq).ref = (s.itable iq).ref ∧
      ((s.setInode ip ((s.itable ip).loaded (dinode sb s (s.itable ip).inum))).itable iq).inum = (s.itable iq).inum := by
    by_cases own : iq = ip
    · subst own
      rw [itable_setInode]
      exact ⟨rfl, rfl⟩
    · rw [itable_setInode_of_ne s _ own]
      exact ⟨rfl, rfl⟩
  have unique : Unique (s.setInode ip ((s.itable ip).loaded (dinode sb s (s.itable ip).inum))) := by
    intro iq ir first second same
    rw [(entry iq).2, (entry ir).2] at same
    rw [(entry iq).1] at first
    rw [(entry ir).1] at second
    exact sound.unique iq ir first second same
  have idle (iq : InodeIx) : ¬Live s iq (s.itable ip).inum := by
    intro live
    have same := sound.unique iq ip live.1 held live.2.2
    rw [same] at live
    exact stale live.2.1
  refine ⟨unique, rfl, rfl, rfl, fun x y => ?_⟩
  rcases live_or_idle (s.setInode ip ((s.itable ip).loaded (dinode sb s (s.itable ip).inum))) x with ⟨iq, live⟩ | none
  · rw [addr_live sb unique live]
    rcases (lives iq x).mp live with ⟨rfl, _, rfl⟩ | ⟨apart, before⟩
    · rw [itable_setInode, addr_idle idle]
      rfl
    · rw [itable_setInode_of_ne s _ apart, addr_live sb sound.unique before]
  · have before (iq : InodeIx) (old : Live s iq x) : False := by
      by_cases same : iq = ip
      · exact stale (same ▸ old.2.1)
      · exact none iq ((lives iq x).mpr (Or.inr ⟨same, old⟩))
    rw [addr_idle none, addr_idle before]
    rfl

/-- A copy in memory that is read from the disk keeps the invariant. -/
theorem Sound.load (sound : Sound sb s) (held : 0 < (s.itable ip).ref) (inside : (s.itable ip).inum < sb.ninodes)
    (stale : ¬(s.itable ip).valid = true) : Sound sb (s.setInode ip ((s.itable ip).loaded (dinode sb s (s.itable ip).inum))) := by
  obtain ⟨unique, still⟩ := sound.load_still held stale
  have lives := live_loaded s (dinode sb s (s.itable ip).inum) ip
  constructor
  · exact sound.valid
  · exact unique
  · intro iq x live
    rcases (lives iq x).mp live with ⟨-, -, rfl⟩ | ⟨-, before⟩
    · exact inside
    · exact sound.inside iq x before
  · intro iq x live y slot nonzero
    rw [dinode_congr (still.bread _)] at nonzero ⊢
    rcases (lives iq x).mp live with ⟨rfl, -, rfl⟩ | ⟨apart, before⟩
    · rw [itable_setInode]
      rfl
    · rw [itable_setInode_of_ne s _ apart]
      exact sound.synced iq x before y slot nonzero
  · apply sound.owned.congr still.pointer
    intro b _ marked
    rwa [inUse_congr (still.bread _)]
  · exact sound.metadata
  · intro x bounded nonzero
    rw [still.addr] at nonzero ⊢
    exact sound.tables x bounded nonzero
  · exact sound.fresh

/-- What `ivalid` does: nothing, or it fills the entry from the disk. -/
theorem ivalid_cases (done : ivalid sb s ip = .ok after) : (s.itable ip).valid = true ∧ after = s ∨
    ¬(s.itable ip).valid = true ∧ (dinode sb s (s.itable ip).inum).type ≠ 0 ∧
      after = s.setInode ip ((s.itable ip).loaded (dinode sb s (s.itable ip).inum)) := by
  unfold Fs.ivalid at done
  split at done
  · rename_i good
    cases done
    exact Or.inl ⟨good, rfl⟩
  · rename_i stale
    dsimp only at done
    split at done
    · contradiction
    · rename_i typed
      cases done
      exact Or.inr ⟨stale, typed, rfl⟩

/-- An inode that is read from the disk keeps the invariant and the pointers. -/
theorem Sound.ivalid (sound : Sound sb s) (held : 0 < (s.itable ip).ref) (inside : (s.itable ip).inum < sb.ninodes)
    (done : ivalid sb s ip = .ok after) : Sound sb after := by
  rcases ivalid_cases done with ⟨-, rfl⟩ | ⟨stale, -, rfl⟩
  · exact sound
  · exact sound.load held inside stale

theorem Sound.ivalid_still (sound : Sound sb s) (held : 0 < (s.itable ip).ref) (done : Fs.ivalid sb s ip = .ok after) : Still sb s after := by
  rcases ivalid_cases done with ⟨-, rfl⟩ | ⟨stale, -, rfl⟩
  · exact ⟨rfl, rfl, rfl, fun _ _ => rfl⟩
  · exact (sound.load_still held stale).2

/-- The inode that `ialloc` writes refers to no block. -/
theorem Sound.clearDinode (sound : Sound sb s) (inside : i < sb.ninodes) (type : Nat) :
    Sound sb (s.bwrite (iblock sb i) (clearDinode (s.bread (iblock sb i)) i type)) := by
  have below := iblock_lt sound.valid inside
  have between := bmapstart_lt sb
  have own : (dinode sb (s.bwrite (iblock sb i) (Fs.clearDinode (s.bread (iblock sb i)) i type)) i).Same
      { type := type % 2 ^ 16, nlink := 1, size := 0, addrs := fun _ => 0 } := by
    rw [dinode, bread_bwrite]
    exact getDinode_clearDinode _ _ _
  have others (x : Nat) (apart : x ≠ i) :
      (dinode sb (s.bwrite (iblock sb i) (Fs.clearDinode (s.bread (iblock sb i)) i type)) x).Same (dinode sb s x) :=
    dinode_bwrite_of_ne s apart fun _ outside => clearDinode_outside _ _ _ outside
  apply sound.keep
  · rfl
  · intro x _ _ y slot nonzero
    by_cases same : x = i
    · rw [same, own.addrs y slot] at nonzero
      contradiction
    · exact (others x same).addrs y slot
  · intro ip x live y slot nonzero
    by_cases same : x = i
    · rw [same, own.addrs y slot] at nonzero
      contradiction
    · rw [(others x same).addrs y slot] at nonzero ⊢
      exact sound.synced ip x live y slot nonzero
  · intro b _ marked
    have above := le_bblock sb b
    rwa [inUse_congr (bread_bwrite_of_ne s _ (by omega))]
  · intro x bounded nonzero j
    have above := (sound.addr_below bounded (Nat.le_refl _) nonzero).1
    rw [bread_bwrite_of_ne s _ (by omega)]
  · exact fun b low => unwritten_bwrite s _ (Or.inr (sound.metadata b low))
  · exact fun x bounded nonzero => unwritten_bwrite s _ (Or.inr (sound.tables x bounded nonzero))
  · exact sound.fresh

/-- What `ialloc` does: a free inode on the disk is cleared, and an entry of the table gets its number. -/
theorem ialloc_cases {type : Nat} (done : ialloc sb s type = .ok (ip, after)) :
    ∃ inum, 1 ≤ inum ∧ inum < sb.ninodes ∧ (dinode sb s inum).type = 0 ∧
      iget (s.bwrite (iblock sb inum) (Fs.clearDinode (s.bread (iblock sb inum)) inum type)) inum = .ok (ip, after) := by
  unfold ialloc at done
  split at done
  · contradiction
  · rename_i inum found
    have test := List.find?_some found
    have member := List.mem_of_find?_eq_some found
    rw [decide_eq_true_eq] at test
    rw [List.mem_range'_1] at member
    exact ⟨inum, member.1, by omega, test, done⟩

theorem Sound.ialloc (sound : Sound sb s) {type : Nat} (done : ialloc sb s type = .ok (ip, after)) : Sound sb after := by
  obtain ⟨inum, _, inside, _, got⟩ := ialloc_cases done
  exact (sound.clearDinode inside type).iget got

end BtbuOs.Fs
