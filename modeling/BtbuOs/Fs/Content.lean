import BtbuOs.Fs.Transfer

namespace BtbuOs.Fs

open Bytes Ownership State

variable {sb : Superblock} {s mid after : State} {ip iq : InodeIx} {i j k b n off : Nat} {room : Room} {src dst data : Memory} {value : Int}

/-- The fields of an inode in memory change and go to the disk. -/
structure Saved (sb : Superblock) (s after : State) (ip : InodeIx) (i : Nat) (inode : Inode) : Prop where
  sound : Sound sb after
  table : after.itable = Function.update s.itable ip inode
  pointers : ∀ p, pointer sb after p = pointer sb s p
  marks : ∀ b, inUse sb after b = inUse sb s b
  content : ∀ j, content sb after j = content sb s j
  others : ∀ x, x < sb.ninodes → x ≠ i → (dinode sb after x).Same (dinode sb s x)
  own : (dinode sb after i).Same inode.toDinode.cut
  written : ∀ x, s.unwritten x = none → after.unwritten x = none

theorem save (sound : Sound sb s) (live : Live s ip i) {inode : Inode} (inum : inode.inum = (s.itable ip).inum)
    (ref : inode.ref = (s.itable ip).ref) (valid : inode.valid = (s.itable ip).valid) (addrs : inode.addrs = (s.itable ip).addrs) :
    Saved sb s (iupdate sb (s.setInode ip inode) ip) ip i inode := by
  have set : Sound sb (s.setInode ip inode) := sound.setInode inum (fun positive => ref ▸ positive) (fun good => valid ▸ good) addrs
  have entry : (s.setInode ip inode).itable ip = inode := itable_setInode ..
  have lives (iq : InodeIx) (x : Nat) : Live (s.setInode ip inode) iq x ↔ Live s iq x := by
    by_cases own : iq = ip
    · rw [own, Live, Live, entry, inum, ref, valid]
    · rw [Live, Live, itable_setInode_of_ne s inode own]
  have still := (lives ip i).mpr live
  have number : ((s.setInode ip inode).itable ip).inum = i := still.2.2
  have inside := sound.inside ip i live
  have bounded : ((s.setInode ip inode).itable ip).inum < sb.ninodes := by rwa [number]
  have kept : Sound sb (iupdate sb (s.setInode ip inode) ip) := set.iupdate still
  have others (x : Nat) (apart : x ≠ i) : (dinode sb (iupdate sb (s.setInode ip inode) ip) x).Same (dinode sb s x) :=
    dinode_iupdate_of_ne (by rwa [number])
  have data (b : Nat) (above : dataStart sb ≤ b) : (iupdate sb (s.setInode ip inode) ip).bread b = s.bread b :=
    bread_iupdate sound.valid bounded above
  have slots (x : Nat) (_ : x < sb.ninodes) (k : Nat) (slot : k ≤ ndirect) :
      addr sb (iupdate sb (s.setInode ip inode) ip) x k = addr sb s x k := by
    rcases live_or_idle s x with ⟨iq, held⟩ | idle
    · rw [addr_live sb kept.unique ((lives iq x).mpr held), addr_live sb sound.unique held, itable_iupdate]
      by_cases own : iq = ip
      · rw [own, entry, addrs]
      · rw [itable_setInode_of_ne s inode own]
    · have apart : x ≠ i := by
        rintro rfl
        exact idle ip live
      have gone (iq : InodeIx) : ¬Live (iupdate sb (s.setInode ip inode) ip) iq x := fun held => idle iq ((lives iq x).mp held)
      rw [addr_idle gone, addr_idle idle]
      exact (others x apart).addrs k slot
  have pointers := pointer_congr slots fun x less nonzero j => by rw [data _ (sound.addr_below less (Nat.le_refl _) nonzero).1]
  constructor
  · exact kept
  · rfl
  · exact pointers
  · exact inUse_iupdate sound.valid bounded
  · intro j
    funext x
    rw [content, content, pointers]
    split
    · rfl
    · rename_i nonzero
      rw [data _ (sound.owned.above _ nonzero)]
  · exact fun x _ apart => others x apart
  · have same := dinode_iupdate sb (s.setInode ip inode) ip
    rwa [number, entry] at same
  · exact fun x written => unwritten_bwrite (s.setInode ip inode) _ (Or.inr written)

/-- A read keeps the contents. -/
theorem readi_grown (sound : Sound sb s) (live : Live s ip i) (done : readi sb s ip room dst off n = .ok (value, data, after)) :
    Sound sb after ∧ Grown sb s after ip i := by
  unfold readi at done
  split at done
  · cases done
    exact ⟨sound, Grown.refl sb s ip i⟩
  · obtain ⟨kept, grown, -⟩ := readLoop_reads sound live done
    exact ⟨kept, grown⟩

/-- A read with room for its bytes gives those of the content, up to the size of the inode. -/
theorem readi_reads (sound : Sound sb s) (live : Live s ip i) (inside : off ≤ (s.itable ip).size) (small : off + n < 2 ^ 32)
    (fit : fits room (min n ((s.itable ip).size - off))) (done : readi sb s ip room dst off n = .ok (value, data, after)) :
    value = min n ((s.itable ip).size - off) ∧
      data = splice dst 0 (min n ((s.itable ip).size - off)) fun k => content sb s i (off + k) := by
  have wraps : ¬(off > (s.itable ip).size ∨ (off + n) % 2 ^ 32 < off) := by
    rw [Nat.mod_eq_of_lt small]
    omega
  rw [readi, if_neg wraps] at done
  have count : (if off + n > (s.itable ip).size then (s.itable ip).size - off else n) = min n ((s.itable ip).size - off) := by
    split <;> omega
  dsimp only at done
  rw [count] at done
  obtain ⟨-, -, reads⟩ := readLoop_reads sound live done
  have result := reads fit (Nat.zero_le _) (by omega)
  rw [Nat.sub_zero] at result
  exact result

/-- The entry behind a write that ends at the offset. -/
def Inode.reaching (inode : Inode) (last : Nat) : Inode := { inode with size := max inode.size last }

/-- What a write that is not refused does: its loop, and then the size and the addresses go to the disk. -/
theorem writei_saved (sound : Sound sb s) (live : Live s ip i) (done : writei sb s ip src room off n = .ok (value, after)) :
    value = -1 ∧ after = s ∨ (n < 2 ^ 32 → off + n ≤ maxfile * bsize) ∧ ∃ (count : Nat) (mid : State), value = count ∧ count ≤ n ∧ Moved sb s mid ip i ∧
      Saved sb mid after ip i ((mid.itable ip).reaching (off + count)) ∧
      (fits room n → count = n ∧ content sb mid i = splice (content sb s i) off n src ∧
        ∀ x, s.unwritten x = none → mid.unwritten x = none) := by
  unfold writei at done
  split at done
  · cases done
    exact Or.inl ⟨rfl, rfl⟩
  · rename_i wraps
    split at done
    · cases done
      exact Or.inl ⟨rfl, rfl⟩
    · rename_i large
      split at done
      · contradiction
      · rename_i count last mid wrote
        obtain ⟨moved, counted, writes⟩ := writeLoop_writes sound live wrote
        obtain ⟨-, bound, ended⟩ := counted (Nat.zero_le n)
        have still := (moved.extended.live ip i).mpr live
        have sized : (if last > (mid.itable ip).size then mid.setInode ip { mid.itable ip with size := last } else mid) =
            mid.setInode ip ((mid.itable ip).reaching (off + count)) := by
          rw [Nat.sub_zero] at ended
          rw [ended, Inode.reaching]
          split
          · rename_i longer
            rw [Nat.max_eq_right (Nat.le_of_lt longer)]
          · rename_i shorter
            rw [Nat.max_eq_left (Nat.not_lt.mp shorter), State.setInode, Function.update_eq_self]
        have total (word : n < 2 ^ 32) : off + n ≤ maxfile * bsize := by omega
        dsimp only at done
        rw [sized] at done
        cases done
        refine Or.inr ⟨total, count, mid, rfl, bound, moved, save moved.sound still rfl rfl rfl rfl, fun fit => ?_⟩
        obtain ⟨all, bytes, clean⟩ := writes fit (Nat.zero_le n) (by omega)
        rw [Nat.sub_zero] at bytes
        simp only [Nat.zero_add] at bytes
        exact ⟨all, bytes, clean⟩

theorem writei_sound (sound : Sound sb s) (live : Live s ip i) (done : writei sb s ip src room off n = .ok (value, after)) :
    Sound sb after := by
  rcases writei_saved sound live done with ⟨-, rfl⟩ | ⟨-, count, mid, -, -, -, saved, -⟩
  · exact sound
  · exact saved.sound

end BtbuOs.Fs
