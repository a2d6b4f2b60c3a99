import BtbuOs.Fs.BlockCount
import BtbuOs.Fs.FileBytes
import BtbuOs.Nfs.Mkfs

namespace BtbuOs.Nfs

open Bytes Fs Machine Ownership State

/-- The sectors of the image with the free map that the program writes last. -/
def Image.final (m : Image) : Nat → Memory := Function.update m.disk sb.bmapstart (bitmap m.freeblock)

/-- The sectors from the first free one on are still zero, and the superblock is in its sector. -/
structure Room (m : Image) : Prop where
  above : nmeta ≤ m.freeblock
  below : m.freeblock ≤ fssize
  zero : ∀ b, m.freeblock ≤ b → m.disk b = fun _ => 0
  super : m.disk 1 = superSector

/-- The entry that the kernel has for an inode on which the program works. -/
def opened (inum : Nat) (din : Dinode) : Inode :=
  { inum, ref := 1, valid := true, type := din.type, nlink := din.nlink, size := din.size, addrs := din.addrs }

/-- The kernel has the image as its disk and one inode in memory. -/
structure Viewed (m : Image) (inum : Nat) (din : Dinode) (s : State) : Prop where
  disk : s.disk = m.final
  clean : Clean s
  table : s.itable = Function.update (fun _ => idleInode) 0 (opened inum din)
  room : Room m

variable {m m' : Image} {inum n rounds tot off fbn k b x table j last count : Nat} {din : Dinode} {s s' : State} {p : Memory}

theorem bread_final (disk : s.disk = m.final) (clean : Clean s) (b : Nat) : s.bread b = m.final b := by
  rw [State.bread, clean b, disk]
  rfl

theorem final_of_ne (apart : b ≠ sb.bmapstart) : m.final b = m.disk b := Function.update_of_ne apart ..

theorem ne_of_above (above : nmeta ≤ b) : b ≠ sb.bmapstart := by
  have place : sb.bmapstart = 15 := rfl
  have first : nmeta = 16 := rfl
  omega

/-- The free map of the image marks the sectors below the first free one. -/
theorem inUse_final (disk : s.disk = m.final) (clean : Clean s) (inside : b < fssize) : inUse sb s b = decide (b < m.freeblock) := by
  have place : bblock sb b = sb.bmapstart := by
    rw [bblock, Nat.div_eq_of_lt (Nat.lt_trans inside (by decide)), Nat.zero_add]
  rw [inUse, place, bread_final disk clean, Image.final, Function.update_self, bit_bitmap,
    Nat.mod_eq_of_lt (Nat.lt_trans inside (by decide))]

theorem Viewed.entry (viewed : Viewed m inum din s) : s.itable 0 = opened inum din := by
  rw [viewed.table, Function.update_self]

theorem Viewed.live (viewed : Viewed m inum din s) : Live s 0 inum := by
  rw [Live, viewed.entry]
  exact ⟨Int.one_pos, rfl, rfl⟩

theorem Viewed.bread (viewed : Viewed m inum din s) (above : nmeta ≤ b) : s.bread b = m.disk b := by
  rw [bread_final viewed.disk viewed.clean, final_of_ne (ne_of_above above)]

/-- The kernel takes the block that is the next one of the program. -/
theorem balloc_viewed (viewed : Viewed m inum din s) (done : Fs.balloc sb s = .ok (b, s')) :
    b = m.freeblock ∧ Viewed { m with freeblock := m.freeblock + 1 } inum din s' := by
  obtain ⟨inside, free, rfl⟩ := balloc_cases done
  have above := viewed.room.above
  rw [inUse_final viewed.disk viewed.clean inside, decide_eq_false_iff_not] at free
  have first : b = m.freeblock := by
    by_contra apart
    have bounded : m.freeblock < fssize := Nat.lt_of_le_of_lt (Nat.not_lt.mp free) inside
    have marked := balloc_first done (Nat.lt_of_le_of_ne (Nat.not_lt.mp free) (Ne.symm apart))
    rw [inUse_final viewed.disk viewed.clean bounded, decide_eq_true_eq] at marked
    exact Nat.lt_irrefl _ marked
  subst first
  refine ⟨rfl, ?_⟩
  have place : bblock sb m.freeblock = sb.bmapstart := by
    rw [bblock, Nat.div_eq_of_lt (Nat.lt_trans inside (by decide)), Nat.zero_add]
  constructor
  · show Function.update (Function.update s.disk (bblock sb m.freeblock) _) m.freeblock _ = _
    rw [place, bread_final viewed.disk viewed.clean, viewed.disk]
    have sector := viewed.room.zero m.freeblock (Nat.le_refl _)
    have block : m.freeblock % bpb = m.freeblock := Nat.mod_eq_of_lt (Nat.lt_trans inside (by decide))
    rw [block, Image.final, Function.update_self, ← bitmap_succ, Function.update_idem,
      Function.update_comm (ne_of_above above).symm, ← sector, Function.update_eq_self]
    rfl
  · intro y
    exact unwritten_allocated (viewed.clean y)
  · exact viewed.table
  · exact ⟨Nat.le_succ_of_le above, inside, fun y high => viewed.room.zero y (Nat.le_of_succ_le high), viewed.room.super⟩

/-- An address that the kernel sets in its copy is one that the program sets. -/
theorem Viewed.setAddr (viewed : Viewed m inum din s) (k a : Nat) :
    Viewed m inum { din with addrs := Function.update din.addrs k a } (s.setAddr 0 k a) := by
  refine ⟨viewed.disk, viewed.clean, ?_, viewed.room⟩
  show Function.update s.itable 0 { s.itable 0 with addrs := Function.update (s.itable 0).addrs k a } = _
  rw [viewed.entry, viewed.table, Function.update_idem]
  rfl

/-- A sector behind the metadata that is written on both sides. -/
theorem Viewed.write (viewed : Viewed m inum din s) (above : nmeta ≤ b) (below : b < m.freeblock) (data : Memory) :
    Viewed (wsect m b data) inum din (s.bwrite b data) := by
  constructor
  · show Function.update s.disk b data = Function.update (Function.update m.disk b data) sb.bmapstart (bitmap m.freeblock)
    rw [viewed.disk, Image.final, Function.update_comm (ne_of_above above).symm]
  · exact fun y => unwritten_bwrite s data (Or.inr (viewed.clean y))
  · exact viewed.table
  · refine ⟨viewed.room.above, viewed.room.below, fun y high => ?_, ?_⟩
    · have apart : y ≠ b := Nat.ne_of_gt (Nat.lt_of_lt_of_le below high)
      exact (Function.update_of_ne apart ..).trans (viewed.room.zero y high)
    · have apart : 1 ≠ b := Nat.ne_of_lt (Nat.lt_of_lt_of_le (by decide) above)
      exact (Function.update_of_ne apart ..).trans viewed.room.super

/-- The slot of the program is that of the kernel. -/
theorem slotAddr_viewed (viewed : Viewed m inum din s) (done : slotAddr sb s 0 k = .ok (x, s')) :
    x = (slotSector m din k).2.addrs k ∧ Viewed (slotSector m din k).1 inum (slotSector m din k).2 s' := by
  have same : (s.itable 0).addrs k = din.addrs k := congrFun (congrArg Inode.addrs viewed.entry) k
  rcases slotAddr_cases done with ⟨busy, rfl, rfl⟩ | ⟨empty, mid, found, rfl⟩
  · rw [same] at busy ⊢
    rw [slotSector, if_neg busy]
    exact ⟨rfl, viewed⟩
  · obtain ⟨rfl, later⟩ := balloc_viewed viewed found
    rw [same] at empty
    rw [slotSector, if_pos empty]
    exact ⟨(Function.update_self k m.freeblock din.addrs).symm, later.setAddr k _⟩

/-- The entry of the indirect block of the program is that of the kernel. -/
theorem tableAddr_viewed (viewed : Viewed m inum din s) (above : nmeta ≤ table) (below : table < m.freeblock) (inside : table < fssize)
    (done : tableAddr sb s table j = .ok (x, s')) : ∃ m', tableSector m table j = .ok (x, m') ∧ Viewed m' inum din s' := by
  have read : rsect m table = .ok (s.bread table) := by rw [rsect, if_pos inside, viewed.bread above]
  unfold tableSector
  rw [read]
  rcases tableAddr_cases done with ⟨busy, rfl, rfl⟩ | ⟨empty, mid, found, rfl⟩
  · exact ⟨m, if_neg busy, viewed⟩
  · obtain ⟨rfl, later⟩ := balloc_viewed viewed found
    have written := later.write above (Nat.lt_succ_of_lt below) (setWord (mid.bread table) j m.freeblock)
    have same : mid.bread table = s.bread table := (later.bread above).trans (viewed.bread above).symm
    rw [same] at written ⊢
    exact ⟨_, if_pos empty, written⟩

/-- The sector of a block is the one that the kernel maps. -/
theorem sector_viewed (viewed : Viewed m inum din s) (sound : Sound sb s) (done : bmap sb s 0 fbn = .ok (x, s')) :
    ∃ m' din', sector m din fbn = .ok (x, m', din') ∧ Viewed m' inum din' s' := by
  rcases bmap_cases done with ⟨direct, slot⟩ | ⟨high, -, table, mid, found, rest⟩
  · obtain ⟨rfl, later⟩ := slotAddr_viewed viewed slot
    exact ⟨_, _, if_pos direct, later⟩
  · have filled := slotAddr_filled sound viewed.live (Nat.le_refl _) found
    obtain ⟨address, later⟩ := slotAddr_viewed viewed found
    have owned := filled.sound.owned
    have nonzero : pointer sb mid (inum, ndirect) ≠ 0 := by
      rw [filled.block]
      exact filled.nonzero
    have above := owned.above _ nonzero
    have inside := owned.below _ nonzero
    have marked := owned.marked _ nonzero
    rw [filled.block] at above inside marked
    rw [inUse_final later.disk later.clean inside, decide_eq_true_eq] at marked
    obtain ⟨m', wrote, written⟩ := tableAddr_viewed later above marked inside rest
    rw [address] at wrote
    refine ⟨m', (slotSector m din ndirect).2, ?_, written⟩
    rw [sector, if_neg high]
    show (tableSector (slotSector m din ndirect).1 ((slotSector m din ndirect).2.addrs ndirect) (fbn - ndirect) >>= _) = _
    rw [wrote]
    rfl

/-- The round of the program moves as many bytes as that of the kernel, at the same place. -/
theorem round_same (off left : Nat) : min left ((off / bsize + 1) * bsize - off) = min left (bsize - off % bsize) ∧
    off - off / bsize * bsize = off % bsize := by
  have quotient := Nat.div_add_mod off bsize
  have block : off / bsize * bsize = bsize * (off / bsize) := Nat.mul_comm ..
  have next : (off / bsize + 1) * bsize = off / bsize * bsize + bsize := Nat.succ_mul ..
  have rest : (off / bsize + 1) * bsize - off = bsize - off % bsize := by omega
  exact ⟨by rw [rest], by omega⟩

/-- A write of the kernel that completes is one of the program. -/
theorem appendLoop_viewed (viewed : Viewed m inum din s) (sound : Sound sb s)
    (done : writeLoop sb 0 p none n rounds s tot off = .ok (count, last, s')) :
    ∃ m' din', appendLoop p n rounds m din tot off = .ok (m', din', last) ∧ Viewed m' inum din' s' := by
  induction rounds generalizing m din s tot off with
  | zero =>
      simp only [writeLoop, Except.ok.injEq, Prod.mk.injEq] at done
      obtain ⟨rfl, rfl, rfl⟩ := done
      exact ⟨m, din, rfl, viewed⟩
  | succ rounds ih =>
      by_cases more : tot < n
      · obtain ⟨b, mid, mapped, rest⟩ := writeLoop_round more done
        have found := bmap_mapped sound viewed.live mapped
        obtain ⟨m', din', same, later⟩ := sector_viewed viewed sound mapped
        have put := put_bwrite found.sound found.block found.nonzero
          (splice (mid.bread b) (off % bsize) (min (n - tot) (bsize - off % bsize)) fun k => p (tot + k))
        have owned := found.sound.owned
        have nonzero : pointer sb mid (inum, place (off / bsize)) ≠ 0 := by
          rw [found.block]
          exact found.nonzero
        have above := owned.above _ nonzero
        have inside := owned.below _ nonzero
        have marked := owned.marked _ nonzero
        rw [found.block] at above inside marked
        rw [inUse_final later.disk later.clean inside, decide_eq_true_eq] at marked
        have read : rsect m' b = .ok (mid.bread b) := by
          rw [later.bread above]
          exact if_pos inside
        obtain ⟨moved, offset⟩ := round_same off (n - tot)
        obtain ⟨m'', din'', appended, final⟩ := ih (later.write above marked _) put.sound rest
        refine ⟨m'', din'', ?_, final⟩
        have small := found.inside
        rw [appendLoop, if_pos more]
        dsimp only
        rw [if_neg (Nat.not_le.mpr small), same]
        show (rsect m' b >>= _) = _
        rw [read, moved, offset]
        exact appended
      · rw [writeLoop, if_neg more] at done
        simp only [Except.ok.injEq, Prod.mk.injEq] at done
        obtain ⟨rfl, rfl, rfl⟩ := done
        exact ⟨m, din, by rw [appendLoop, if_neg more], viewed⟩

end BtbuOs.Nfs
