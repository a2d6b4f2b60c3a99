import BtbuOs.Fs.Inode

namespace BtbuOs.Fs

open Bytes

/-- The first block behind the boot block, the superblock, the inode blocks and the free map. -/
def dataStart (sb : Superblock) : Nat := sb.bmapstart + sb.size / bpb + 1

/-- The inode blocks end before the free map, and the block numbers of the loops are positive `int`s. -/
structure Superblock.Valid (sb : Superblock) : Prop where
  inodes : sb.inodestart + sb.ninodes / ipb < sb.bmapstart
  size : sb.size < 2 ^ 31

variable {sb : Superblock} {s : State} {b i x y : Nat} {data : Memory}

theorem iblock_lt (valid : sb.Valid) (inside : i < sb.ninodes) : iblock sb i < sb.bmapstart := by
  have bound := valid.inodes
  have quotient := Nat.div_le_div_right (c := ipb) (Nat.le_of_lt inside)
  rw [iblock]
  omega

theorem bblock_lt (inside : b < sb.size) : bblock sb b < dataStart sb := by
  have quotient := Nat.div_le_div_right (c := bpb) (Nat.le_of_lt inside)
  rw [bblock, dataStart]
  omega

theorem le_bblock (sb : Superblock) (b : Nat) : sb.bmapstart ≤ bblock sb b := Nat.le_add_left ..

theorem bmapstart_lt (sb : Superblock) : sb.bmapstart < dataStart sb :=
  Nat.lt_succ_of_le (Nat.le_add_right _ _)

/-- The block is marked in the free map. -/
def mark (sb : Superblock) (s : State) (b : Nat) : State := s.bwrite (bblock sb b) (setBit (s.bread (bblock sb b)) (b % bpb))

/-- The block is free in the free map. -/
def clear (sb : Superblock) (s : State) (b : Nat) : State := s.bwrite (bblock sb b) (clearBit (s.bread (bblock sb b)) (b % bpb))

namespace State

@[simp] theorem bread_bwrite (s : State) (b : Nat) (data : Memory) : (s.bwrite b data).bread b = data := by
  simp [bread, bwrite]

theorem bread_bwrite_of_ne (s : State) (data : Memory) (apart : x ≠ b) : (s.bwrite b data).bread x = s.bread x := by
  simp [bread, bwrite, apart]

@[simp] theorem bread_spoil (s : State) (b : Nat) (data : Memory) : (s.spoil b data).bread b = data := by
  simp [bread, spoil]

theorem bread_spoil_of_ne (s : State) (data : Memory) (apart : x ≠ b) : (s.spoil b data).bread x = s.bread x := by
  simp [bread, spoil, apart]

theorem bread_recycle_of_ne (s : State) (apart : x ≠ b) : (s.recycle b).bread x = s.bread x := by
  simp [bread, recycle, apart]

theorem bread_recycle_of_written (s : State) (b : Nat) (written : s.unwritten x = none) : (s.recycle b).bread x = s.bread x := by
  by_cases own : x = b
  · subst own
    simp [bread, recycle, written]
  · exact bread_recycle_of_ne s own

theorem unwritten_bwrite (s : State) (data : Memory) (written : x = b ∨ s.unwritten x = none) : (s.bwrite b data).unwritten x = none := by
  by_cases own : x = b
  · rw [own]
    exact Function.update_self ..
  · exact (Function.update_of_ne own _ _).trans (written.resolve_left own)

theorem unwritten_spoil (s : State) (data : Memory) (apart : x ≠ b) : (s.spoil b data).unwritten x = s.unwritten x :=
  Function.update_of_ne apart ..

theorem unwritten_recycle (s : State) (b : Nat) (written : s.unwritten x = none) : (s.recycle b).unwritten x = none := by
  by_cases own : x = b
  · rw [own]
    exact Function.update_self ..
  · exact (Function.update_of_ne own _ _).trans written

@[simp] theorem bread_setInode (s : State) (ip : InodeIx) (inode : Inode) (b : Nat) : (s.setInode ip inode).bread b = s.bread b := rfl

@[simp] theorem bread_setAddr (s : State) (ip : InodeIx) (k addr b : Nat) : (s.setAddr ip k addr).bread b = s.bread b := rfl

@[simp] theorem bread_setRef (s : State) (ip : InodeIx) (ref : Int) (b : Nat) : (s.setRef ip ref).bread b = s.bread b := rfl

@[simp] theorem bread_take (s : State) (refs : Place → Nat) (a b : Nat) : (s.take refs a).bread b = s.bread b := rfl

@[simp] theorem itable_bwrite (s : State) (b : Nat) (data : Memory) : (s.bwrite b data).itable = s.itable := rfl

@[simp] theorem itable_spoil (s : State) (b : Nat) (data : Memory) : (s.spoil b data).itable = s.itable := rfl

@[simp] theorem itable_setInode (s : State) (ip : InodeIx) (inode : Inode) : (s.setInode ip inode).itable ip = inode :=
  Function.update_self ..

theorem itable_setInode_of_ne {ip iq : InodeIx} (s : State) (inode : Inode) (apart : iq ≠ ip) :
    (s.setInode ip inode).itable iq = s.itable iq :=
  Function.update_of_ne apart ..

end State

open State

/-- The blocks of the free map decide which blocks are in use. -/
theorem inUse_congr {other : State} (same : other.bread (bblock sb x) = s.bread (bblock sb x)) :
    inUse sb other x = inUse sb s x := by
  rw [inUse, inUse, same]

theorem dinode_congr {other : State} (same : other.bread (iblock sb i) = s.bread (iblock sb i)) :
    dinode sb other i = dinode sb s i := by
  rw [dinode, dinode, same]

/-- Inside one block of the free map the place decides the block. -/
theorem bblock_place (block : bblock sb x = bblock sb b) : x % bpb = b % bpb ↔ x = b := by
  simp only [bblock, Nat.add_right_cancel_iff] at block
  constructor
  · intro same
    rw [← Nat.div_add_mod x bpb, ← Nat.div_add_mod b bpb, block, same]
  · rintro rfl
    rfl

theorem inUse_mark (sb : Superblock) (s : State) (b x : Nat) :
    inUse sb (mark sb s b) x = (decide (x = b) || inUse sb s x) := by
  by_cases block : bblock sb x = bblock sb b
  · rw [inUse, mark, block, bread_bwrite, bit_setBit, inUse, block]
    simp only [bblock_place block]
  · have apart : x ≠ b := by
      rintro rfl
      exact block rfl
    have same : inUse sb (mark sb s b) x = inUse sb s x := inUse_congr (bread_bwrite_of_ne s _ block)
    simp [same, apart]

theorem inUse_clear (sb : Superblock) (s : State) (b x : Nat) :
    inUse sb (clear sb s b) x = (!decide (x = b) && inUse sb s x) := by
  by_cases block : bblock sb x = bblock sb b
  · rw [inUse, clear, block, bread_bwrite, bit_clearBit, inUse, block]
    simp only [bblock_place block]
  · have apart : x ≠ b := by
      rintro rfl
      exact block rfl
    have same : inUse sb (clear sb s b) x = inUse sb s x := inUse_congr (bread_bwrite_of_ne s _ block)
    simp [same, apart]

theorem Dinode.Same.refl (d : Dinode) : d.Same d := ⟨rfl, rfl, rfl, fun _ _ => rfl⟩

theorem Dinode.Same.trans {d e f : Dinode} (first : d.Same e) (second : e.Same f) : d.Same f :=
  ⟨first.type.trans second.type, first.nlink.trans second.nlink, first.size.trans second.size,
    fun k inside => (first.addrs k inside).trans (second.addrs k inside)⟩

/-- The write of an inode block that keeps the bytes of the other inodes keeps these. -/
theorem dinode_bwrite_of_ne {inum : Nat} (s : State) {block : Memory} (apart : i ≠ inum)
    (outside : ∀ k, k < dinodeAt inum ∨ dinodeAt inum + dinodeSize ≤ k → block k = s.bread (iblock sb inum) k) :
    (dinode sb (s.bwrite (iblock sb inum) block) i).Same (dinode sb s i) := by
  by_cases place : iblock sb i = iblock sb inum
  · rw [dinode, dinode, place, bread_bwrite]
    apply getDinode_congr
    intro k above below
    apply outside
    have quotient : i / ipb = inum / ipb := Nat.add_right_cancel place
    have distinct := dinodeAt_apart quotient apart
    omega
  · rw [dinode_congr (bread_bwrite_of_ne s block place)]
    exact Dinode.Same.refl _

/-- The inode that `iupdate` writes. -/
def Inode.toDinode (inode : Inode) : Dinode := ⟨inode.type, inode.nlink, inode.size, inode.addrs⟩

theorem dinode_iupdate (sb : Superblock) (s : State) (ip : InodeIx) :
    (dinode sb (iupdate sb s ip) (s.itable ip).inum).Same (s.itable ip).toDinode.cut := by
  rw [dinode, iupdate, bread_bwrite]
  exact getDinode_putDinode _ _ _

theorem dinode_iupdate_of_ne {ip : InodeIx} (apart : i ≠ (s.itable ip).inum) :
    (dinode sb (iupdate sb s ip) i).Same (dinode sb s i) :=
  dinode_bwrite_of_ne s apart fun _ outside => putDinode_outside _ _ _ outside

@[simp] theorem itable_iupdate (sb : Superblock) (s : State) (ip : InodeIx) : (iupdate sb s ip).itable = s.itable := rfl

@[simp] theorem itable_mark (sb : Superblock) (s : State) (b : Nat) : (mark sb s b).itable = s.itable := rfl

@[simp] theorem itable_clear (sb : Superblock) (s : State) (b : Nat) : (clear sb s b).itable = s.itable := rfl

section Frames

/-- A write of a data block keeps the free map. -/
theorem inUse_bwrite (s : State) (data : Memory) (inside : x < sb.size) (above : dataStart sb ≤ y) :
    inUse sb (s.bwrite y data) x = inUse sb s x := by
  have below := bblock_lt inside
  exact inUse_congr (bread_bwrite_of_ne s data (by omega))

theorem inUse_spoil (s : State) (data : Memory) (inside : x < sb.size) (above : dataStart sb ≤ y) :
    inUse sb (s.spoil y data) x = inUse sb s x := by
  have below := bblock_lt inside
  exact inUse_congr (bread_spoil_of_ne s data (by omega))

/-- A write of a data block keeps the inodes on the disk. -/
theorem dinode_bwrite (valid : sb.Valid) (s : State) (data : Memory) (inside : i < sb.ninodes) (above : dataStart sb ≤ y) :
    dinode sb (s.bwrite y data) i = dinode sb s i := by
  have below := iblock_lt valid inside
  have between := bmapstart_lt sb
  exact dinode_congr (bread_bwrite_of_ne s data (by omega))

theorem dinode_spoil (valid : sb.Valid) (s : State) (data : Memory) (inside : i < sb.ninodes) (above : dataStart sb ≤ y) :
    dinode sb (s.spoil y data) i = dinode sb s i := by
  have below := iblock_lt valid inside
  have between := bmapstart_lt sb
  exact dinode_congr (bread_spoil_of_ne s data (by omega))

theorem dinode_mark (valid : sb.Valid) (s : State) (b : Nat) (inside : i < sb.ninodes) :
    dinode sb (mark sb s b) i = dinode sb s i := by
  have below := iblock_lt valid inside
  have above := le_bblock sb b
  exact dinode_congr (bread_bwrite_of_ne s _ (by omega))

theorem dinode_clear (valid : sb.Valid) (s : State) (b : Nat) (inside : i < sb.ninodes) :
    dinode sb (clear sb s b) i = dinode sb s i := by
  have below := iblock_lt valid inside
  have above := le_bblock sb b
  exact dinode_congr (bread_bwrite_of_ne s _ (by omega))

/-- A change of the free map keeps the data blocks. -/
theorem bread_mark (s : State) (inside : b < sb.size) (above : dataStart sb ≤ y) : (mark sb s b).bread y = s.bread y := by
  have below := bblock_lt inside
  exact bread_bwrite_of_ne s _ (by omega)

theorem bread_clear (s : State) (inside : b < sb.size) (above : dataStart sb ≤ y) : (clear sb s b).bread y = s.bread y := by
  have below := bblock_lt inside
  exact bread_bwrite_of_ne s _ (by omega)

variable {ip : InodeIx}

/-- A write of an inode keeps the free map and the data blocks. -/
theorem inUse_iupdate (valid : sb.Valid) (inside : (s.itable ip).inum < sb.ninodes) (x : Nat) :
    inUse sb (iupdate sb s ip) x = inUse sb s x := by
  have below := iblock_lt valid inside
  have above := le_bblock sb x
  exact inUse_congr (bread_bwrite_of_ne s _ (by omega))

theorem bread_iupdate (valid : sb.Valid) (inside : (s.itable ip).inum < sb.ninodes) (above : dataStart sb ≤ y) :
    (iupdate sb s ip).bread y = s.bread y := by
  have below := iblock_lt valid inside
  have between := bmapstart_lt sb
  exact bread_bwrite_of_ne s _ (by omega)

end Frames

end BtbuOs.Fs
