import BtbuOs.Lib.Bytes
import BtbuOs.Lib.Machine

namespace BtbuOs.Fs

open Bytes

/-- The macro `BSIZE`. -/
abbrev bsize : Nat := 1024

/-- The macro `NINODE`. -/
abbrev ninode : Nat := 50

instance : NeZero ninode := ⟨by decide⟩

/-- The macro `ROOTINO`. -/
def rootino : Nat := 1

/-- The macro `NDIRECT`. -/
abbrev ndirect : Nat := 12

/-- The macro `NINDIRECT`. -/
abbrev nindirect : Nat := bsize / 4

/-- The macro `MAXFILE`. -/
abbrev maxfile : Nat := ndirect + nindirect

/-- The macros `T_DIR` and `T_FILE`. -/
def tDir : Nat := 1
def tFile : Nat := 2

/-- The size of `struct dinode`. -/
abbrev dinodeSize : Nat := 64

/-- The macro `IPB`. -/
abbrev ipb : Nat := bsize / dinodeSize

/-- The macro `BPB`. -/
abbrev bpb : Nat := bsize * 8

/-- The macro `DIRSIZ`. -/
abbrev dirsiz : Nat := 14

/-- The size of `struct dirent`. -/
abbrev direntSize : Nat := 16

/-- The fields of the superblock that the kernel uses after `fsinit`. -/
structure Superblock where
  size : Nat
  ninodes : Nat
  inodestart : Nat
  bmapstart : Nat

/-- The macro `IBLOCK`. -/
def iblock (sb : Superblock) (inum : Nat) : Nat := inum / ipb + sb.inodestart

/-- The macro `BBLOCK`. -/
def bblock (sb : Superblock) (b : Nat) : Nat := b / bpb + sb.bmapstart

/-- The fields of `struct dinode`; `addrs` has `NDIRECT + 1` entries. -/
structure Dinode where
  type : Nat
  nlink : Nat
  size : Nat
  addrs : Nat → Nat

/-- The two inodes agree on their fields and the `NDIRECT + 1` addresses. -/
structure Dinode.Same (d e : Dinode) : Prop where
  type : d.type = e.type
  nlink : d.nlink = e.nlink
  size : d.size = e.size
  addrs : ∀ k, k ≤ ndirect → d.addrs k = e.addrs k

/-- The inode that the fields of `struct dinode` can hold. -/
def Dinode.cut (d : Dinode) : Dinode where
  type := d.type % 2 ^ 16
  nlink := d.nlink % 2 ^ 16
  size := d.size % 2 ^ 32
  addrs k := d.addrs k % 2 ^ 32

/-- The offset of an inode in its block. -/
def dinodeAt (inum : Nat) : Nat := dinodeSize * (inum % ipb)

def getDinode (block : Memory) (inum : Nat) : Dinode where
  type := load block (dinodeAt inum) 2
  nlink := load block (dinodeAt inum + 2) 2
  size := load block (dinodeAt inum + 8) 4
  addrs k := load block (dinodeAt inum + 12 + 4 * k) 4

/-- The four assignments of `iupdate` leave the padding alone. -/
def putDinode (block : Memory) (inum : Nat) (d : Dinode) : Memory :=
  let block := store block (dinodeAt inum) 2 d.type
  let block := store block (dinodeAt inum + 2) 2 d.nlink
  let block := store block (dinodeAt inum + 8) 4 d.size
  storeArray block (dinodeAt inum + 12) 4 (ndirect + 1) d.addrs

/-- The call of `memset` in `ialloc` clears the whole inode before its type and link count are set. -/
def clearDinode (block : Memory) (inum type : Nat) : Memory :=
  let block := splice block (dinodeAt inum) dinodeSize fun _ => 0
  let block := store block (dinodeAt inum) 2 type
  store block (dinodeAt inum + 2) 2 1

/-- The entry of an indirect block. -/
def word (block : Memory) (j : Nat) : Nat := load block (4 * j) 4

def setWord (block : Memory) (j value : Nat) : Memory := store block (4 * j) 4 value

@[simp] theorem word_setWord (block : Memory) (j value : Nat) : word (setWord block j value) j = value % 2 ^ 32 :=
  load_store ..

theorem word_setWord_of_ne (block : Memory) {i j : Nat} (value : Nat) (other : i ≠ j) :
    word (setWord block j value) i = word block i :=
  load_store_of_disjoint block value (by omega)

theorem word_lt (block : Memory) (j : Nat) : word block j < 2 ^ 32 := load_lt ..

@[simp] theorem word_zero (j : Nat) : word (fun _ => 0) j = 0 := load_zero fun _ _ _ => rfl

/-- The inode comes back with its numbers cut to the size of their fields. -/
theorem getDinode_putDinode (block : Memory) (inum : Nat) (d : Dinode) :
    (getDinode (putDinode block inum d) inum).Same d.cut := by
  constructor
  · show load (putDinode block inum d) (dinodeAt inum) 2 = _
    rw [putDinode, load_storeArray_of_disjoint _ _ (by omega), load_store_of_disjoint _ _ (by omega),
      load_store_of_disjoint _ _ (by omega), load_store]
    rfl
  · show load (putDinode block inum d) (dinodeAt inum + 2) 2 = _
    rw [putDinode, load_storeArray_of_disjoint _ _ (by omega), load_store_of_disjoint _ _ (by omega), load_store]
    rfl
  · show load (putDinode block inum d) (dinodeAt inum + 8) 4 = _
    rw [putDinode, load_storeArray_of_disjoint _ _ (by omega), load_store]
    rfl
  · intro k inside
    exact load_storeArray _ _ (by omega)

/-- Two inodes of one block do not overlap. -/
theorem dinodeAt_apart {i j : Nat} (block : i / ipb = j / ipb) (other : i ≠ j) :
    dinodeAt i + dinodeSize ≤ dinodeAt j ∨ dinodeAt j + dinodeSize ≤ dinodeAt i := by
  simp only [dinodeAt, dinodeSize, ipb, bsize] at *
  omega

theorem getDinode_congr {block other : Memory} {inum : Nat}
    (same : ∀ k, dinodeAt inum ≤ k → k < dinodeAt inum + dinodeSize → block k = other k) :
    (getDinode block inum).Same (getDinode other inum) := by
  have span : dinodeSize = 64 := rfl
  have last : ndirect = 12 := rfl
  constructor
  · exact load_congr fun k above below => same k (by omega) (by omega)
  · exact load_congr fun k above below => same k (by omega) (by omega)
  · exact load_congr fun k above below => same k (by omega) (by omega)
  · intro k inside
    exact load_congr fun k above below => same k (by omega) (by omega)

/-- A write of one inode keeps the others of its block. -/
theorem putDinode_outside (block : Memory) (inum : Nat) (d : Dinode) {k : Nat}
    (outside : k < dinodeAt inum ∨ dinodeAt inum + dinodeSize ≤ k) : putDinode block inum d k = block k := by
  simp only [putDinode, store, storeArray, dinodeSize, ndirect] at *
  rw [if_neg (by omega), if_neg (by omega), if_neg (by omega), if_neg (by omega)]

theorem clearDinode_outside (block : Memory) (inum type : Nat) {k : Nat}
    (outside : k < dinodeAt inum ∨ dinodeAt inum + dinodeSize ≤ k) : clearDinode block inum type k = block k := by
  simp only [clearDinode, store, splice, dinodeSize] at *
  rw [if_neg (by omega), if_neg (by omega), if_neg (by omega)]

/-- A new inode has its type, one link and no block. -/
theorem getDinode_clearDinode (block : Memory) (inum type : Nat) :
    (getDinode (clearDinode block inum type) inum).Same { type := type % 2 ^ 16, nlink := 1, size := 0, addrs := fun _ => 0 } := by
  have span : dinodeSize = 64 := rfl
  have last : ndirect = 12 := rfl
  have cleared {place width : Nat} (above : dinodeAt inum ≤ place) (below : place + width ≤ dinodeAt inum + dinodeSize) :
      load (splice block (dinodeAt inum) dinodeSize fun _ => 0) place width = 0 :=
    load_zero fun k start stop => splice_inside _ _ (by omega) (by omega)
  constructor
  · have value : load (clearDinode block inum type) (dinodeAt inum) 2 = type % 256 ^ 2 := by
      rw [clearDinode, load_store_of_disjoint _ _ (by omega), load_store]
    exact value
  · have value : load (clearDinode block inum type) (dinodeAt inum + 2) 2 = 1 % 256 ^ 2 := by
      rw [clearDinode, load_store]
    exact value
  · show load (clearDinode block inum type) (dinodeAt inum + 8) 4 = _
    rw [clearDinode, load_store_of_disjoint _ _ (by omega), load_store_of_disjoint _ _ (by omega)]
    exact cleared (by omega) (by omega)
  · intro k inside
    show load (clearDinode block inum type) (dinodeAt inum + 12 + 4 * k) 4 = _
    rw [clearDinode, load_store_of_disjoint _ _ (by omega), load_store_of_disjoint _ _ (by omega)]
    exact cleared (by omega) (by omega)

end BtbuOs.Fs
