import BtbuOs.Fs.Namei
import Mathlib.Data.List.TakeWhile

namespace BtbuOs.Nfs

open Bytes Fs

/-- The macro `FSSIZE`. -/
abbrev fssize : Nat := 1000

/-- The macro `NINODES`. -/
abbrev ninodes : Nat := 200

/-- The global variables of the program that depend on the macros alone. -/
abbrev nbitmap : Nat := fssize / (bsize * 8) + 1
abbrev ninodeblocks : Nat := ninodes / ipb + 1
abbrev nmeta : Nat := 2 + ninodeblocks + nbitmap
abbrev nblocks : Nat := fssize - nmeta

/-- The superblock of every image. -/
def sb : Superblock := { size := fssize, ninodes := ninodes, inodestart := 2, bmapstart := 2 + ninodeblocks }

/-- The image file and the two counters. -/
structure Image where
  disk : Nat → Memory
  freeinode : Nat
  freeblock : Nat

/-- The image file has `FSSIZE` sectors, and a read behind them ends the program. -/
def rsect (m : Image) (sec : Nat) : Except String Memory := if sec < fssize then .ok (m.disk sec) else .error "read"

def wsect (m : Image) (sec : Nat) (buf : Memory) : Image := { m with disk := Function.update m.disk sec buf }

/-- The fields are stored in the order of their bytes in the image, which `xint` and `xshort` give them. -/
def rinode (m : Image) (inum : Nat) : Except String Dinode := do
  let buf ← rsect m (iblock sb inum)
  .ok (getDinode buf inum)

/-- The inode was read from the same sector, so its padding is that of the sector. -/
def winode (m : Image) (inum : Nat) (din : Dinode) : Except String Image := do
  let buf ← rsect m (iblock sb inum)
  .ok (wsect m (iblock sb inum) (putDinode buf inum din))

/-- The new inode is zero, with its padding, but for its type and its link count. -/
def ialloc (m : Image) (type : Nat) : Except String (Nat × Image) := do
  let buf ← rsect m (iblock sb m.freeinode)
  let m' := wsect m (iblock sb m.freeinode) (clearDinode buf m.freeinode type)
  .ok (m.freeinode, { m' with freeinode := m.freeinode + 1 })

/-- The loop sets the first bits of a sector of zeros. -/
def bitmap (used : Nat) : Memory := (List.range used).foldl setBit fun _ => 0

def balloc (m : Image) (used : Nat) : Except String Image :=
  if used < bsize * 8 then .ok (wsect m sb.bmapstart (bitmap used)) else .error "assert"

/-- An empty slot of the inode gets the next free sector. -/
def slotSector (m : Image) (din : Dinode) (k : Nat) : Image × Dinode :=
  if din.addrs k = 0 then
    ({ m with freeblock := m.freeblock + 1 }, { din with addrs := Function.update din.addrs k m.freeblock })
  else (m, din)

/-- An empty entry of the indirect sector gets the next free sector. -/
def tableSector (m : Image) (table j : Nat) : Except String (Nat × Image) := do
  let indirect ← rsect m table
  if word indirect j = 0 then
    let m' := wsect m table (setWord indirect j m.freeblock)
    .ok (m.freeblock, { m' with freeblock := m.freeblock + 1 })
  else .ok (word indirect j, m)

/-- The sector of block `fbn` of the inode, with a new one if there is none. -/
def sector (m : Image) (din : Dinode) (fbn : Nat) : Except String (Nat × Image × Dinode) :=
  if fbn < ndirect then
    let (m, din) := slotSector m din fbn
    .ok (din.addrs fbn, m, din)
  else do
    let (m, din) := slotSector m din ndirect
    let (x, m) ← tableSector m (din.addrs ndirect) (fbn - ndirect)
    .ok (x, m, din)

/-- The loop of `iappend`; each round moves at least one byte, so `n` rounds are enough. -/
def appendLoop (p : Memory) (n : Nat) : Nat → Image → Dinode → Nat → Nat → Except String (Image × Dinode × Nat)
  | 0, m, din, _, off => .ok (m, din, off)
  | rounds + 1, m, din, tot, off =>
      if tot < n then do
        let fbn := off / bsize
        if fbn ≥ maxfile then .error "assert"
        else do
          let (x, m, din) ← sector m din fbn
          let n1 := min (n - tot) ((fbn + 1) * bsize - off)
          let buf ← rsect m x
          let m := wsect m x (splice buf (off - fbn * bsize) n1 fun k => p (tot + k))
          appendLoop p n rounds m din (tot + n1) (off + n1)
      else .ok (m, din, off)

def iappend (m : Image) (inum : Nat) (p : Memory) (n : Nat) : Except String Image := do
  let din ← rinode m inum
  let (m, din, off) ← appendLoop p n n m din 0 din.size
  winode m inum { din with size := off }

/-- The character that separates the parts of a path. -/
def slash : Byte := 47

/-- The loop of `basename` goes on behind the first slash until there is none; a path has no more slashes than characters. -/
def basenameLoop : Nat → List Byte → List Byte
  | 0, path => path
  | rounds + 1, path => if slash ∈ path then basenameLoop rounds ((path.dropWhile (· ≠ slash)).drop 1) else path

def basename (path : List Byte) : List Byte := basenameLoop path.length path

/-- The characters of a string with the zero behind them. -/
def cstring (text : List Byte) : Memory := fun k => text.getD k 0

/-- A file on the host: its path, its bytes and the results of the calls of `read` before the one that returns zero. -/
structure File where
  path : List Byte
  data : Memory
  reads : List Nat
  text : 0 ∉ path
  positive : ∀ cc ∈ reads, 0 < cc
  fits : ∀ cc ∈ reads, cc ≤ bsize

/-- The name that the program gives the file in the image. -/
def File.shortname (f : File) : Memory := cstring (basename f.path)

def File.size (f : File) : Nat := f.reads.sum

/-- The loop over the calls of `read`. -/
def appendReads (inum : Nat) (data : Memory) : List Nat → Image → Nat → Except String Image
  | [], m, _ => .ok m
  | cc :: reads, m, off => do
      let m ← iappend m inum (fun k => data (off + k)) cc
      appendReads inum data reads m (off + cc)

/-- One round of the loop over the files. -/
def addFile (m : Image) (f : File) : Except String Image :=
  if slash ∈ basename f.path then .error "assert"
  else do
    let (inum, m) ← ialloc m tFile
    let m ← iappend m rootino (dirent inum f.shortname) direntSize
    appendReads inum f.data f.reads m 0

/-- The superblock in its sector. -/
def superSector : Memory :=
  let buf := store (fun _ => 0) 0 4 fsmagic
  let buf := store buf 4 4 fssize
  let buf := store buf 8 4 nblocks
  let buf := store buf 12 4 ninodes
  let buf := store buf 16 4 2
  store buf 20 4 (2 + ninodeblocks)

/-- All sectors are zero but for the superblock, and the counters are those before the first call of `ialloc`. -/
def blank : Image := { disk := Function.update (fun _ _ => 0) 1 superSector, freeinode := 1, freeblock := nmeta }

/-- The size of the root directory ends with a block. -/
def fixRoot (m : Image) : Except String Image := do
  let din ← rinode m rootino
  winode m rootino { din with size := (din.size / bsize + 1) * bsize }

/-- The sectors that the program writes for the files on its command line. -/
def mkfs (files : List File) : Except String (Nat → Memory) := do
  let (_, m) ← ialloc blank tDir
  let m ← files.foldlM addFile m
  let m ← fixRoot m
  let m ← balloc m m.freeblock
  .ok m.disk

variable {path : List Byte}

/-- The part of a path behind a slash is shorter. -/
theorem behind_slash (member : slash ∈ path) : ((path.dropWhile (· ≠ slash)).drop 1).length < path.length := by
  have left : path.dropWhile (· ≠ slash) ≠ [] := by
    intro none
    have all := List.dropWhile_eq_nil_iff.mp none slash member
    simp at all
  have shorter := (List.dropWhile_suffix (l := path) (· ≠ slash)).length_le
  have positive := List.length_pos_of_ne_nil left
  rw [List.length_drop]
  omega

theorem basenameLoop_plain (rounds : Nat) (path : List Byte) (enough : path.length ≤ rounds) : slash ∉ basenameLoop rounds path := by
  induction rounds generalizing path with
  | zero =>
      rw [List.eq_nil_of_length_eq_zero (Nat.le_zero.mp enough)]
      exact List.not_mem_nil
  | succ rounds ih =>
      rw [basenameLoop]
      split
      · rename_i member
        have shorter := behind_slash member
        exact ih _ (by omega)
      · assumption

/-- The assertion on the name of a file never fails. -/
theorem basename_plain (path : List Byte) : slash ∉ basename path := basenameLoop_plain _ path (Nat.le_refl _)

/-- The free map marks the sectors below a number. -/
theorem bit_bitmap (used b : Nat) : bit (bitmap used) b = decide (b < used) := by
  unfold bitmap
  induction used with
  | zero => simp [bit]
  | succ used ih =>
      rw [List.range_succ, List.foldl_append, List.foldl_cons, List.foldl_nil, bit_setBit, ih, ← Bool.decide_or, decide_eq_decide]
      omega

theorem bitmap_succ (used : Nat) : bitmap (used + 1) = setBit (bitmap used) used := by
  rw [bitmap, List.range_succ, List.foldl_append, List.foldl_cons, List.foldl_nil, ← bitmap]

section Counter

open Machine

variable {m m' : Image} {din din' : Dinode} {k x table j fbn n rounds tot off last : Nat} {p buf : Memory}

theorem slotSector_freeinode (m : Image) (din : Dinode) (k : Nat) : (slotSector m din k).1.freeinode = m.freeinode := by
  unfold slotSector
  split <;> rfl

theorem tableSector_freeinode (done : tableSector m table j = .ok (x, m')) : m'.freeinode = m.freeinode := by
  obtain ⟨indirect, -, rest⟩ := bind_ok.mp done
  dsimp only at rest
  split at rest
  · cases rest
    rfl
  · cases rest
    rfl

theorem sector_freeinode (done : sector m din fbn = .ok (x, m', din')) : m'.freeinode = m.freeinode := by
  unfold sector at done
  split at done
  · have slot := slotSector_freeinode m din fbn
    simp only [Except.ok.injEq, Prod.mk.injEq] at done
    rw [← done.2.1, slot]
  · have slot := slotSector_freeinode m din ndirect
    generalize slotSector m din ndirect = slotted at done slot
    obtain ⟨⟨y, m1⟩, found, rest⟩ := bind_ok.mp done
    cases rest
    rw [tableSector_freeinode found, slot]

/-- Bytes that are appended give no inode a number. -/
theorem appendLoop_freeinode (done : appendLoop p n rounds m din tot off = .ok (m', din', last)) : m'.freeinode = m.freeinode := by
  induction rounds generalizing m din tot off with
  | zero =>
      cases done
      rfl
  | succ rounds ih =>
      rw [appendLoop] at done
      split at done
      · dsimp only at done
        split at done
        · contradiction
        · obtain ⟨⟨y, m1, din1⟩, found, rest⟩ := bind_ok.mp done
          obtain ⟨buf, -, rest⟩ := bind_ok.mp rest
          have same : m1.freeinode = m.freeinode := sector_freeinode found
          exact (ih rest).trans same
      · cases done
        rfl

end Counter

end BtbuOs.Nfs
