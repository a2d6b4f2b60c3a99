import BtbuOs.Fs.Layout

namespace BtbuOs.Fs

open Bytes

/-- A cached inode is named by its index in `itable`. -/
abbrev InodeIx := Fin ninode

/-- The fields of `struct inode`; the device is always `ROOTDEV`. -/
structure Inode where
  inum : Nat
  ref : Int
  valid : Bool
  type : Nat
  nlink : Nat
  size : Nat
  addrs : Nat → Nat

/-- A place that can refer to a block: the direct slots, the indirect pointer and the entries of the indirect block. -/
abbrev Place := Nat × Nat

/-- The disk, the buffers that were changed without a `bwrite`, and the inode table; `taken` records the references at each call of `balloc` with the block it returns. -/
structure State where
  disk : Nat → Memory
  unwritten : Nat → Option Memory
  itable : InodeIx → Inode
  taken : List ((Place → Nat) × Nat)

namespace State

/-- The data of the buffer that `bread` returns. -/
def bread (s : State) (b : Nat) : Memory := (s.unwritten b).getD (s.disk b)

/-- The buffer gets new data, which go to the disk. -/
def bwrite (s : State) (b : Nat) (data : Memory) : State :=
  { s with disk := Function.update s.disk b data, unwritten := Function.update s.unwritten b none }

/-- The buffer gets new data and is released without a `bwrite`. -/
def spoil (s : State) (b : Nat) (data : Memory) : State :=
  { s with unwritten := Function.update s.unwritten b (some data) }

/-- A released buffer is recycled, and the next `bread` reads the disk again. -/
def recycle (s : State) (b : Nat) : State := { s with unwritten := Function.update s.unwritten b none }

def setInode (s : State) (ip : InodeIx) (inode : Inode) : State := { s with itable := Function.update s.itable ip inode }

def setAddr (s : State) (ip : InodeIx) (k addr : Nat) : State :=
  s.setInode ip { s.itable ip with addrs := Function.update (s.itable ip).addrs k addr }

def setRef (s : State) (ip : InodeIx) (ref : Int) : State := s.setInode ip { s.itable ip with ref }

def take (s : State) (refs : Place → Nat) (b : Nat) : State := { s with taken := s.taken ++ [(refs, b)] }

end State

variable (sb : Superblock)

/-- The inode as it is on the disk. -/
def dinode (s : State) (i : Nat) : Dinode := getDinode (s.bread (iblock sb i)) i

/-- The entry of the inode table has the inode in memory. -/
def Live (s : State) (ip : InodeIx) (i : Nat) : Prop :=
  0 < (s.itable ip).ref ∧ (s.itable ip).valid = true ∧ (s.itable ip).inum = i

instance (s : State) (ip : InodeIx) (i : Nat) : Decidable (Live s ip i) := inferInstanceAs (Decidable (_ ∧ _ ∧ _))

/-- The address in a slot of an inode, from the copy in memory when there is one. -/
def addr (s : State) (i k : Nat) : Nat :=
  match (List.finRange ninode).find? fun ip => Live s ip i with
  | some ip => (s.itable ip).addrs k
  | none => (dinode sb s i).addrs k

/-- The address in the indirect block of an inode. -/
def entry (s : State) (i j : Nat) : Nat :=
  if addr sb s i ndirect = 0 then 0 else word (s.bread (addr sb s i ndirect)) j

/-- The block that a place refers to, or zero. -/
def pointer (s : State) (p : Place) : Nat :=
  if p.1 < sb.ninodes ∧ p.2 ≤ maxfile then
    if p.2 ≤ ndirect then addr sb s p.1 p.2 else entry sb s p.1 (p.2 - (ndirect + 1))
  else 0

/-- The bit of a block in the free map. -/
def inUse (s : State) (b : Nat) : Bool := bit (s.bread (bblock sb b)) (b % bpb)

/-- The two loops look at the bits of all blocks in order; the block that is found is zeroed by `bzero`. -/
def balloc (s : State) : Except String (Nat × State) :=
  match (List.range sb.size).find? fun b => !inUse sb s b with
  | none => .error "balloc: out of blocks"
  | some b =>
      let refs := pointer sb s
      let s := s.bwrite (bblock sb b) (setBit (s.bread (bblock sb b)) (b % bpb))
      .ok (b, (s.bwrite b fun _ => 0).take refs b)

def bfree (s : State) (b : Nat) : Except String State :=
  if inUse sb s b then .ok (s.bwrite (bblock sb b) (clearBit (s.bread (bblock sb b)) (b % bpb)))
  else .error "freeing free block"

/-- Copy a modified in-memory inode to disk. -/
def iupdate (s : State) (ip : InodeIx) : State :=
  let inode := s.itable ip
  s.bwrite (iblock sb inode.inum) (putDinode (s.bread (iblock sb inode.inum)) inode.inum
    { type := inode.type, nlink := inode.nlink, size := inode.size, addrs := inode.addrs })

/-- A cached entry is shared, and otherwise the first entry without references is recycled. -/
def iget (s : State) (inum : Nat) : Except String (InodeIx × State) :=
  match (List.finRange ninode).find? fun ip => 0 < (s.itable ip).ref ∧ (s.itable ip).inum = inum with
  | some ip => .ok (ip, s.setRef ip ((s.itable ip).ref + 1))
  | none =>
      match (List.finRange ninode).find? fun ip => (s.itable ip).ref = 0 with
      | none => .error "iget: no inodes"
      | some ip => .ok (ip, s.setInode ip { s.itable ip with inum, ref := 1, valid := false })

def idup (s : State) (ip : InodeIx) : State := s.setRef ip ((s.itable ip).ref + 1)

/-- Reads the inode from disk if necessary. -/
def ivalid (s : State) (ip : InodeIx) : Except String State :=
  if (s.itable ip).valid then .ok s
  else
    let d := getDinode (s.bread (iblock sb (s.itable ip).inum)) (s.itable ip).inum
    if d.type = 0 then .error "ivalid: no type"
    else .ok (s.setInode ip { s.itable ip with
      valid := true, type := d.type, nlink := d.nlink, size := d.size, addrs := d.addrs })

/-- The loop starts at inode 1. -/
def ialloc (s : State) (type : Nat) : Except String (InodeIx × State) :=
  match (List.range' 1 (sb.ninodes - 1)).find? fun inum => (getDinode (s.bread (iblock sb inum)) inum).type = 0 with
  | none => .error "ialloc: no inodes"
  | some inum => iget (s.bwrite (iblock sb inum) (clearDinode (s.bread (iblock sb inum)) inum type)) inum

/-- The address in a slot of the inode, with a new block if there is none. -/
def slotAddr (s : State) (ip : InodeIx) (k : Nat) : Except String (Nat × State) :=
  if (s.itable ip).addrs k = 0 then
    match balloc sb s with
    | .error message => .error message
    | .ok (addr, s) => .ok (addr, s.setAddr ip k addr)
  else .ok ((s.itable ip).addrs k, s)

/-- The address in an entry of the indirect block, with a new block if there is none. -/
def tableAddr (s : State) (table j : Nat) : Except String (Nat × State) :=
  if word (s.bread table) j = 0 then
    match balloc sb s with
    | .error message => .error message
    | .ok (addr, s) => .ok (addr, s.bwrite table (setWord (s.bread table) j addr))
  else .ok (word (s.bread table) j, s)

/-- Return the disk block address of the nth block in inode ip. If there is no such block, bmap allocates one. -/
def bmap (s : State) (ip : InodeIx) (bn : Nat) : Except String (Nat × State) :=
  if bn < ndirect then slotAddr sb s ip bn
  else if bn - ndirect < nindirect then
    match slotAddr sb s ip ndirect with
    | .error message => .error message
    | .ok (table, s) => tableAddr sb s table (bn - ndirect)
  else .error "bmap: out of range"

/-- One round of the first loop of `itrunc`. -/
def freeSlot (ip : InodeIx) (s : State) (i : Nat) : Except String State :=
  if (s.itable ip).addrs i ≠ 0 then
    match bfree sb s ((s.itable ip).addrs i) with
    | .error message => .error message
    | .ok s => .ok (s.setAddr ip i 0)
  else .ok s

/-- One round of the second loop of `itrunc`. -/
def freeEntry (table : Nat) (s : State) (j : Nat) : Except String State :=
  if word (s.bread table) j ≠ 0 then bfree sb s (word (s.bread table) j) else .ok s

/-- The indirect block is freed after its entries. -/
def freeTable (s : State) (ip : InodeIx) : Except String State :=
  if (s.itable ip).addrs ndirect ≠ 0 then do
    let table := (s.itable ip).addrs ndirect
    let s ← (List.range nindirect).foldlM (freeEntry sb table) s
    let s ← bfree sb s table
    .ok (s.setAddr ip ndirect 0)
  else .ok s

/-- Truncate inode (discard contents). -/
def itrunc (s : State) (ip : InodeIx) : Except String State := do
  let s ← (List.range ndirect).foldlM (freeSlot sb ip) s
  let s ← freeTable sb s ip
  .ok (iupdate sb (s.setInode ip { s.itable ip with size := 0 }) ip)

/-- The last reference to an inode without links frees the inode and its content on disk. -/
def iput (s : State) (ip : InodeIx) : Except String State :=
  if (s.itable ip).ref = 1 ∧ (s.itable ip).valid ∧ (s.itable ip).nlink = 0 then do
    let s ← itrunc sb s ip
    let s := iupdate sb (s.setInode ip { s.itable ip with type := 0 }) ip
    .ok (s.setInode ip { s.itable ip with valid := false, ref := (s.itable ip).ref - 1 })
  else .ok (s.setRef ip ((s.itable ip).ref - 1))

/-- The range of the source or destination that can be copied; a kernel address has no limit. -/
abbrev Room := Option Nat

/-- The number of bytes that a copy of `m` bytes at offset `tot` moves before it stops. -/
def copied (room : Room) (tot m : Nat) : Nat :=
  match room with
  | none => m
  | some limit => min m (limit - tot)

/-- The loop of `readi`; each round moves at least one byte, so `n` rounds are enough. -/
def readLoop (ip : InodeIx) (room : Room) (n : Nat) :
    Nat → State → Nat → Nat → Memory → Except String (Int × Memory × State)
  | 0, s, tot, _, dst => .ok (tot, dst, s)
  | rounds + 1, s, tot, off, dst =>
      if tot < n then
        match bmap sb s ip (off / bsize) with
        | .error message => .error message
        | .ok (addr, s) =>
            let m := min (n - tot) (bsize - off % bsize)
            let dst := splice dst tot (copied room tot m) fun k => s.bread addr (off % bsize + k)
            if copied room tot m = m then readLoop ip room n rounds s (tot + m) (off + m) dst
            else .ok (-1, dst, s)
      else .ok (tot, dst, s)

/-- The result has the value, the destination and the state; `off` and `n` are `uint`. -/
def readi (s : State) (ip : InodeIx) (room : Room) (dst : Memory) (off n : Nat) : Except String (Int × Memory × State) :=
  if off > (s.itable ip).size ∨ (off + n) % 2 ^ 32 < off then .ok (0, dst, s)
  else
    let n := if off + n > (s.itable ip).size then (s.itable ip).size - off else n
    readLoop sb ip room n n s 0 off dst

/-- The loop of `writei` ends with the number of bytes written and the offset behind them. -/
def writeLoop (ip : InodeIx) (src : Memory) (room : Room) (n : Nat) :
    Nat → State → Nat → Nat → Except String (Nat × Nat × State)
  | 0, s, tot, off => .ok (tot, off, s)
  | rounds + 1, s, tot, off =>
      if tot < n then
        match bmap sb s ip (off / bsize) with
        | .error message => .error message
        | .ok (addr, s) =>
            let m := min (n - tot) (bsize - off % bsize)
            let data := splice (s.bread addr) (off % bsize) (copied room tot m) fun k => src (tot + k)
            if copied room tot m = m then writeLoop ip src room n rounds (s.bwrite addr data) (tot + m) (off + m)
            else .ok (tot, off, s.spoil addr data)
      else .ok (tot, off, s)

/-- The inode is written back even if its size did not change, because `bmap` may have added a block. -/
def writei (s : State) (ip : InodeIx) (src : Memory) (room : Room) (off n : Nat) : Except String (Int × State) :=
  if off > (s.itable ip).size ∨ (off + n) % 2 ^ 32 < off then .ok (-1, s)
  else if (off + n) % 2 ^ 32 > maxfile * bsize then .ok (-1, s)
  else
    match writeLoop sb ip src room n n s 0 off with
    | .error message => .error message
    | .ok (tot, off, s) =>
        let s := if off > (s.itable ip).size then s.setInode ip { s.itable ip with size := off } else s
        .ok (tot, iupdate sb s ip)

end BtbuOs.Fs
