import BtbuOs.Lib.FreeRunning
import BtbuOs.Lib.Machine
import Mathlib.Data.List.Range

namespace BtbuOs.Virtio

open FreeRunning Machine

/-- The macro `NUM`. -/
abbrev num : Nat := 8

/-- The macros `VRING_DESC_F_NEXT` and `VRING_DESC_F_WRITE`. -/
def vringDescFNext : BitVec 16 := 1
def vringDescFWrite : BitVec 16 := 2

/-- The macros `VIRTIO_BLK_T_IN` and `VIRTIO_BLK_T_OUT`. -/
def virtioBlkTIn : BitVec 32 := 0
def virtioBlkTOut : BitVec 32 := 1

/-- The macro `BSIZE` and the size of `struct virtio_blk_req`. -/
def bsize : Nat := 1024
def virtioBlkReqSize : Nat := 16

/-- A buffer of the cache is named by a number. -/
abbrev BufId := Nat

/-- What the address in a descriptor points to: an element of `ops`, the data of a buffer, or the status byte of an element of `info`. -/
inductive Addr where
  | null
  | header (i : Nat)
  | data (b : BufId)
  | status (i : Nat)
  deriving DecidableEq

/-- `struct virtq_desc`. -/
structure VirtqDesc where
  addr : Addr
  len : Nat
  flags : BitVec 16
  next : Nat
  deriving DecidableEq

/-- `struct virtio_blk_req`. -/
structure VirtioBlkReq where
  type : BitVec 32
  reserved : BitVec 32
  sector : BitVec 64

/-- An element of `info`. -/
structure Info where
  b : Option BufId
  status : BitVec 8

/-- `struct disk` with the rings in its pages. -/
structure Disk where
  desc : Nat → VirtqDesc
  availIdx : BitVec 16
  availRing : Nat → Nat
  usedIdx : BitVec 16
  usedRing : Nat → Nat
  free : Nat → Bool
  seen : BitVec 16
  info : Nat → Info
  ops : Nat → VirtioBlkReq

/-- The fields of `struct buf` that the driver uses. -/
structure Buf (Block : Type) where
  disk : Bool
  blockno : BitVec 32
  data : Block

/-- A call of `virtio_disk_rw` that waits, with its local array `idx`. -/
structure Call where
  b : BufId
  write : Bool
  idx : List Nat

/-- The side of the device: its place in the available ring, the chains that it works on, and what is stored on the disk. -/
structure Device (Block : Type) where
  next : BitVec 16
  held : List Nat
  medium : BitVec 64 → Block

/-- The driver, the buffers, the calls that wait, and the device. -/
structure State (Block : Type) where
  disk : Disk
  bufs : BufId → Buf Block
  calls : List Call
  device : Device Block
  panicked : Option String

/-- What a call asks for, what the device does, and what a call has done when it returns. -/
inductive Event (Block : Type) where
  | submitted (b : BufId) (write : Bool) (sector : BitVec 64) (block : Block)
  | transferred (b : BufId) (write : Bool) (sector : BitVec 64) (block : Block)
  | failed (b : BufId)
  | finished (b : BufId) (block : Block)

/-- A descriptor that is free. -/
def VirtqDesc.zero : VirtqDesc := { addr := .null, len := 0, flags := 0, next := 0 }

def allocDesc (d : Disk) : Option (Nat × Disk) :=
  ((List.range num).find? d.free).map fun i => (i, { d with free := Function.update d.free i false })

def freeDesc (d : Disk) (i : Nat) : Except String Disk :=
  if num ≤ i then .error "free_desc 1"
  else if d.free i then .error "free_desc 2"
  else .ok { d with desc := Function.update d.desc i .zero, free := Function.update d.free i true }

/-- Each round marks a descriptor that was not free, so that the first argument bounds the rounds. -/
def freeChain : Nat → Disk → Nat → Except String Disk
  | 0, _, _ => .error "free_chain"
  | rounds + 1, d, i => do
      let desc := d.desc i
      let d ← freeDesc d i
      if desc.flags &&& vringDescFNext ≠ 0 then freeChain rounds d desc.next else return d

/-- The loop of `alloc3_desc`; the first argument counts the descriptors that are missing. -/
def allocDescs : Nat → List Nat → Disk → Except String (Option (List Nat) × Disk)
  | 0, idx, d => .ok (some idx, d)
  | count + 1, idx, d =>
      match allocDesc d with
      | none => do
          let d ← idx.foldlM freeDesc d
          return (none, d)
      | some (i, d) => allocDescs count (idx ++ [i]) d

def alloc3Desc (d : Disk) : Except String (Option (List Nat) × Disk) := allocDescs 3 [] d

/-- A block is two sectors. -/
def sectorOf (blockno : BitVec 32) : BitVec 64 := (blockno * BitVec.ofNat 32 (bsize / 512)).setWidth 64

/-- The three descriptors and the header of a request. -/
def format (d : Disk) (b : BufId) (blockno : BitVec 32) (write : Bool) (i0 i1 i2 : Nat) : Disk :=
  { d with
    ops := Function.update d.ops i0 { type := if write then virtioBlkTOut else virtioBlkTIn, reserved := 0, sector := sectorOf blockno }
    desc := Function.update (Function.update (Function.update d.desc
      i0 { addr := .header i0, len := virtioBlkReqSize, flags := vringDescFNext, next := i1 })
      i1 { addr := .data b, len := bsize, flags := (if write then 0 else vringDescFWrite) ||| vringDescFNext, next := i2 })
      i2 { addr := .status i0, len := 1, flags := vringDescFWrite, next := 0 }
    info := Function.update d.info i0 { b := some b, status := 0xfb } }

/-- The device is told the first descriptor of a chain. -/
def offer (d : Disk) (i : Nat) : Disk :=
  { d with availRing := Function.update d.availRing (d.availIdx.toNat % num) i, availIdx := d.availIdx + 1 }

variable {Block : Type}

namespace State

def setDisk (s : State Block) (d : Disk) : State Block := { s with disk := d }

def setBuf (s : State Block) (b : BufId) (buf : Buf Block) : State Block := { s with bufs := Function.update s.bufs b buf }

def panic (s : State Block) (message : String) : State Block := { s with panicked := some message }

end State

/-- `virtio_disk_rw` up to its loop; without three free descriptors the call yields and tries again. -/
def virtioDiskRw (s : State Block) (b : BufId) (write : Bool) : State Block × List (Event Block) :=
  match alloc3Desc s.disk with
  | .error message => (s.panic message, [])
  | .ok (some [i0, i1, i2], d) =>
      let buf := s.bufs b
      ({ (s.setDisk (offer (format d b buf.blockno write i0 i1 i2) i0)).setBuf b { buf with disk := true } with
          calls := s.calls ++ [{ b, write, idx := [i0, i1, i2] }] },
        [.submitted b write (sectorOf buf.blockno) buf.data])
  | .ok (_, d) => (s.setDisk d, [])

/-- The end of `virtio_disk_rw` behind its loop. -/
def returnCall (s : State Block) (call : Call) : State Block × List (Event Block) :=
  let i0 := call.idx.headD 0
  let d := { s.disk with info := Function.update s.disk.info i0 { s.disk.info i0 with b := none } }
  match freeChain (num + 1) d i0 with
  | .error message => (s.panic message, [])
  | .ok d => ({ s with disk := d, calls := s.calls.filter fun other => other.b ≠ call.b }, [.finished call.b (s.bufs call.b).data])

/-- One round of the loop in `virtio_disk_intr`. -/
def virtioDiskIntr (s : State Block) : State Block :=
  if s.disk.seen = s.disk.usedIdx then s
  else
    let id := s.disk.usedRing (s.disk.seen.toNat % num)
    if (s.disk.info id).status ≠ 0 then s.panic "virtio_disk_intr status"
    else
      match (s.disk.info id).b with
      | none => s.panic "fault"
      | some b => (s.setDisk { s.disk with seen := s.disk.seen + 1 }).setBuf b { s.bufs b with disk := false }

/-- What the device reads in a chain of descriptors. -/
structure Request where
  b : BufId
  write : Bool
  sector : BitVec 64
  status : Nat
  deriving DecidableEq

/-- A chain is a header, the data of a block, which the device may write to for a read, and a byte for the status. -/
def readChain (d : Disk) (head : Nat) : Option Request :=
  let first := d.desc head
  let second := d.desc first.next
  let third := d.desc second.next
  match first.addr, second.addr, third.addr with
  | .header i, .data b, .status k =>
      let write := (d.ops i).type = virtioBlkTOut
      if first.len = virtioBlkReqSize ∧ first.flags = vringDescFNext ∧ second.len = bsize ∧
          second.flags = (if write then 0 else vringDescFWrite) ||| vringDescFNext ∧ third.len = 1 ∧ third.flags = vringDescFWrite then
        some { b, write, sector := (d.ops i).sector, status := k }
      else none
  | _, _, _ => none

/-- The device takes the next chain from the available ring. -/
def deviceFetch (s : State Block) : Option (State Block) :=
  if s.device.next = s.disk.availIdx then none
  else some { s with device := { s.device with
    next := s.device.next + 1, held := s.device.held ++ [s.disk.availRing (s.device.next.toNat % num)] } }

/-- The device gives a chain back with a status. -/
def deviceReturn (s : State Block) (head k : Nat) (status : BitVec 8) : State Block :=
  { s with
    disk := { s.disk with
      info := Function.update s.disk.info k { s.disk.info k with status }
      usedRing := Function.update s.disk.usedRing (s.disk.usedIdx.toNat % num) head
      usedIdx := s.disk.usedIdx + 1 }
    device := { s.device with held := s.device.held.erase head } }

/-- The device does the transfer of a chain that it holds, or it fails with a status other than 0. -/
def deviceTransfer (s : State Block) (head : Nat) (status : BitVec 8) : Option (State Block × List (Event Block)) :=
  if head ∉ s.device.held then none
  else (readChain s.disk head).map fun request =>
    let buf := s.bufs request.b
    if status ≠ 0 then (deviceReturn s head request.status status, [.failed request.b])
    else if request.write then
      ({ deviceReturn s head request.status status with device := { s.device with
          held := s.device.held.erase head, medium := Function.update s.device.medium request.sector buf.data } },
        [.transferred request.b true request.sector buf.data])
    else
      ((deviceReturn s head request.status status).setBuf request.b { buf with data := s.device.medium request.sector },
        [.transferred request.b false request.sector (s.device.medium request.sector)])

/-- A call starts or returns, an interrupt is handled, the device works, or the kernel fills a buffer. -/
inductive Action (Block : Type) where
  | rw (b : BufId) (write : Bool)
  | intr
  | wake (b : BufId)
  | fetch
  | transfer (head : Nat) (status : BitVec 8)
  | fill (b : BufId) (blockno : BitVec 32) (data : Block)

/-- A call goes on when its buffer is no longer owned by the disk. -/
def step (s : State Block) (action : Action Block) : Option (State Block × List (Event Block)) :=
  if s.panicked.isSome then none
  else
    match action with
    | .rw b write => some (virtioDiskRw s b write)
    | .intr => some (virtioDiskIntr s, [])
    | .wake b => (s.calls.find? fun call => call.b = b ∧ (s.bufs b).disk = false).map fun call => returnCall s call
    | .fetch => (deviceFetch s).map fun after => (after, [])
    | .transfer head status => deviceTransfer s head status
    | .fill b blockno data => some (s.setBuf b { s.bufs b with blockno, data }, [])

/-- A buffer takes part in one request at a time, and it is left alone while the request is in flight. -/
def Exclusive (s : State Block) (_ : List (Event Block)) : Action Block → Prop
  | .rw b _ | .fill b _ _ => ∀ call ∈ s.calls, call.b ≠ b
  | _ => True

instance (s : State Block) (trace : List (Event Block)) (action : Action Block) : Decidable (Exclusive s trace action) :=
  match action with
  | .rw b _ | .fill b _ _ => inferInstanceAs (Decidable (∀ call ∈ s.calls, call.b ≠ b))
  | .intr | .wake _ | .fetch | .transfer _ _ => inferInstanceAs (Decidable True)

/-- The state behind `virtio_disk_init`. -/
def virtioDiskInit (bufs : BufId → Buf Block) (medium : BitVec 64 → Block) : State Block where
  disk := {
    desc := fun _ => .zero
    availIdx := 0
    availRing := fun _ => 0
    usedIdx := 0
    usedRing := fun _ => 0
    free := fun i => i < num
    seen := 0
    info := fun _ => { b := none, status := 0 }
    ops := fun _ => { type := 0, reserved := 0, sector := 0 } }
  bufs := bufs
  calls := []
  device := { next := 0, held := [], medium }
  panicked := none

end BtbuOs.Virtio
