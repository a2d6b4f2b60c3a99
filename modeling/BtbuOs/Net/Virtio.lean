import BtbuOs.Lib.FreeRunning
import BtbuOs.Lib.Machine
import Mathlib.Data.List.Range

namespace BtbuOs.Net

/-- The macros `NUM`, `RX_BUF_SIZE` and `VRING_DESC_F_WRITE`, and the size of `struct virtio_net_hdr`. -/
abbrev num : Nat := 8
def rxBufSize : Nat := 2048
def vringDescFWrite : BitVec 16 := 2
def virtioNetHdrSize : Nat := 12

/-- `struct virtq_desc`, with the number of the buffer at its address. -/
structure Desc where
  addr : Option Nat
  len : Nat
  flags : BitVec 16
  next : BitVec 16
  deriving DecidableEq

/-- `struct virtq_used_elem`. -/
structure UsedElem where
  id : Nat
  len : Nat
  deriving DecidableEq

/-- `struct virtq` with the rings in its memory; `last_used_idx` is an `int`, which never wraps at 16 bits. -/
structure Virtq where
  desc : Nat → Desc
  availIdx : BitVec 16
  availRing : Nat → Nat
  usedIdx : BitVec 16
  usedRing : Nat → UsedElem
  lastUsedIdx : Nat
  free : Nat → Bool

/-- The side of the device: its place in the available ring, and the descriptors that it works on. -/
structure Device where
  next : BitVec 16
  held : List Nat

inductive Queue where
  | rx | tx
  deriving DecidableEq

/-- The loops of `virtio_net_intr`. -/
inductive IntrLoop where
  | tx | rx
  deriving DecidableEq

/-- `struct virtio_net`, the device, and the loop that an interrupt is in. -/
structure Nic where
  vq : Queue → Virtq
  device : Queue → Device
  loop : Option IntrLoop
  panicked : Option String

/-- What the device gives back, what the driver processes, and what a write returns. -/
inductive NicEvent where
  | returned (q : Queue) (id : Nat)
  | processed (q : Queue) (id : Nat)
  | wrote (value : Int)
  deriving DecidableEq

namespace Nic

def setVq (n : Nic) (q : Queue) (vq : Virtq) : Nic := { n with vq := Function.update n.vq q vq }

@[simp] theorem setVq_self (n : Nic) (q : Queue) (vq : Virtq) : (n.setVq q vq).vq q = vq := Function.update_self ..

theorem setVq_of_ne (n : Nic) {q r : Queue} (vq : Virtq) (apart : r ≠ q) : (n.setVq q vq).vq r = n.vq r := Function.update_of_ne apart ..

def setDevice (n : Nic) (q : Queue) (d : Device) : Nic := { n with device := Function.update n.device q d }

end Nic

def virtqAllocDesc (vq : Virtq) : Option (Nat × Virtq) :=
  ((List.range num).find? fun i => vq.free i).map fun i => (i, { vq with free := Function.update vq.free i false })

def virtqFreeDesc (vq : Virtq) (i : Nat) : Except String Virtq :=
  if num ≤ i then .error "virtio_net: virtq_free_desc: invalid index"
  else if vq.free i then .error "virtio_net: virtq_free_desc: freeing free descriptor"
  else .ok { vq with desc := Function.update vq.desc i ⟨none, 0, 0, 0⟩, free := Function.update vq.free i true }

/-- The driver puts a descriptor into the available ring, without the index. -/
def deploy (vq : Virtq) (idx : Nat) : Virtq := { vq with availRing := Function.update vq.availRing (vq.availIdx.toNat % num) idx }

/-- The loop of `virtio_net_init` and `virtio_net_open` that makes every receive buffer available. -/
def setReceiveBuffers (vq : Virtq) : Virtq :=
  { vq with
    desc := fun i => if i < num then { vq.desc i with addr := some i, len := rxBufSize, flags := vringDescFWrite } else vq.desc i
    availRing := fun i => if i < num then i else vq.availRing i
    free := fun i => if i < num then false else vq.free i
    availIdx := BitVec.ofNat 16 num
    lastUsedIdx := 0 }

def virtioNetOpen (n : Nic) : Nic := n.setVq .rx (setReceiveBuffers (n.vq .rx))

/-- A descriptor with a packet goes to the device. -/
def postPacket (vq : Virtq) (idx len : Nat) : Virtq :=
  let vq := deploy { vq with
    desc := Function.update vq.desc idx { vq.desc idx with addr := some idx, len := virtioNetHdrSize + len, flags := 0 } } idx
  { vq with availIdx := vq.availIdx + 1 }

def virtioNetWrite (n : Nic) (len : Nat) : Nic × Int :=
  if rxBufSize < len then (n, -1)
  else
    match virtqAllocDesc (n.vq .tx) with
    | none => (n, -1)
    | some (idx, vq) => (n.setVq .tx (postPacket vq idx len), len)

/-- The recycling of the receive buffer by `virtio_net_read`. -/
def virtioNetRead (vq : Virtq) : Virtq :=
  let idx := (vq.usedRing (vq.lastUsedIdx % num)).id
  deploy { vq with desc := Function.update vq.desc idx { vq.desc idx with addr := some idx, len := rxBufSize } } idx

/-- The callback runs only when `ether_input_helper` gets memory for the frame. -/
def etherInputHelper (vq : Virtq) (memory : Bool) : Virtq := if memory then virtioNetRead vq else vq

/-- One round of the first loop of `virtio_net_intr`, or its end. -/
def txRound (n : Nic) : Nic × List NicEvent :=
  let vq := n.vq .tx
  if vq.lastUsedIdx ≠ vq.usedIdx.toNat then
    let idx := (vq.usedRing (vq.lastUsedIdx % num)).id
    match virtqFreeDesc vq idx with
    | .error message => ({ n with panicked := some message }, [])
    | .ok vq => (n.setVq .tx { vq with lastUsedIdx := vq.lastUsedIdx + 1 }, [.processed .tx idx])
  else ({ n with loop := some .rx }, [])

/-- One round of the second loop, or the end of the interrupt. -/
def rxRound (n : Nic) (memory : Bool) : Nic × List NicEvent :=
  let vq := n.vq .rx
  if vq.lastUsedIdx ≠ vq.usedIdx.toNat then
    let idx := (vq.usedRing (vq.lastUsedIdx % num)).id
    let vq := etherInputHelper vq memory
    (n.setVq .rx { vq with availIdx := vq.availIdx + 1, lastUsedIdx := vq.lastUsedIdx + 1 }, [.processed .rx idx])
  else ({ n with loop := none }, [])

/-- A round of the loop that the interrupt is in. -/
def intrRound (n : Nic) (memory : Bool) : Nic × List NicEvent :=
  match n.loop with
  | none => (n, [])
  | some .tx => txRound n
  | some .rx => rxRound n memory

/-- The rounds of an interrupt that the device does not disturb; `memory` says which allocations succeed. -/
def intrRun (memory : Nat → Bool) : Nat → Nic → Nic × List NicEvent
  | 0, n => (n, [])
  | rounds + 1, n =>
      let (mid, events) := intrRound n (memory rounds)
      let (after, rest) := intrRun memory rounds mid
      (after, events ++ rest)

/-- The device takes the next descriptor of the available ring. -/
def deviceFetch (vq : Virtq) (d : Device) : Option Device :=
  if d.next = vq.availIdx then none
  else some { next := d.next + 1, held := d.held ++ [vq.availRing (d.next.toNat % num)] }

/-- The device gives a descriptor back that it works on. -/
def deviceReturn (vq : Virtq) (d : Device) (id len : Nat) : Option (Virtq × Device) :=
  if id ∈ d.held then
    some ({ vq with usedRing := Function.update vq.usedRing (vq.usedIdx.toNat % num) ⟨id, len⟩, usedIdx := vq.usedIdx + 1 },
      { d with held := d.held.erase id })
  else none

inductive NicAction where
  | fetch (q : Queue)
  | complete (q : Queue) (id len : Nat)
  | openDevice
  | write (len : Nat)
  | interrupt
  | round (memory : Bool)
  deriving DecidableEq

/-- The lock keeps the calls of the driver apart; the device acts at any time. -/
def nicStep (n : Nic) (action : NicAction) : Option (Nic × List NicEvent) :=
  if n.panicked ≠ none then none
  else
    match action with
    | .fetch q => (deviceFetch (n.vq q) (n.device q)).map fun d => (n.setDevice q d, [])
    | .complete q id len =>
        (deviceReturn (n.vq q) (n.device q) id len).map fun (vq, d) => ((n.setVq q vq).setDevice q d, [.returned q id])
    | .openDevice => if n.loop = none then some (virtioNetOpen n, []) else none
    | .write len =>
        if n.loop = none then
          let (after, value) := virtioNetWrite n len
          some (after, [.wrote value])
        else none
    | .interrupt => if n.loop = none then some ({ n with loop := some .tx }, []) else none
    | .round memory => if n.loop = none then none else some (intrRound n memory)

/-- The queue after `virtq_init`. -/
def virtqInit : Virtq where
  desc := fun _ => ⟨none, 0, 0, 0⟩
  availIdx := 0
  availRing := fun _ => 0
  usedIdx := 0
  usedRing := fun _ => ⟨0, 0⟩
  lastUsedIdx := 0
  free := fun _ => true

/-- The state after `virtio_net_init`. -/
def nicInit : Nic where
  vq := fun q =>
    match q with
    | .tx => virtqInit
    | .rx => setReceiveBuffers virtqInit
  device := fun _ => ⟨0, []⟩
  loop := none
  panicked := none

end BtbuOs.Net
