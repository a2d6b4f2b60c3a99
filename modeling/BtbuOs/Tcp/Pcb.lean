import BtbuOs.Lib.Bytes
import BtbuOs.Lib.Machine
import Mathlib.Data.List.FinRange

namespace BtbuOs.Tcp

open Bytes

/-- A sequence number; its comparisons are unsigned. -/
abbrev Seq := BitVec 32

/-- The macro `TCP_PCB_SIZE`. -/
abbrev tcpPcbSize : Nat := 16

/-- The size of `buf` in `struct tcp_pcb`. -/
def bufSize : Nat := 65535

/-- The macro `TCP_DEFAULT_RTO`, in microseconds. -/
def tcpDefaultRto : Nat := 200000

/-- The macro `TCP_RETRANSMIT_DEADLINE`, in seconds. -/
def tcpRetransmitDeadline : Nat := 12

abbrev Flags := BitVec 8

def tcpFlgFin : Flags := 0x01
def tcpFlgSyn : Flags := 0x02
def tcpFlgRst : Flags := 0x04
def tcpFlgPsh : Flags := 0x08
def tcpFlgAck : Flags := 0x10

/-- The macro `TCP_FLG_ISSET`. -/
def tcpFlgIsset (x y : Flags) : Bool := x &&& 0x3f &&& y ≠ 0

/-- The values of `TCP_PCB_STATE_*`. -/
inductive PcbState where
  | free | closed | listen | synSent | synReceived | established | finWait1 | finWait2 | closing | timeWait
  | closeWait | lastAck
  deriving DecidableEq

/-- The values of `TCP_PCB_MODE_*`. -/
inductive PcbMode where
  | rfc793 | socket
  deriving DecidableEq

/-- `struct ip_endpoint`. -/
structure Endpoint where
  addr : BitVec 32
  port : BitVec 16
  deriving DecidableEq

def ipAddrAny : BitVec 32 := 0

/-- `struct tcp_segment_info`. -/
structure SegmentInfo where
  seq : Seq
  ack : Seq
  len : BitVec 16
  wnd : BitVec 16
  up : BitVec 16
  deriving DecidableEq

/-- `struct tcp_queue_entry`; times are in microseconds. -/
structure QueueEntry where
  first : Nat
  last : Nat
  rto : Nat
  seq : Seq
  flg : Flags
  data : List Byte
  deriving DecidableEq

/-- The send side of a connection. -/
structure Snd where
  nxt : Seq
  una : Seq
  wnd : BitVec 16
  wl1 : Seq
  wl2 : Seq
  deriving DecidableEq

/-- The receive side of a connection. -/
structure Rcv where
  nxt : Seq
  wnd : BitVec 16
  deriving DecidableEq

/-- `struct sched_ctx`; a sleep also ends by its time limit, so that `ready` decides nothing. -/
structure SchedCtx where
  interrupted : Bool
  wc : Nat
  deriving DecidableEq

/-- A control block is named by its index in `pcbs`. -/
abbrev PcbId := Fin tcpPcbSize

scoped instance (priority := 2000) : NeZero tcpPcbSize := ⟨by decide⟩

/-- `struct tcp_pcb`; `mtu`, `mss` and the urgent pointers are never read. -/
structure Pcb where
  state : PcbState
  mode : PcbMode
  localEnd : Endpoint
  foreignEnd : Endpoint
  snd : Snd
  iss : Seq
  rcv : Rcv
  irs : Seq
  buf : Memory
  ctx : SchedCtx
  queue : List QueueEntry
  parent : Option PcbId
  backlog : List PcbId

/-- A control block after `memset`. -/
def Pcb.zero : Pcb where
  state := .free
  mode := .rfc793
  localEnd := ⟨0, 0⟩
  foreignEnd := ⟨0, 0⟩
  snd := ⟨0, 0, 0, 0, 0⟩
  iss := 0
  rcv := ⟨0, 0⟩
  irs := 0
  buf := fun _ => 0
  ctx := ⟨false, 0⟩
  queue := []
  parent := none
  backlog := []

/-- A segment on its way to the peer. -/
structure Segment where
  seq : Seq
  ack : Seq
  flg : Flags
  wnd : BitVec 16
  text : List Byte
  localEnd : Endpoint
  foreignEnd : Endpoint
  deriving DecidableEq

/-- An interface as `ip_route_get_iface` finds it. -/
structure Iface where
  unicast : BitVec 32
  mtu : Nat
  deriving DecidableEq

/-- What the rest of the kernel does for an output: whether there is memory for the queue entry, and `ip_output` succeeds. -/
structure Fate where
  queued : Bool
  sent : Bool
  deriving DecidableEq

/-- What leaves the control blocks: segments, and the moves of bytes into and out of their buffers. A copy into the buffer
goes to a place that the window gives. -/
inductive Event where
  | sent (segment : Segment)
  | opened (i : PcbId)
  | stored (i : PcbId) (place : Nat) (wnd : BitVec 16) (text : List Byte)
  | received (i : PcbId) (bytes : List Byte)
  | returned (value : Int)
  deriving DecidableEq

/-- A user call that sleeps, with its local variables. -/
inductive Call where
  | opening (i : PcbId) (state : PcbState)
  | accepting (i : PcbId)
  | sending (i : PcbId) (data : List Byte) (sent : Nat)
  | receiving (i : PcbId) (size : Nat)
  deriving DecidableEq

/-- The control blocks, the calls that sleep, the past events and the answers of the rest of the kernel. -/
structure Net where
  pcbs : PcbId → Pcb
  calls : List Call
  log : List Event
  fate : Nat → Fate
  attempts : Nat
  random : Nat → Seq
  draws : Nat
  route : BitVec 32 → Option Iface
  now : Nat

namespace Net

def setPcb (n : Net) (i : PcbId) (p : Pcb) : Net := { n with pcbs := Function.update n.pcbs i p }

def setState (n : Net) (i : PcbId) (state : PcbState) : Net := n.setPcb i { n.pcbs i with state }

def emit (n : Net) (event : Event) : Net := { n with log := n.log ++ [event] }

@[simp] theorem setPcb_self (n : Net) (i : PcbId) (p : Pcb) : (n.setPcb i p).pcbs i = p := Function.update_self _ _ _

theorem setPcb_of_ne (n : Net) {i j : PcbId} (p : Pcb) (apart : j ≠ i) : (n.setPcb i p).pcbs j = n.pcbs j :=
  Function.update_of_ne apart _ _

@[simp] theorem setPcb_log (n : Net) (i : PcbId) (p : Pcb) : (n.setPcb i p).log = n.log := rfl

@[simp] theorem emit_pcbs (n : Net) (event : Event) : (n.emit event).pcbs = n.pcbs := rfl

@[simp] theorem emit_log (n : Net) (event : Event) : (n.emit event).log = n.log ++ [event] := rfl

end Net

def tcpPcbAlloc (n : Net) : Option (PcbId × Net) :=
  match (List.finRange tcpPcbSize).find? fun i => (n.pcbs i).state = .free with
  | none => none
  | some i => some (i, n.setPcb i { n.pcbs i with state := .closed, ctx := ⟨false, 0⟩ })

mutual

/-- The loop of `tcp_pcb_release` over the backlog. The first argument bounds the rounds. -/
def drainBacklog : Nat → Net → PcbId → Net
  | 0, n, _ => n
  | rounds + 1, n, i =>
      match (n.pcbs i).backlog with
      | [] => n
      | est :: rest => drainBacklog rounds (releaseWithin rounds (n.setPcb i { n.pcbs i with backlog := rest }) est) i

/-- `tcp_pcb_release`; a block on which a call sleeps is kept. -/
def releaseWithin : Nat → Net → PcbId → Net
  | 0, n, _ => n
  | rounds + 1, n, i =>
      if (n.pcbs i).ctx.wc ≠ 0 then n
      else (drainBacklog rounds (n.setPcb i { n.pcbs i with queue := [] }) i).setPcb i Pcb.zero

end

/-- Every round takes an entry from a backlog. -/
def tcpPcbRelease (n : Net) (i : PcbId) : Net :=
  releaseWithin (2 * ((List.finRange tcpPcbSize).map fun j => (n.pcbs j).backlog.length).sum + 2) n i

/-- The block has this local end. -/
def matchesLocal (p : Pcb) (localEnd : Endpoint) : Bool :=
  (p.localEnd.addr = ipAddrAny || p.localEnd.addr = localEnd.addr) && p.localEnd.port = localEnd.port

/-- Without a block for the pair of ends, the last one that listens for any peer is chosen. -/
def tcpPcbSelect (n : Net) (localEnd : Endpoint) (foreignEnd : Option Endpoint) : Option PcbId :=
  match foreignEnd with
  | none => (List.finRange tcpPcbSize).find? fun i => matchesLocal (n.pcbs i) localEnd
  | some foreignEnd =>
      match (List.finRange tcpPcbSize).find? fun i =>
          matchesLocal (n.pcbs i) localEnd && (n.pcbs i).foreignEnd = foreignEnd with
      | some i => some i
      | none => ((List.finRange tcpPcbSize).filter fun i =>
          matchesLocal (n.pcbs i) localEnd && (n.pcbs i).state = .listen && (n.pcbs i).foreignEnd = ⟨ipAddrAny, 0⟩).getLast?

def tcpPcbGet (n : Net) (id : Int) : Option PcbId :=
  if inside : 0 ≤ id ∧ id < tcpPcbSize then
    let i : PcbId := ⟨id.toNat, by omega⟩
    if (n.pcbs i).state = .free then none else some i
  else none

/-- The flag is false when the C function returns -1. -/
def tcpOutputSegment (n : Net) (segment : Segment) : Net × Bool :=
  let fate := n.fate n.attempts
  let n := { n with attempts := n.attempts + 1 }
  if fate.sent then (n.emit (.sent segment), true) else (n, false)

/-- The entry is lost when there is no memory for it. -/
def tcpRetransmitQueueAdd (n : Net) (i : PcbId) (seq : Seq) (flg : Flags) (data : List Byte) : Net :=
  if (n.fate n.attempts).queued then
    n.setPcb i { n.pcbs i with
      queue := (n.pcbs i).queue ++ [{ first := n.now, last := n.now, rto := tcpDefaultRto, seq, flg, data }] }
  else n

def tcpRetransmitQueueCleanup (p : Pcb) : Pcb := { p with queue := p.queue.dropWhile fun entry => entry.seq < p.snd.una }

def tcpOutput (n : Net) (i : PcbId) (flg : Flags) (data : List Byte) : Net × Bool :=
  let p := n.pcbs i
  let seq := if tcpFlgIsset flg tcpFlgSyn then p.iss else p.snd.nxt
  let n := if tcpFlgIsset flg (tcpFlgSyn ||| tcpFlgFin) || data ≠ [] then tcpRetransmitQueueAdd n i seq flg data else n
  tcpOutputSegment n
    { seq, ack := p.rcv.nxt, flg, wnd := p.rcv.wnd, text := data, localEnd := p.localEnd, foreignEnd := p.foreignEnd }

/-- The call of `tcp_retransmit_queue_emit` for one entry; a block past its deadline is closed. -/
def tcpRetransmitQueueEmit (n : Net) (i : PcbId) (index : Nat) : Net :=
  match (n.pcbs i).queue[index]? with
  | none => n
  | some entry =>
      if tcpRetransmitDeadline * 1000000 ≤ n.now - entry.first then n.setState i .closed
      else if entry.last + entry.rto < n.now then
        let p := n.pcbs i
        let n := (tcpOutputSegment n { seq := entry.seq, ack := p.rcv.nxt, flg := entry.flg, wnd := p.rcv.wnd, text := entry.data, localEnd := p.localEnd, foreignEnd := p.foreignEnd }).1
        n.setPcb i { n.pcbs i with
          queue := p.queue.set index { entry with last := n.now, rto := entry.rto * 2 % 2 ^ 32 } }
      else n

/-- The visit of one block by `tcp_timer`. -/
def tcpTimerBlock (n : Net) (i : PcbId) : Net :=
  if (n.pcbs i).state = .free then n
  else (List.range (n.pcbs i).queue.length).foldl (fun n index => tcpRetransmitQueueEmit n i index) n

def tcpTimer (n : Net) : Net := (List.finRange tcpPcbSize).foldl tcpTimerBlock n

/-- `event_handler` interrupts the calls that sleep. -/
def eventHandler (n : Net) : Net :=
  { n with pcbs := fun i => if (n.pcbs i).state = .free then n.pcbs i else
      { n.pcbs i with ctx := { (n.pcbs i).ctx with interrupted := true } } }

end BtbuOs.Tcp
