import BtbuOs.Lib.Machine
import BtbuOs.Net.Input
import Mathlib.Data.List.Range

namespace BtbuOs.Udp

open Machine
open Bytes (Byte)
open Net (IpAddr UdpPcbState udpPcbSize udpQueueEntrySize pgsize hton16 ipAddrAny)
open Tcp (Endpoint)

/-- The macros `UDP_SOURCE_PORT_MIN` and `UDP_SOURCE_PORT_MAX`. -/
def udpSourcePortMin : Nat := 49152
def udpSourcePortMax : Nat := 65535

/-- The size of `struct queue_entry`. -/
def queueEntrySize : Nat := 16

/-- `struct sched_ctx`. -/
structure SchedCtx where
  interrupted : Bool
  wc : Nat
  ready : Bool
  deriving DecidableEq

/-- `struct udp_queue_entry`; its length is that of the data. -/
structure QueueEntry where
  foreignEnd : Endpoint
  data : List Byte
  deriving DecidableEq

/-- `struct udp_pcb`. -/
structure UdpPcb where
  state : UdpPcbState
  localEnd : Endpoint
  queue : List QueueEntry
  ctx : SchedCtx
  deriving DecidableEq

abbrev PcbId := Fin udpPcbSize

scoped instance (priority := 2000) : NeZero udpPcbSize := ⟨by decide⟩

/-- A call of `udp_recvfrom` that sleeps. -/
structure Call where
  thread : Nat
  pcb : PcbId
  size : BitVec 32
  deriving DecidableEq

/-- The control blocks, the calls that sleep, and the number of pages that the layer has from `memory_alloc`. -/
structure State where
  pcbs : PcbId → UdpPcb
  calls : List Call
  pages : Nat

/-- What the calls do and return. -/
inductive Event where
  | opened (i : PcbId)
  | closed (i : PcbId)
  | bound (i : PcbId) (localEnd : Endpoint)
  | output (i : PcbId) (localEnd foreignEnd : Endpoint) (data : List Byte)
  | queued (i : PcbId) (entry : QueueEntry)
  | leaked (i : PcbId)
  | received (thread : Nat) (i : PcbId) (entry : QueueEntry) (bytes : List Byte)
  | interrupted (thread : Nat) (i : PcbId)
  | shut (thread : Nat) (i : PcbId)
  | refused
  deriving DecidableEq

namespace State

def setPcb (s : State) (i : PcbId) (pcb : UdpPcb) : State := { s with pcbs := Function.update s.pcbs i pcb }

end State

def schedCtxInit : SchedCtx := { interrupted := false, wc := 0, ready := false }

def anyEnd : Endpoint := { addr := ipAddrAny, port := 0 }

/-- The static array of control blocks. -/
def initial : State where
  pcbs _ := { state := .free, localEnd := anyEnd, queue := [], ctx := schedCtxInit }
  calls := []
  pages := 0

def udpPcbAlloc (s : State) : Option (PcbId × State) :=
  ((List.finRange udpPcbSize).find? fun i => (s.pcbs i).state = .free).map fun i =>
    (i, s.setPcb i { s.pcbs i with state := .opened, ctx := schedCtxInit })

def udpPcbRelease (s : State) (i : PcbId) : State :=
  let pcb := { s.pcbs i with state := .closing }
  if pcb.ctx.wc ≠ 0 then s.setPcb i { pcb with ctx := { pcb.ctx with ready := true } }
  else { s.setPcb i { pcb with state := .free, localEnd := anyEnd, queue := [] } with pages := s.pages - 2 * pcb.queue.length }

def udpPcbSelect (s : State) (addr : IpAddr) (port : BitVec 16) : Option PcbId :=
  (List.finRange udpPcbSize).find? fun i => (s.pcbs i).state = .opened &&
    ((s.pcbs i).localEnd.addr = ipAddrAny || (s.pcbs i).localEnd.addr = addr) && (s.pcbs i).localEnd.port = port

def udpPcbGet (s : State) (id : Int) : Option PcbId :=
  (List.finRange udpPcbSize).find? fun i => (i.val : Int) = id && (s.pcbs i).state = .opened

/-- `memory_alloc` gives one page. -/
def memoryAlloc (available : Bool) (size : Nat) : Bool := !(pgsize < size) && available

/-- `udp_input` behind its checks, for a datagram to a socket of this host. The flags are for its entry and for that of the queue. -/
def udpInput (s : State) (src dst : Endpoint) (data : List Byte) (entryMemory queueMemory : Bool) : State × List Event :=
  match udpPcbSelect s dst.addr dst.port with
  | none => (s, [])
  | some i =>
      let pcb := s.pcbs i
      let entry : QueueEntry := { foreignEnd := src, data }
      if !memoryAlloc entryMemory (udpQueueEntrySize + data.length) then (s, [])
      else if !memoryAlloc queueMemory queueEntrySize then ({ s with pages := s.pages + 1 }, [.leaked i])
      else
        ({ s.setPcb i { pcb with queue := pcb.queue ++ [entry], ctx := { pcb.ctx with ready := true } } with pages := s.pages + 2 },
          [.queued i entry])

/-- `event_handler`. -/
def eventHandler (s : State) : State :=
  { s with pcbs := fun i =>
      if (s.pcbs i).state = .opened then { s.pcbs i with ctx := { (s.pcbs i).ctx with interrupted := true } } else s.pcbs i }

def udpOpen (s : State) : State × List Event :=
  match udpPcbAlloc s with
  | none => (s, [.refused])
  | some (i, s) => (s, [.opened i])

def udpClose (s : State) (id : Int) : State × List Event :=
  match udpPcbGet s id with
  | none => (s, [.refused])
  | some i => (udpPcbRelease s i, [.closed i])

def udpBind (s : State) (id : Int) (localEnd : Endpoint) : State × List Event :=
  match udpPcbGet s id with
  | none => (s, [.refused])
  | some i =>
      match udpPcbSelect s localEnd.addr localEnd.port with
      | some _ => (s, [.refused])
      | none => (s.setPcb i { s.pcbs i with localEnd }, [.bound i localEnd])

/-- The loop of `udp_sendto` over the ports for sockets that are not bound. -/
def dynamicPort (s : State) (addr : IpAddr) : Option (BitVec 16) :=
  ((List.range' udpSourcePortMin (udpSourcePortMax + 1 - udpSourcePortMin)).map fun p => hton16 (BitVec.ofNat 16 p)).find? fun port =>
    (udpPcbSelect s addr port).isNone

/-- `udp_sendto` up to its call of `udp_output`. The address of the interface is what `ip_route_get_iface` finds. -/
def udpSendto (s : State) (id : Int) (data : List Byte) (foreignEnd : Endpoint) (iface : Option IpAddr) : State × List Event :=
  match udpPcbGet s id with
  | none => (s, [.refused])
  | some i =>
      let pcb := s.pcbs i
      match if pcb.localEnd.addr = ipAddrAny then iface else some pcb.localEnd.addr with
      | none => (s, [.refused])
      | some addr =>
          if pcb.localEnd.port = 0 then
            match dynamicPort s addr with
            | none => (s, [.refused])
            | some port =>
                (s.setPcb i { pcb with localEnd := { pcb.localEnd with port } }, [.output i { addr, port } foreignEnd data])
          else (s, [.output i { addr, port := pcb.localEnd.port } foreignEnd data])

/-- A round of the loop in `udp_recvfrom`, which returns or begins to sleep. -/
def receive (s : State) (call : Call) : State × List Event :=
  let pcb := s.pcbs call.pcb
  match pcb.queue with
  | entry :: queue =>
      ({ s.setPcb call.pcb { pcb with queue } with pages := s.pages - 2 },
        [.received call.thread call.pcb entry (entry.data.take call.size.toNat)])
  | [] =>
      if pcb.ctx.interrupted then (s, [.interrupted call.thread call.pcb])
      else
        ({ s.setPcb call.pcb { pcb with ctx := { pcb.ctx with wc := pcb.ctx.wc + 1, ready := false } } with calls := s.calls ++ [call] }, [])

def udpRecvfrom (s : State) (thread : Nat) (id : Int) (size : BitVec 32) : State × List Event :=
  match udpPcbGet s id with
  | none => (s, [.refused])
  | some pcb => receive s { thread, pcb, size }

/-- What follows the loop of `sched_sleep` in a call. -/
def wake (s : State) (call : Call) : State × List Event :=
  let pcb := s.pcbs call.pcb
  let ctx := { pcb.ctx with wc := pcb.ctx.wc - 1 }
  let s := { s with calls := s.calls.erase call }
  if ctx.interrupted then
    (s.setPcb call.pcb { pcb with ctx := { ctx with interrupted := decide (ctx.wc ≠ 0) } }, [.interrupted call.thread call.pcb])
  else
    let s := s.setPcb call.pcb { pcb with ctx }
    if pcb.state = .closing then (udpPcbRelease s call.pcb, [.shut call.thread call.pcb]) else receive s call

inductive Action where
  | opens
  | close (id : Int)
  | bind (id : Int) (localEnd : Endpoint)
  | sendto (id : Int) (data : List Byte) (foreignEnd : Endpoint) (iface : Option IpAddr)
  | recvfrom (thread : Nat) (id : Int) (size : BitVec 32)
  | wake (thread : Nat) (timeout : Bool)
  | input (src dst : Endpoint) (data : List Byte) (entryMemory queueMemory : Bool)
  | event

/-- A thread that sleeps in a call goes on when the loop of `sched_sleep` ends, and makes no other call before. -/
def step : Step State Action Event
  | s, .opens => some (udpOpen s)
  | s, .close id => some (udpClose s id)
  | s, .bind id localEnd => some (udpBind s id localEnd)
  | s, .sendto id data foreignEnd iface => some (udpSendto s id data foreignEnd iface)
  | s, .recvfrom thread id size => if thread ∈ s.calls.map Call.thread then none else some (udpRecvfrom s thread id size)
  | s, .wake thread timeout =>
      match s.calls.find? fun call => call.thread = thread with
      | none => none
      | some call =>
          if (s.pcbs call.pcb).ctx.ready || (s.pcbs call.pcb).ctx.interrupted || timeout then some (wake s call) else none
  | s, .input src dst data entryMemory queueMemory => some (udpInput s src dst data entryMemory queueMemory)
  | s, .event => some (eventHandler s, [])

end BtbuOs.Udp
