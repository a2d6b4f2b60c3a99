import BtbuOs.Wire.Sending

namespace BtbuOs.Wire

open Machine Bytes Net
open Tcp (Endpoint ipAddrBroadcast)

/-- The state of a host: its cache and the number of its next packet, its sockets, and the queues of its two protocols. -/
structure Node where
  stack : Stack
  udp : Udp.State
  ipQueue : List Frame
  arpQueue : List Frame

/-- The hosts, and the frames that were sent; a frame may arrive late, often or never. -/
structure Network where
  node : Nat → Node
  wire : List Frame

/-- What happens in the sockets and in the cache of a host. -/
inductive NetEvent where
  | udp (n : Nat) (event : Udp.Event)
  | arp (n : Nat) (event : ArpEvent)
  deriving DecidableEq

inductive NetAction where
  | call (n : Nat) (action : Udp.Action)
  | sendto (n : Nat) (id : Int) (data : List Byte) (foreignEnd : Endpoint) (now : Timeval)
  | output (n : Nat) (protocol : Byte) (data : Memory) (len : BitVec 32) (src dst : IpAddr) (now : Timeval)
  | receive (n k : Nat) (memory : Bool)
  | ipPop (n : Nat) (entryMemory queueMemory : Bool)
  | arpPop (n : Nat) (now : Timeval)
  | timer (n : Nat) (now : Timeval)

namespace Network

def setNode (w : Network) (n : Nat) (node : Node) : Network := { w with node := Function.update w.node n node }

@[simp] theorem setNode_self (w : Network) (n : Nat) (node : Node) : (w.setNode n node).node n = node := Function.update_self ..

theorem setNode_other (w : Network) {n m : Nat} (node : Node) (apart : m ≠ n) : (w.setNode n node).node m = w.node m :=
  Function.update_of_ne apart ..

end Network

/-- The calls that send and receive nothing themselves. -/
def isCall : Udp.Action → Bool
  | .sendto .. | .input .. => false
  | _ => true

/-- `net_input_handler` for the two protocols. -/
def netInputHandler (node : Node) (type : BitVec 16) (packet : Frame) (memory : Bool) : Node :=
  if memory then
    if type = netProtocolTypeIp then { node with ipQueue := node.ipQueue ++ [packet] }
    else if type = etherTypeArp then { node with arpQueue := node.arpQueue ++ [packet] }
    else node
  else node

/-- `udp_sendto` with its call of `udp_output`. -/
def sendto (st : Station) (node : Node) (id : Int) (data : List Byte) (foreignEnd : Endpoint) (now : Timeval) :
    Node × List Udp.Event × List ArpEvent × List Frame :=
  let iface := (ipRouteLookup st.routes foreignEnd.addr).map fun _ => st.iface.unicast
  let (udp, events) := Udp.udpSendto node.udp id data foreignEnd iface
  match events with
  | [.output _ localEnd foreignEnd data] =>
      let (stack, arp, frames) := udpOutput st node.stack localEnd foreignEnd data now
      ({ node with udp, stack }, events, arp, frames)
  | _ => ({ node with udp }, events, [], [])

/-- A packet of the queue for IP comes to `udp_input`, or leaves the sockets as they are. -/
def ipInput (st : Station) (udp : Udp.State) (packet : Frame) (entryMemory queueMemory : Bool) : Udp.State × List Udp.Event :=
  match ipUdpArrival st packet with
  | some (src, dst, data) => Udp.udpInput udp src dst data entryMemory queueMemory
  | none => (udp, [])

/-- The hosts act one at a time; the other protocols of a host send packets of any kind but no datagrams. -/
def netStep (stations : Nat → Station) : Step Network NetAction NetEvent
  | w, .call n action =>
      if isCall action then
        (Udp.step (w.node n).udp action).map fun result => (w.setNode n { w.node n with udp := result.1 }, result.2.map (.udp n))
      else none
  | w, .sendto n id data foreignEnd now =>
      if data.length < 2 ^ 32 then
        let (node, udp, arp, frames) := sendto (stations n) (w.node n) id data foreignEnd now
        some ({ w.setNode n node with wire := w.wire ++ frames }, udp.map (.udp n) ++ arp.map (.arp n))
      else none
  | w, .output n protocol data len src dst now =>
      if protocol = ipProtocolUdp then none
      else
        let (stack, arp, frames) := ipOutput (stations n) (w.node n).stack protocol data len src dst now
        some ({ w.setNode n { w.node n with stack } with wire := w.wire ++ frames }, arp.map (.arp n))
  | w, .receive n k memory =>
      match w.wire[k]? with
      | none => none
      | some frame =>
          match etherInputHelper (stations n).dev.addr frame with
          | none => some (w, [])
          | some (type, packet) => some (w.setNode n (netInputHandler (w.node n) type packet memory), [])
  | w, .ipPop n entryMemory queueMemory =>
      match (w.node n).ipQueue with
      | [] => none
      | packet :: rest =>
          let (udp, events) := ipInput (stations n) (w.node n).udp packet entryMemory queueMemory
          some (w.setNode n { w.node n with ipQueue := rest, udp }, events.map (.udp n))
  | w, .arpPop n now =>
      match (w.node n).arpQueue with
      | [] => none
      | packet :: rest =>
          let (caches, events) := arpInput (w.node n).stack.caches packet.bytes packet.len (stations n).arpDevice now
          some ({ w.setNode n { w.node n with arpQueue := rest, stack := { (w.node n).stack with caches } } with
            wire := w.wire ++ events.filterMap (arpFrame (stations n).dev) }, events.map (.arp n))
  | w, .timer n now =>
      some (w.setNode n { w.node n with stack := { (w.node n).stack with caches := arpTimerHandler (w.node n).stack.caches now } }, [])

/-- No socket is open, no address is known and no frame was sent. -/
def NetInitial (w : Network) : Prop :=
  w.wire = [] ∧ ∀ n, (w.node n).udp = Udp.initial ∧ ArpInitial (w.node n).stack.caches ∧ (w.node n).ipQueue = [] ∧ (w.node n).arpQueue = []

/-- The events of the sockets of a host. -/
def udpOf (n : Nat) : NetEvent → Option Udp.Event
  | .udp m event => if m = n then some event else none
  | .arp .. => none

/-- The events of the cache of a host. -/
def arpOf (n : Nat) : NetEvent → Option ArpEvent
  | .udp .. => none
  | .arp m event => if m = n then some event else none

end BtbuOs.Wire
