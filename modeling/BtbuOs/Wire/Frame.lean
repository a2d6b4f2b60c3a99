import BtbuOs.Net.Arp
import BtbuOs.Net.InputBounds
import BtbuOs.Net.Output
import BtbuOs.Udp.Socket

namespace BtbuOs.Wire

open Bytes Net
open Tcp (Endpoint ipAddrBroadcast)

/-- The macros `ETHER_HDR_SIZE`, `ETHER_FRAME_SIZE_MIN` and `ETHER_FRAME_SIZE_MAX`, and the sizes of the payload between them. -/
def etherHdrSize : Nat := 14
def etherFrameSizeMin : Nat := 60
def etherFrameSizeMax : Nat := 1514
def etherPayloadSizeMin : Nat := etherFrameSizeMin - etherHdrSize
def etherPayloadSizeMax : Nat := etherFrameSizeMax - etherHdrSize

/-- The constant `ETHER_ADDR_BROADCAST`. -/
def etherAddrBroadcast : HwAddr := Vector.replicate etherAddrLen 0xff

/-- The macros `NET_PROTOCOL_TYPE_IP` and `IP_PROTOCOL_ICMP`. -/
def netProtocolTypeIp : BitVec 16 := 0x0800
def ipProtocolIcmp : Byte := 1

/-- Bytes with their number. -/
structure Frame where
  bytes : Memory
  len : Nat

/-- What the functions for output and input read of `struct net_device`. -/
structure NetDevice where
  up : Bool
  needArp : Bool
  mtu : BitVec 16
  addr : HwAddr
  broadcast : HwAddr
  deriving DecidableEq

/-- A host with one device, the interface of the device, and its routes. -/
structure Station where
  dev : NetDevice
  iface : IpIface
  routes : List IpRoute

def readHw (data : Memory) (start : Nat) : HwAddr := Vector.ofFn fun k => data (start + k)

def hwMemory (ha : HwAddr) : Memory := fun k => ha.toList.getD k 0

/-- The device of `ether_setup_helper` when it is open. -/
def etherSetupHelper (addr : HwAddr) : NetDevice :=
  { up := true, needArp := true, mtu := BitVec.ofNat 16 etherPayloadSizeMax, addr, broadcast := etherAddrBroadcast }

section Output

/-- The frame that `ether_transmit_helper` gives to its callback; `memory_alloc` has cleared the buffer, and a payload that does not fit in
it has no defined frame. -/
def etherTransmitHelper (dev : NetDevice) (type : BitVec 16) (data : Memory) (len : BitVec 32) (dst : HwAddr) : Option Frame :=
  if etherPayloadSizeMax < len.toNat then none
  else
    let frame := splice (fun _ => 0) 0 etherAddrLen (hwMemory dst)
    let frame := splice frame etherAddrLen etherAddrLen (hwMemory dev.addr)
    let frame := store frame (2 * etherAddrLen) 2 (hton16 type).toNat
    let frame := splice frame etherHdrSize len.toNat data
    let pad := if len.toNat < etherPayloadSizeMin then etherPayloadSizeMin - len.toNat else 0
    some ⟨frame, etherHdrSize + len.toNat + pad⟩

def netDeviceOutput (dev : NetDevice) (type : BitVec 16) (data : Memory) (len : BitVec 32) (dst : HwAddr) : Option Frame :=
  if !dev.up then none
  else if dev.mtu.setWidth 32 < len then none
  else etherTransmitHelper dev type data len dst

/-- The bytes of `struct arp_ether_ip`. -/
def arpBytes (msg : ArpEtherIp) : Memory :=
  let data := store (fun _ => 0) 0 2 msg.hrd.toNat
  let data := store data 2 2 msg.pro.toNat
  let data := store data 4 1 msg.hln
  let data := store data 5 1 msg.pln
  let data := store data 6 2 msg.op.toNat
  let data := splice data 8 etherAddrLen (hwMemory msg.sha)
  let data := store data 14 4 msg.spa.toNat
  let data := splice data 18 etherAddrLen (hwMemory msg.tha)
  store data 24 4 msg.tpa.toNat

/-- The frame of an output of `arp.c`. -/
def arpFrame (dev : NetDevice) : ArpEvent → Option Frame
  | .output type message dst => netDeviceOutput dev type (arpBytes message) (BitVec.ofNat 32 arpEtherIpSize) dst
  | _ => none

/-- The address that `arp_resolve` found. -/
def arpFound : ArpEvent → Option HwAddr
  | .resolved _ (.found ha) => some ha
  | _ => none

namespace Station

/-- What `arp.c` reads of the device. -/
def arpDevice (st : Station) : ArpDevice :=
  { type := .ethernet, addr := st.dev.addr, broadcast := st.dev.broadcast, unicast := some st.iface.unicast }

def arpIface (st : Station) : ArpIface := { dev := st.arpDevice, familyIp := true, unicast := st.iface.unicast }

/-- What `ip_input` reads of the host. -/
def host (st : Station) : Host where
  iface := some st.iface
  protocols := [(ipProtocolTcp, .tcp), (ipProtocolUdp, .udp), (ipProtocolIcmp, .icmp)]
  udpPcbs _ := { state := .free, addr := 0, port := 0 }
  memory := true

end Station

variable (st : Station)

/-- The frames that `ip_output_device` sends, with what happens in the cache. -/
def ipOutputDevice (caches : Caches) (packet : Message) (dst : IpAddr) (now : Timeval) : Caches × List ArpEvent × List Frame :=
  let frame (ha : HwAddr) := netDeviceOutput st.dev netProtocolTypeIp packet.bytes (packet.total.setWidth 32) ha
  if st.dev.needArp then
    if dst = st.iface.broadcast ∨ dst = ipAddrBroadcast then (caches, [], (frame st.dev.broadcast).toList)
    else
      let (caches, events) := arpResolve caches st.arpIface dst now
      (caches, events, events.filterMap (arpFrame st.dev) ++ ((events.findSome? arpFound).bind frame).toList)
  else (caches, [], (frame (Vector.replicate etherAddrLen 0)).toList)

/-- The next hop of `ip_output`, when its checks pass. -/
def ipNexthop (len : BitVec 32) (src dst : IpAddr) : Option IpAddr :=
  if src = Net.ipAddrAny ∧ dst = ipAddrBroadcast then none
  else
    match ipRouteLookup st.routes dst with
    | none => none
    | some route =>
        if src ≠ Net.ipAddrAny ∧ src ≠ st.iface.unicast then none
        else if st.dev.mtu.setWidth 32 < BitVec.ofNat 32 ipHdrSizeMin + len then none
        else some (if route.nexthop ≠ Net.ipAddrAny then route.nexthop else dst)

/-- The cache and the next number of a packet. -/
structure Stack where
  caches : Caches
  id : BitVec 16

def ipOutput (stack : Stack) (protocol : Byte) (data : Memory) (len : BitVec 32) (src dst : IpAddr) (now : Timeval) :
    Stack × List ArpEvent × List Frame :=
  match ipNexthop st len src dst with
  | none => (stack, [], [])
  | some nexthop =>
      match ipMessage (fun _ => 0) protocol data len st.iface.unicast dst stack.id 0 with
      | none => ({ stack with id := stack.id + 1 }, [], [])
      | some packet =>
          let (caches, events, frames) := ipOutputDevice st stack.caches packet nexthop now
          ({ caches, id := stack.id + 1 }, events, frames)

def udpOutput (stack : Stack) (src dst : Endpoint) (data : List Byte) (now : Timeval) : Stack × List ArpEvent × List Frame :=
  match udpMessage (fun _ => 0) src dst (fun k => data.getD k 0) (BitVec.ofNat 32 data.length) with
  | none => (stack, [], [])
  | some message => ipOutput st stack ipProtocolUdp message.bytes (message.total.setWidth 32) src.addr dst.addr now

def tcpOutputSegment (stack : Stack) (seq ack : Tcp.Seq) (flg : Tcp.Flags) (wnd : BitVec 16) (data : Memory) (len : BitVec 32)
    (localEnd foreignEnd : Endpoint) (now : Timeval) : Stack × List ArpEvent × List Frame :=
  match tcpSegmentMessage (fun _ => 0) seq ack flg wnd data len localEnd foreignEnd with
  | none => (stack, [], [])
  | some message => ipOutput st stack ipProtocolTcp message.bytes (message.total.setWidth 32) localEnd.addr foreignEnd.addr now

def icmpOutput (stack : Stack) (type code : Byte) (values : BitVec 32) (data : Memory) (len : BitVec 32) (src dst : IpAddr) (now : Timeval) :
    Stack × List ArpEvent × List Frame :=
  match icmpMessage (fun _ => 0) type code values data len with
  | none => (stack, [], [])
  | some message => ipOutput st stack ipProtocolIcmp message.bytes (message.total.setWidth 32) src dst now

end Output

section Input

/-- What `ether_input_helper` passes to `net_input_handler`. -/
def etherInputHelper (addr : HwAddr) (frame : Frame) : Option (BitVec 16 × Frame) :=
  if frame.len < etherHdrSize then none
  else if addr ≠ readHw frame.bytes 0 ∧ etherAddrBroadcast ≠ readHw frame.bytes 0 then none
  else some (ntoh16 (load16 frame.bytes (2 * etherAddrLen)), ⟨fun k => frame.bytes (etherHdrSize + k), frame.len - etherHdrSize⟩)

/-- The handler that `ip_input` calls, with the part of the packet that it gets. -/
def ipHandled (host : Host) (data : Memory) (len : BitVec 32) : Option (Handler × Slice 32) :=
  if ipLengths data len then (ipAccepts host data).map fun accepted => (accepted.2, ipPayload data) else none

/-- The checks of `udp_input`, with the sender, the receiver and the text of the datagram. -/
def udpArrival (data : Memory) (s : Slice 32) (src dst : IpAddr) : Option (Endpoint × Endpoint × List Byte) :=
  if s.len < 8 then none
  else if s.len ≠ (ntoh16 (load16 data (s.start + 4))).setWidth 32 then none
  else if cksum16 data s.start (s.len.setWidth 16) (psum src dst ipProtocolUdp s.len) ≠ 0 then none
  else some (⟨src, load16 data s.start⟩, ⟨dst, load16 data (s.start + 2)⟩, slice data (s.start + udpHdrSize) (s.len - 8).toNat)

/-- The macro `ICMP_TYPE_ECHOREPLY`. -/
def icmpTypeEchoreply : Byte := 0

/-- The answer of `icmp_input` to a packet from `src`. -/
def icmpInput (st : Station) (stack : Stack) (data : Memory) (s : Slice 32) (src : IpAddr) (now : Timeval) : Stack × List ArpEvent × List Frame :=
  if s.len < 8 then (stack, [], [])
  else if cksum16 data s.start (s.len.setWidth 16) 0 ≠ 0 then (stack, [], [])
  else if data s.start = icmpTypeEcho then
    icmpOutput st stack icmpTypeEchoreply (data (s.start + 1)) (load32 data (s.start + 4)) (fun k => data (s.start + icmpHdrSize + k)) (s.len - 8)
      st.iface.unicast src now
  else (stack, [], [])

/-- The datagram that a packet brings to a host. -/
def ipUdpArrival (st : Station) (packet : Frame) : Option (Endpoint × Endpoint × List Byte) :=
  match ipHandled st.host packet.bytes (BitVec.ofNat 32 packet.len) with
  | some (.udp, s) => udpArrival packet.bytes s (load32 packet.bytes 12) (load32 packet.bytes 16)
  | _ => none

end Input

section Calls

variable {host : Host} {data : Memory} {len : BitVec 32} {s : Slice 32} {src dst : IpAddr}

/-- The handler and its part are those of the call of `ip_input`. -/
theorem ipHandled_calls {handler : Handler} :
    ipHandled host data len = some (handler, s) →
      ∃ iface, ipInput host data len = ⟨.cksum16, ⟨0, (ipHlen data).setWidth 32⟩⟩ :: ⟨.handler handler, s⟩ ::
        runHandler host iface data s (load32 data 12) (load32 data 16) handler := by
  intro handled
  unfold ipHandled at handled
  split_ifs at handled with lengths
  obtain ⟨accepted, passed, same⟩ := Option.map_eq_some_iff.mp handled
  obtain ⟨rfl, rfl⟩ := Prod.mk.inj same
  refine ⟨accepted.1, ?_⟩
  rw [ipInput, if_pos lengths, passed]
  rfl

/-- The datagram that `udp_input` puts into a queue is the one that arrives. -/
theorem udpInput_queues (queued : ⟨.udpQueue, s⟩ ∈ Net.udpInput host data whole src dst) :
    ∃ sender receiver, udpArrival data whole src dst = some (sender, receiver, slice data s.start s.len.toNat) ∧
      Net.udpPcbSelect host receiver.addr receiver.port ≠ none := by
  unfold Net.udpInput at queued
  unfold udpArrival
  by_cases short : whole.len < 8
  · rw [if_pos short] at queued
    exact absurd queued List.not_mem_nil
  by_cases other : whole.len ≠ (ntoh16 (load16 data (whole.start + 4))).setWidth 32
  · rw [if_neg short, if_pos other] at queued
    exact absurd queued List.not_mem_nil
  rw [if_neg short, if_neg other] at queued ⊢
  have behind := List.mem_of_ne_of_mem (by simp) queued
  by_cases sum : cksum16 data whole.start (whole.len.setWidth 16) (psum src dst ipProtocolUdp whole.len) ≠ 0
  · rw [if_pos sum] at behind
    exact absurd behind List.not_mem_nil
  rw [if_neg sum] at behind ⊢
  cases found : Net.udpPcbSelect host dst (load16 data (whole.start + 2)) with
  | none =>
      rw [found] at behind
      exact absurd behind List.not_mem_nil
  | some i =>
      rw [found] at behind
      dsimp only at behind
      split_ifs at behind
      · obtain ⟨-, rfl⟩ := Call.mk.inj (List.mem_singleton.mp behind)
        have long : 8 ≤ whole.len.toNat := Nat.not_lt.mp short
        have size : whole.len.toNat < 2 ^ 16 := by
          rw [not_not.mp other, BitVec.toNat_setWidth]
          exact Nat.lt_of_le_of_lt (Nat.mod_le _ _) (BitVec.isLt _)
        have count : ((whole.len - 8) &&& 0xffff).toNat = (whole.len - 8).toNat := by
          have rest : (whole.len - 8).toNat = whole.len.toNat - 8 := BitVec.toNat_sub_of_le long
          rw [BitVec.toNat_and, show (0xffff : BitVec 32).toNat = 2 ^ 16 - 1 from rfl, Nat.and_two_pow_sub_one_eq_mod]
          exact Nat.mod_eq_of_lt (by omega)
        refine ⟨⟨src, load16 data whole.start⟩, ⟨dst, load16 data (whole.start + 2)⟩, ?_, ?_⟩
        · dsimp only
          rw [count]
          rfl
        · dsimp only
          rw [found]
          exact Option.some_ne_none i
      · exact absurd behind List.not_mem_nil

end Calls

end BtbuOs.Wire
