import BtbuOs.Lib.Slice
import BtbuOs.Net.Route
import BtbuOs.Tcp.Segment

namespace BtbuOs.Net

open Bytes Tcp

/-- The words of `cksum16`, and the last byte of an odd count. -/
def wordSum (mem : Memory) : Nat → Nat → Nat
  | _, 0 => 0
  | start, 1 => (mem start).toNat
  | start, count + 2 => load mem start 2 + wordSum mem (start + 2) count

/-- A round of the last loop of `cksum16`. -/
def carryRound (sum : Nat) : Nat := sum % 2 ^ 16 + sum / 2 ^ 16

/-- Two rounds leave no carry of a sum in 32 bits. -/
theorem carryRound_twice {sum : Nat} (word : sum < 2 ^ 32) : carryRound (carryRound sum) < 2 ^ 16 := by
  unfold carryRound
  omega

def cksum16 (mem : Memory) (start : Nat) (count : BitVec 16) (init : Nat) : BitVec 16 :=
  ~~~BitVec.ofNat 16 (carryRound (carryRound (init + wordSum mem start count.toNat)))

/-- `struct pseudo_hdr` in memory. -/
def pseudoHdr (src dst : IpAddr) (protocol : Byte) (len : BitVec 32) : Memory :=
  store (store (store (store (fun _ => 0) 0 4 src.toNat) 4 4 dst.toNat) 9 1 protocol.toNat) 10 2 (hton16 (len.setWidth 16)).toNat

/-- The sum of the pseudo header, with which the sum of the segment begins. -/
def psum (src dst : IpAddr) (protocol : Byte) (len : BitVec 32) : Nat := (~~~cksum16 (pseudoHdr src dst protocol len) 0 12 0).toNat

/-- The handlers that `ip_protocol_register` gets. -/
inductive Handler where
  | icmp | tcp | udp
  deriving DecidableEq

/-- The functions to which a part of the frame is passed. -/
inductive Callee where
  | cksum16
  | handler (handler : Handler)
  | icmpOutput
  | udpQueue
  | tcpSegmentArrives (seg : SegmentInfo) (flags : Flags)
  deriving DecidableEq

/-- A call with a part of the frame. -/
structure Call where
  callee : Callee
  slice : Slice 32
  deriving DecidableEq

/-- The values of `UDP_PCB_STATE_*`. -/
inductive UdpPcbState where
  | free | opened | closing
  deriving DecidableEq

/-- What `udp_input` reads of `struct udp_pcb`. -/
structure UdpPcb where
  state : UdpPcbState
  addr : IpAddr
  port : BitVec 16
  deriving DecidableEq

/-- The macro `UDP_PCB_SIZE`. -/
abbrev udpPcbSize : Nat := 16

/-- The interface of the device, the table of protocols, the control blocks of UDP, and whether there is memory. -/
structure Host where
  iface : Option IpIface
  protocols : List (Byte × Handler)
  udpPcbs : Fin udpPcbSize → UdpPcb
  memory : Bool

def pgsize : Nat := 4096

/-- The size of `struct udp_queue_entry`. -/
def udpQueueEntrySize : Nat := 12

/-- The macros `IP_PROTOCOL_TCP`, `IP_PROTOCOL_UDP` and `ICMP_TYPE_ECHO`. -/
def ipProtocolTcp : Byte := 6
def ipProtocolUdp : Byte := 17
def icmpTypeEcho : Byte := 8

def icmpInput (data : Memory) (s : Slice 32) : List Call :=
  if s.len < 8 then []
  else
    ⟨.cksum16, ⟨s.start, s.len &&& 0xffff⟩⟩ ::
      if cksum16 data s.start (s.len.setWidth 16) 0 ≠ 0 then []
      else if data s.start = icmpTypeEcho then [⟨.icmpOutput, s.skip 8⟩]
      else []

def udpPcbSelect (host : Host) (addr : IpAddr) (port : BitVec 16) : Option (Fin udpPcbSize) :=
  (List.finRange udpPcbSize).find? fun i =>
    (host.udpPcbs i).state = .opened && ((host.udpPcbs i).addr = ipAddrAny || (host.udpPcbs i).addr = addr) && (host.udpPcbs i).port = port

/-- The length of the entry is counted in 16 bits. -/
def udpInput (host : Host) (data : Memory) (s : Slice 32) (src dst : IpAddr) : List Call :=
  if s.len < 8 then []
  else if s.len ≠ (ntoh16 (load16 data (s.start + 4))).setWidth 32 then []
  else
    ⟨.cksum16, ⟨s.start, s.len &&& 0xffff⟩⟩ ::
      if cksum16 data s.start (s.len.setWidth 16) (psum src dst ipProtocolUdp s.len) ≠ 0 then []
      else
        match udpPcbSelect host dst (load16 data (s.start + 2)) with
        | none => []
        | some _ =>
            if host.memory && !(pgsize < udpQueueEntrySize + (s.len - 8).toNat) then
              [⟨.udpQueue, ⟨s.start + 8, (s.len - 8) &&& 0xffff⟩⟩]
            else []

/-- The fields of `struct tcp_hdr`; the ports stay in network order. -/
def readTcpHdr (data : Memory) (start : Nat) : TcpHdr where
  src := load16 data start
  dst := load16 data (start + 2)
  seq := ntoh32 (load32 data (start + 4))
  ack := ntoh32 (load32 data (start + 8))
  off := data (start + 12)
  flg := data (start + 13)
  wnd := ntoh16 (load16 data (start + 14))
  up := ntoh16 (load16 data (start + 18))

/-- The length of the header that its field `off` gives. -/
def tcpHlen (data : Memory) (start : Nat) : Nat := ((data (start + 12)).toNat / 16) * 4

/-- The checks of `tcp_input`, with the arguments of its call. -/
def tcpArrival (iface : IpIface) (data : Memory) (s : Slice 32) (src dst : IpAddr) : Option Arrival :=
  tcpInputArrival (readTcpHdr data s.start) (fun k => data (s.start + k)) s.len
    (cksum16 data s.start (s.len.setWidth 16) (psum src dst ipProtocolTcp s.len) = 0) src dst iface.broadcast

def tcpInput (iface : IpIface) (data : Memory) (s : Slice 32) (src dst : IpAddr) : List Call :=
  if s.len < 20 then []
  else
    ⟨.cksum16, ⟨s.start, s.len &&& 0xffff⟩⟩ ::
      match tcpArrival iface data s src dst with
      | none => []
      | some a => [⟨.tcpSegmentArrives a.seg a.flags, ⟨s.start + tcpHlen data s.start, a.len⟩⟩]

/-- The calls of a handler. -/
def runHandler (host : Host) (iface : IpIface) (data : Memory) (s : Slice 32) (src dst : IpAddr) : Handler → List Call
  | .icmp => icmpInput data s
  | .udp => udpInput host data s src dst
  | .tcp => Net.tcpInput iface data s src dst

/-- The header length and the total length of a frame. -/
def ipHlen (data : Memory) : BitVec 16 := (data 0 &&& 0x0f).setWidth 16 <<< 2

def ipTotal (data : Memory) : BitVec 16 := ntoh16 (load16 data 2)

/-- The checks of `ip_input` before the checksum. -/
def ipLengths (data : Memory) (len : BitVec 32) : Bool :=
  !(len < 20) && data 0 >>> 4 = 4 && !(len < (ipHlen data).setWidth 32) && !(len < (ipTotal data).setWidth 32)

/-- The checks from the checksum on: the interface and the handler of a frame that is not dropped. -/
def ipAccepts (host : Host) (data : Memory) : Option (IpIface × Handler) :=
  if cksum16 data 0 (ipHlen data) 0 ≠ 0 then none
  else if ntoh16 (load16 data 6) &&& 0x2000 ≠ 0 ∨ ntoh16 (load16 data 6) &&& 0x1fff ≠ 0 then none
  else
    match host.iface with
    | none => none
    | some iface =>
        if load32 data 16 ≠ iface.unicast ∧ load32 data 16 ≠ iface.broadcast ∧ load32 data 16 ≠ ipAddrBroadcast then none
        else ((host.protocols.find? fun entry => entry.1 = data 9).map Prod.snd).map fun handler => (iface, handler)

/-- The calls of `ip_input` and of the handlers behind it; a length is the difference of two counts in 32 bits. -/
def ipInput (host : Host) (data : Memory) (len : BitVec 32) : List Call :=
  if ipLengths data len then
    ⟨.cksum16, ⟨0, (ipHlen data).setWidth 32⟩⟩ ::
      match ipAccepts host data with
      | none => []
      | some (iface, handler) =>
          let s : Slice 32 := ⟨(ipHlen data).toNat, (ipTotal data).setWidth 32 - (ipHlen data).setWidth 32⟩
          ⟨.handler handler, s⟩ :: runHandler host iface data s (load32 data 12) (load32 data 16) handler
  else []

end BtbuOs.Net
