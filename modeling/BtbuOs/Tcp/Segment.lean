import BtbuOs.Tcp.Pcb

namespace BtbuOs.Tcp

open Bytes

/-- The reply to a segment without a connection. -/
def resetReply (n : Net) (seg : SegmentInfo) (flags : Flags) (localEnd foreignEnd : Endpoint) : Net :=
  if tcpFlgIsset flags tcpFlgRst then n
  else if !tcpFlgIsset flags tcpFlgAck then
    (tcpOutputSegment n { seq := 0, ack := seg.seq + seg.len.setWidth 32, flg := tcpFlgRst ||| tcpFlgAck, wnd := 0, text := [], localEnd, foreignEnd }).1
  else
    (tcpOutputSegment n { seq := seg.ack, ack := 0, flg := tcpFlgRst, wnd := 0, text := [], localEnd, foreignEnd }).1

/-- The reset that answers a wrong acknowledgment. -/
def resetAck (n : Net) (seg : SegmentInfo) (localEnd foreignEnd : Endpoint) : Net :=
  (tcpOutputSegment n { seq := seg.ack, ack := 0, flg := tcpFlgRst, wnd := 0, text := [], localEnd, foreignEnd }).1

/-- The block of a SYN: in socket mode a new one, whose parent listens. -/
def synBlock (n : Net) (i : PcbId) : Option (PcbId × Net) :=
  if (n.pcbs i).mode = .socket then
    (tcpPcbAlloc n).map fun (j, n) => (j, n.setPcb j { n.pcbs j with mode := .socket, parent := some i })
  else some (i, n)

/-- The case TCP_PCB_STATE_LISTEN of `tcp_segment_arrives`. -/
def listenArrives (n : Net) (i : PcbId) (seg : SegmentInfo) (flags : Flags) (localEnd foreignEnd : Endpoint) : Net :=
  if tcpFlgIsset flags tcpFlgRst then n
  else if tcpFlgIsset flags tcpFlgAck then resetAck n seg localEnd foreignEnd
  else if tcpFlgIsset flags tcpFlgSyn then
    match synBlock n i with
    | none => n
    | some (j, n) =>
        let n := (n.setPcb j { n.pcbs j with
          localEnd, foreignEnd, rcv := ⟨seg.seq + 1, BitVec.ofNat 16 bufSize⟩, irs := seg.seq
          iss := n.random n.draws }).emit (.opened j)
        let n := (tcpOutput { n with draws := n.draws + 1 } j (tcpFlgSyn ||| tcpFlgAck) []).1
        let p := n.pcbs j
        n.setPcb j { p with snd := { p.snd with nxt := p.iss + 1, una := p.iss }, state := .synReceived }
  else n

/-- The end of the case TCP_PCB_STATE_SYN_SENT: an acknowledged SYN opens the connection, another one is answered. -/
def finishSynSent (n : Net) (i : PcbId) (seg : SegmentInfo) (p : Pcb) : Net :=
  if p.iss < p.snd.una then
    let n := (tcpOutput (n.setPcb i { p with state := .established }) i tcpFlgAck []).1
    let p := n.pcbs i
    n.setPcb i { p with snd := { p.snd with wnd := seg.wnd, wl1 := seg.seq, wl2 := seg.ack } }
  else (tcpOutput (n.setPcb i { p with state := .synReceived }) i (tcpFlgSyn ||| tcpFlgAck) []).1

/-- The case TCP_PCB_STATE_SYN_SENT of `tcp_segment_arrives`. -/
def synSentArrives (n : Net) (i : PcbId) (seg : SegmentInfo) (flags : Flags) (localEnd foreignEnd : Endpoint) : Net :=
  let p := n.pcbs i
  if tcpFlgIsset flags tcpFlgAck && (seg.ack ≤ p.iss || p.snd.nxt < seg.ack) then resetAck n seg localEnd foreignEnd
  else if tcpFlgIsset flags tcpFlgSyn then
    let acceptable := tcpFlgIsset flags tcpFlgAck && (p.snd.una ≤ seg.ack && seg.ack ≤ p.snd.nxt)
    let p := { p with rcv := { p.rcv with nxt := seg.seq + 1 }, irs := seg.seq }
    finishSynSent n i seg
      (if acceptable then tcpRetransmitQueueCleanup { p with snd := { p.snd with una := seg.ack } } else p)
  else n

/-- The number is in the receive window. -/
def inWindow (p : Pcb) (seq : Seq) : Bool := p.rcv.nxt ≤ seq && seq < p.rcv.nxt + p.rcv.wnd.setWidth 32

/-- The check of the sequence number. -/
def acceptable (p : Pcb) (seg : SegmentInfo) : Bool :=
  if seg.len = 0 then if p.rcv.wnd = 0 then seg.seq = p.rcv.nxt else inWindow p seg.seq
  else if p.rcv.wnd = 0 then false
  else inWindow p seg.seq || inWindow p (seg.seq + seg.len.setWidth 32 - 1)

/-- The states whose sequence numbers are checked. -/
def checksSequence : PcbState → Bool
  | .synReceived | .established | .finWait1 | .finWait2 | .closeWait | .lastAck => true
  | _ => false

/-- An acknowledgment of new data updates the send window; the flag is false when the C function returns. -/
def acknowledge (n : Net) (i : PcbId) (seg : SegmentInfo) : Net × Bool :=
  let p := n.pcbs i
  if p.snd.una < seg.ack && seg.ack ≤ p.snd.nxt then
    let p := tcpRetransmitQueueCleanup { p with snd := { p.snd with una := seg.ack } }
    let p :=
      if p.snd.wl1 < seg.seq || (p.snd.wl1 = seg.seq && p.snd.wl2 ≤ seg.ack) then
        { p with snd := { p.snd with wnd := seg.wnd, wl1 := seg.seq, wl2 := seg.ack } }
      else p
    (n.setPcb i p, true)
  else if seg.ack < p.snd.una then (n, true)
  else if p.snd.nxt < seg.ack then ((tcpOutput n i tcpFlgAck []).1, false)
  else (n, true)

/-- The part of the fifth check from the case TCP_PCB_STATE_ESTABLISHED on. -/
def checkSynchronized (n : Net) (i : PcbId) (seg : SegmentInfo) : Net × Bool :=
  let (n, continues) := acknowledge n i seg
  if continues then
    if (n.pcbs i).state = .finWait1 ∧ seg.ack = (n.pcbs i).snd.nxt then (n.setState i .finWait2, true) else (n, true)
  else (n, false)

/-- A block that becomes established joins the backlog of its parent; the entry is lost without memory. -/
def joinBacklog (n : Net) (i : PcbId) : Net :=
  match (n.pcbs i).parent with
  | none => n
  | some parent =>
      if (n.fate n.attempts).queued then n.setPcb parent { n.pcbs parent with backlog := (n.pcbs parent).backlog ++ [i] }
      else n

/-- The fifth check; the flag is false when the C function returns. -/
def checkAck (n : Net) (i : PcbId) (seg : SegmentInfo) (localEnd foreignEnd : Endpoint) : Net × Bool :=
  let p := n.pcbs i
  match p.state with
  | .synReceived =>
      if p.snd.una ≤ seg.ack ∧ seg.ack ≤ p.snd.nxt then
        checkSynchronized (joinBacklog (n.setState i .established) i) i seg
      else (resetAck n seg localEnd foreignEnd, false)
  | .established | .finWait1 | .finWait2 | .closeWait => checkSynchronized n i seg
  | .lastAck =>
      if seg.ack = p.snd.nxt then (tcpPcbRelease (n.setState i .closed) i, false) else (n, false)
  | _ => (n, true)

/-- The states in which the text of a segment is stored. -/
def takesText : PcbState → Bool
  | .established | .finWait1 | .finWait2 => true
  | _ => false

/-- The seventh step copies the text behind the bytes in the buffer. -/
def processText (n : Net) (i : PcbId) (seg : SegmentInfo) (data : Memory) (len : BitVec 32) : Net :=
  let p := n.pcbs i
  if takesText p.state ∧ len ≠ 0 then
    let place := bufSize - p.rcv.wnd.toNat
    let n := (n.setPcb i { p with
      buf := splice p.buf place len.toNat data
      rcv := ⟨seg.seq + seg.len.setWidth 32, p.rcv.wnd - len.setWidth 16⟩ }).emit
        (.stored i place p.rcv.wnd (slice data 0 len.toNat))
    (tcpOutput n i tcpFlgAck []).1
  else n

/-- The eighth step. -/
def checkFin (n : Net) (i : PcbId) (seg : SegmentInfo) (flags : Flags) : Net :=
  let p := n.pcbs i
  if tcpFlgIsset flags tcpFlgFin ∧ p.state ≠ .closed ∧ p.state ≠ .listen then
    let n := (tcpOutput (n.setPcb i { p with rcv := { p.rcv with nxt := seg.seq + 1 } }) i tcpFlgAck []).1
    match p.state with
    | .synReceived | .established => n.setState i .closeWait
    | .finWait1 => n.setState i (if seg.ack = p.snd.nxt then .timeWait else .closing)
    | .finWait2 => n.setState i .timeWait
    | _ => n
  else n

/-- The event SEGMENT ARRIVES; `len` counts the bytes of text at `data`. -/
def tcpSegmentArrives (n : Net) (seg : SegmentInfo) (flags : Flags) (data : Memory) (len : BitVec 32)
    (localEnd foreignEnd : Endpoint) : Net :=
  match tcpPcbSelect n localEnd (some foreignEnd) with
  | none => resetReply n seg flags localEnd foreignEnd
  | some i =>
      match (n.pcbs i).state with
      | .closed => resetReply n seg flags localEnd foreignEnd
      | .listen => listenArrives n i seg flags localEnd foreignEnd
      | .synSent => synSentArrives n i seg flags localEnd foreignEnd
      | state =>
          if checksSequence state && !acceptable (n.pcbs i) seg then
            if tcpFlgIsset flags tcpFlgRst then n else (tcpOutput n i tcpFlgAck []).1
          else if !tcpFlgIsset flags tcpFlgAck then n
          else
            let (n, continues) := checkAck n i seg localEnd foreignEnd
            if continues then checkFin (processText n i seg data len) i seg flags else n

/-- The fields of `struct tcp_hdr` in host order. -/
structure TcpHdr where
  src : BitVec 16
  dst : BitVec 16
  seq : Seq
  ack : Seq
  off : BitVec 8
  flg : Flags
  wnd : BitVec 16
  up : BitVec 16
  deriving DecidableEq

def ipAddrBroadcast : BitVec 32 := 0xffffffff

/-- The arguments of `tcp_segment_arrives`. -/
structure Arrival where
  seg : SegmentInfo
  flags : Flags
  data : Memory
  len : BitVec 32
  localEnd : Endpoint
  foreignEnd : Endpoint

/-- The checks of `tcp_input`; `payload` is the memory from the header on, of which `len` bytes arrived. -/
def tcpInputArrival (hdr : TcpHdr) (payload : Memory) (len : BitVec 32) (checksum : Bool) (src dst broadcast : BitVec 32) :
    Option Arrival :=
  if len < 20 then none
  else if !checksum then none
  else if src = ipAddrBroadcast ∨ src = broadcast ∨ dst = ipAddrBroadcast ∨ dst = broadcast then none
  else
    let hlen : BitVec 32 := (hdr.off >>> 4 <<< 2).setWidth 32
    let text : BitVec 16 := (len - hlen).setWidth 16
    let text := if tcpFlgIsset hdr.flg tcpFlgSyn then text + 1 else text
    let text := if tcpFlgIsset hdr.flg tcpFlgFin then text + 1 else text
    some {
      seg := { seq := hdr.seq, ack := hdr.ack, len := text, wnd := hdr.wnd, up := hdr.up }
      flags := hdr.flg
      data := fun k => payload (hlen.toNat + k)
      len := len - hlen
      localEnd := ⟨dst, hdr.dst⟩
      foreignEnd := ⟨src, hdr.src⟩ }

def tcpInput (n : Net) (arrival : Option Arrival) : Net :=
  match arrival with
  | none => n
  | some a => tcpSegmentArrives n a.seg a.flags a.data a.len a.localEnd a.foreignEnd

end BtbuOs.Tcp
