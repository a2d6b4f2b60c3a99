import BtbuOs.Tcp.Segment

namespace BtbuOs.Tcp

open Bytes

/-- The macros `TCP_SOURCE_PORT_MIN` and `TCP_SOURCE_PORT_MAX`. -/
def tcpSourcePortMin : Nat := 49152
def tcpSourcePortMax : Nat := 65535

/-- A call returns a value, or sleeps on a block until it is tried again. -/
inductive Outcome where
  | returns (value : Int)
  | sleeps (i : PcbId) (call : Call)
  deriving DecidableEq

/-- The end of a call that gives its block up. -/
def giveUp (n : Net) (i : PcbId) : Net × Outcome := (tcpPcbRelease (n.setState i .closed) i, .returns (-1))

/-- The wait of `tcp_open_rfc793` and `tcp_connect` for the state to change. -/
def awaitOpen (n : Net) (i : PcbId) (state : PcbState) : Net × Outcome :=
  if (n.pcbs i).state = state then (n, .sleeps i (.opening i state))
  else
    match (n.pcbs i).state with
    | .established => (n, .returns i.val)
    | .synReceived => (n, .sleeps i (.opening i .synReceived))
    | _ => giveUp n i

/-- The SYN of an active open. -/
def startConnection (n : Net) (i : PcbId) : Net × Outcome :=
  let n := (n.setPcb i { n.pcbs i with
    rcv := { (n.pcbs i).rcv with wnd := BitVec.ofNat 16 bufSize }, iss := n.random n.draws }).emit (.opened i)
  match tcpOutput { n with draws := n.draws + 1 } i tcpFlgSyn [] with
  | (n, false) => giveUp n i
  | (n, true) =>
      let p := n.pcbs i
      let n := n.setPcb i { p with snd := { p.snd with una := p.iss, nxt := p.iss + 1 }, state := .synSent }
      awaitOpen n i .synSent

def tcpOpenRfc793 (n : Net) (localEnd : Endpoint) (foreignEnd : Option Endpoint) (active : Bool) : Net × Outcome :=
  match tcpPcbAlloc n with
  | none => (n, .returns (-1))
  | some (i, n) =>
      if active then
        startConnection (n.setPcb i { n.pcbs i with localEnd, foreignEnd := foreignEnd.getD ⟨0, 0⟩ }) i
      else
        let n := n.setPcb i { n.pcbs i with
          localEnd, foreignEnd := foreignEnd.getD (n.pcbs i).foreignEnd, state := .listen }
        awaitOpen n i .listen

def tcpClose (n : Net) (id : Int) : Net × Outcome :=
  match tcpPcbGet n id with
  | none => (n, .returns (-1))
  | some i =>
      let finish (state : PcbState) : Net :=
        let n := (tcpOutput n i (tcpFlgAck ||| tcpFlgFin) []).1
        let p := n.pcbs i
        n.setPcb i { p with snd := { p.snd with nxt := p.snd.nxt + 1 }, state }
      match (n.pcbs i).state with
      | .listen => (tcpPcbRelease (n.setState i .closed) i, .returns 0)
      | .established => (finish .finWait1, .returns 0)
      | .closeWait => (finish .lastAck, .returns 0)
      | _ => (n, .returns (-1))

def tcpOpen (n : Net) : Net × Outcome :=
  match tcpPcbAlloc n with
  | none => (n, .returns (-1))
  | some (i, n) => (n.setPcb i { n.pcbs i with mode := .socket }, .returns i.val)

/-- The port that `tcp_connect` tries last is kept when none is free. -/
def choosePort (n : Net) (addr : BitVec 32) (foreignEnd : Endpoint) : BitVec 16 :=
  let ports := (List.range (tcpSourcePortMax + 1 - tcpSourcePortMin)).map fun k => BitVec.ofNat 16 (tcpSourcePortMin + k)
  (ports.find? fun port => (tcpPcbSelect n ⟨addr, port⟩ (some foreignEnd)).isNone).getD (BitVec.ofNat 16 tcpSourcePortMax)

def tcpConnect (n : Net) (id : Int) (foreignEnd : Endpoint) : Net × Outcome :=
  match tcpPcbGet n id with
  | none => (n, .returns (-1))
  | some i =>
      if (n.pcbs i).mode ≠ .socket then (n, .returns (-1))
      else
        let addr :=
          if (n.pcbs i).localEnd.addr = ipAddrAny then (n.route foreignEnd.addr).map Iface.unicast
          else some (n.pcbs i).localEnd.addr
        match addr with
        | none => (n, .returns (-1))
        | some addr =>
            let port := if (n.pcbs i).localEnd.port = 0 then choosePort n addr foreignEnd else (n.pcbs i).localEnd.port
            startConnection (n.setPcb i { n.pcbs i with localEnd := ⟨addr, port⟩, foreignEnd }) i

def tcpBind (n : Net) (id : Int) (localEnd : Endpoint) : Net × Outcome :=
  match tcpPcbGet n id with
  | none => (n, .returns (-1))
  | some i =>
      if (n.pcbs i).mode ≠ .socket then (n, .returns (-1))
      else if (tcpPcbSelect n localEnd none).isSome then (n, .returns (-1))
      else (n.setPcb i { n.pcbs i with localEnd }, .returns 0)

def tcpListen (n : Net) (id : Int) : Net × Outcome :=
  match tcpPcbGet n id with
  | none => (n, .returns (-1))
  | some i =>
      if (n.pcbs i).mode ≠ .socket then (n, .returns (-1))
      else (n.setState i .listen, .returns 0)

/-- The loop of `tcp_accept`. -/
def takeBacklog (n : Net) (i : PcbId) : Net × Outcome :=
  match (n.pcbs i).backlog with
  | [] => (n, .sleeps i (.accepting i))
  | newPcb :: rest => (n.setPcb i { n.pcbs i with backlog := rest }, .returns newPcb.val)

def tcpAccept (n : Net) (id : Int) : Net × Outcome :=
  match tcpPcbGet n id with
  | none => (n, .returns (-1))
  | some i =>
      if (n.pcbs i).mode ≠ .socket then (n, .returns (-1))
      else if (n.pcbs i).state ≠ .listen then (n, .returns (-1))
      else takeBacklog n i

/-- The loop of `tcp_send` within one stay in the kernel; every round sends a byte at least, so that the first argument
bounds the rounds. -/
def sendRounds (i : PcbId) (data : List Byte) (mss : Nat) : Nat → Net → Nat → Net × Outcome
  | 0, n, sent => (n, .returns sent)
  | rounds + 1, n, sent =>
      if data.length ≤ sent then (n, .returns sent)
      else
        let p := n.pcbs i
        let cap := p.snd.wnd.setWidth 32 - (p.snd.nxt - p.snd.una)
        if cap = 0 then (n, .sleeps i (.sending i data sent))
        else
          let slen := min (min mss (data.length - sent)) cap.toNat
          match tcpOutput n i (tcpFlgAck ||| tcpFlgPsh) ((data.drop sent).take slen) with
          | (n, false) => giveUp n i
          | (n, true) =>
              let p := n.pcbs i
              sendRounds i data mss rounds
                (n.setPcb i { p with snd := { p.snd with nxt := p.snd.nxt + BitVec.ofNat 32 slen } }) (sent + slen)

/-- The part of `tcp_send` from the label RETRY on; the headers of IP and TCP take 40 bytes of the MTU. -/
def retrySend (n : Net) (i : PcbId) (data : List Byte) (sent : Nat) : Net × Outcome :=
  match (n.pcbs i).state with
  | .established | .closeWait =>
      match n.route (n.pcbs i).foreignEnd.addr with
      | none => (n, .returns (-1))
      | some iface => sendRounds i data (iface.mtu - 40) (data.length + 1) n sent
  | _ => (n, .returns (-1))

def tcpSend (n : Net) (id : Int) (data : List Byte) : Net × Outcome :=
  match tcpPcbGet n id with
  | none => (n, .returns (-1))
  | some i => retrySend n i data 0

/-- The end of `tcp_receive`: the bytes behind the ones read move to the start of the buffer. -/
def takeBytes (n : Net) (i : PcbId) (size : Nat) : Net × Outcome :=
  let p := n.pcbs i
  let remain := bufSize - p.rcv.wnd.toNat
  let len := min size remain
  let n := n.setPcb i { p with
    buf := splice p.buf 0 (remain - len) (fun k => p.buf (len + k))
    rcv := { p.rcv with wnd := p.rcv.wnd + BitVec.ofNat 16 len } }
  (n.emit (.received i (slice p.buf 0 len)), .returns len)

/-- The part of `tcp_receive` from the label RETRY on. -/
def retryReceive (n : Net) (i : PcbId) (size : Nat) : Net × Outcome :=
  let remain := bufSize - (n.pcbs i).rcv.wnd.toNat
  match (n.pcbs i).state with
  | .established => if remain = 0 then (n, .sleeps i (.receiving i size)) else takeBytes n i size
  | .closeWait => if remain = 0 then (n, .returns 0) else takeBytes n i size
  | _ => (n, .returns (-1))

def tcpReceive (n : Net) (id : Int) (size : Nat) : Net × Outcome :=
  match tcpPcbGet n id with
  | none => (n, .returns (-1))
  | some i => retryReceive n i size

/-- What a call does when `sched_sleep` is interrupted. -/
def interruptCall (n : Net) : Call → Net × Outcome
  | .opening i _ => giveUp n i
  | .accepting _ => (n, .returns (-1))
  | .sending _ _ sent => (n, .returns (if sent = 0 then -1 else sent))
  | .receiving _ _ => (n, .returns (-1))

/-- What a call does after `sched_sleep`. -/
def retryCall (n : Net) : Call → Net × Outcome
  | .opening i state => awaitOpen n i state
  | .accepting i => if (n.pcbs i).state = .closed then (tcpPcbRelease n i, .returns (-1)) else takeBacklog n i
  | .sending i data sent => retrySend n i data sent
  | .receiving i size => retryReceive n i size

/-- The block of a call. -/
def Call.block : Call → PcbId
  | .opening i _ | .accepting i | .sending i _ _ | .receiving i _ => i

/-- A call that sleeps waits on its block, unless the block is interrupted already. -/
def settle (n : Net) : Outcome → Net
  | .returns value => n.emit (.returned value)
  | .sleeps i call =>
      if (n.pcbs i).ctx.interrupted then
        match interruptCall n call with
        | (n, .returns value) => n.emit (.returned value)
        | (n, .sleeps _ _) => n
      else
        { n.setPcb i { n.pcbs i with ctx := { (n.pcbs i).ctx with wc := (n.pcbs i).ctx.wc + 1 } } with
          calls := n.calls ++ [call] }

/-- A call that slept goes on: it was woken up, its time was over, or it was interrupted. -/
def resume (n : Net) (index : Nat) : Option Net :=
  match n.calls[index]? with
  | none => none
  | some call =>
      let i := call.block
      let p := n.pcbs i
      let ctx := { p.ctx with wc := p.ctx.wc - 1 }
      let n := { n with calls := n.calls.eraseIdx index }
      if p.ctx.interrupted then
        let n := n.setPcb i { p with ctx := if ctx.wc = 0 then { ctx with interrupted := false } else ctx }
        let (n, outcome) := interruptCall n call
        some (settle n outcome)
      else
        let (n, outcome) := retryCall (n.setPcb i { p with ctx }) call
        some (settle n outcome)

/-- The events of the network and the calls of the user. -/
inductive Action where
  | input (hdr : TcpHdr) (payload : Memory) (len : BitVec 32) (checksum : Bool) (src dst broadcast : BitVec 32)
  | timer
  | interrupt
  | elapse (time : Nat)
  | openRfc793 (localEnd : Endpoint) (foreignEnd : Option Endpoint) (active : Bool)
  | close (id : Int)
  | openSocket
  | connect (id : Int) (foreignEnd : Endpoint)
  | bind (id : Int) (localEnd : Endpoint)
  | listen (id : Int)
  | accept (id : Int)
  | send (id : Int) (data : List Byte)
  | receive (id : Int) (size : Nat)
  | resume (index : Nat)

/-- A call of the user up to its return or its sleep. -/
def finish (result : Net × Outcome) : Net := settle result.1 result.2

/-- The network after an action; the mutex makes each one atomic. -/
def advance (n : Net) : Action → Option Net
  | .input hdr payload len checksum src dst broadcast => 
      some (tcpInput n (tcpInputArrival hdr payload len checksum src dst broadcast))
  | .timer => some (tcpTimer n)
  | .interrupt => some (eventHandler n)
  | .elapse time => some { n with now := n.now + time }
  | .openRfc793 localEnd foreignEnd active => some (finish (tcpOpenRfc793 n localEnd foreignEnd active))
  | .close id => some (finish (tcpClose n id))
  | .openSocket => some (finish (tcpOpen n))
  | .connect id foreignEnd => some (finish (tcpConnect n id foreignEnd))
  | .bind id localEnd => some (finish (tcpBind n id localEnd))
  | .listen id => some (finish (tcpListen n id))
  | .accept id => some (finish (tcpAccept n id))
  | .send id data => some (finish (tcpSend n id data))
  | .receive id size => some (finish (tcpReceive n id size))
  | .resume index => resume n index

/-- The events of a step are those it adds to the log. -/
def step (n : Net) (action : Action) : Option (Net × List Event) :=
  (advance n action).map fun after => (after, after.log.drop n.log.length)

/-- No block is in use at the start. -/
def Initial (n : Net) : Prop := n.pcbs = (fun _ => Pcb.zero) ∧ n.calls = [] ∧ n.log = []

end BtbuOs.Tcp
