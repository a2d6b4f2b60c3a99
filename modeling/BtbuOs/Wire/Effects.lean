import BtbuOs.Udp.Delivery
import BtbuOs.Wire.Network

namespace BtbuOs.Wire

open Machine Bytes Net
open Tcp (Endpoint ipAddrBroadcast)

variable {stations : Nat → Station} {st : Station} {w after : Network} {n m : Nat} {action : NetAction} {events : List NetEvent} {frame packet : Frame}
  {src dst : Endpoint} {text : List Byte}

/-- The frame has a datagram of the station. -/
def UdpSent (st : Station) (src dst : Endpoint) (text : List Byte) (frame : Frame) : Prop :=
  text.length < 2 ^ 32 ∧ src.addr = st.iface.unicast ∧ ∃ message ha,
    udpMessage (fun _ => 0) src dst (fun k => text.getD k 0) (BitVec.ofNat 32 text.length) = some message ∧
    IpSent st ipProtocolUdp message.bytes (message.total.setWidth 32) dst.addr ha frame

/-- The frame has a packet of another protocol. -/
def OtherSent (st : Station) (frame : Frame) : Prop :=
  ∃ protocol data len dst ha, protocol ≠ ipProtocolUdp ∧ IpSent st protocol data len dst ha frame

/-- A host that gets a datagram reads its ends and its text, unless it is for another host. -/
theorem UdpSent.arrival {receiver : Station} (sent : UdpSent st src dst text frame) (passed : etherInputHelper addr frame = some (type, packet)) :
    type = netProtocolTypeIp ∧ ipUdpArrival receiver packet = if Addressed receiver.iface dst.addr then some (src, dst, text) else none := by
  obtain ⟨short, own, message, ha, built, whole⟩ := sent
  have count : (BitVec.ofNat 32 text.length).toNat = text.length := Nat.mod_eq_of_lt short
  obtain ⟨same, here⟩ := whole.received passed
  refine ⟨same, ?_⟩
  have known : receiver.host.iface = some receiver.iface := rfl
  rw [ipUdpArrival, here.handled known]
  by_cases mine : Addressed receiver.iface dst.addr
  · rw [if_pos mine, if_pos mine]
    change udpArrival packet.bytes ⟨ipHdrSizeMin, message.total.setWidth 32⟩ _ _ = _
    rw [here.src, here.dst, ← own, udpMessage_arrival built here.arrives, count, slice_eq text fun k _ => by rw [Nat.zero_add]]
  · rw [if_neg mine, if_neg mine]

/-- A packet of another protocol brings no datagram. -/
theorem OtherSent.arrival {receiver : Station} (sent : OtherSent st frame) (passed : etherInputHelper addr frame = some (type, packet)) :
    type = netProtocolTypeIp ∧ ipUdpArrival receiver packet = none := by
  obtain ⟨protocol, data, len, dst, ha, other, whole⟩ := sent
  obtain ⟨same, here⟩ := whole.received passed
  refine ⟨same, ?_⟩
  have known : receiver.host.iface = some receiver.iface := rfl
  rw [ipUdpArrival, here.handled known]
  by_cases mine : Addressed receiver.iface dst
  · rw [if_pos mine]
    by_cases tcp : protocol = ipProtocolTcp
    · rw [tcp]
      rfl
    by_cases icmp : protocol = ipProtocolIcmp
    · rw [icmp]
      rfl
    have none : (receiver.host.protocols.find? fun entry => entry.1 = protocol) = none := by
      refine List.find?_eq_none.mpr fun entry listed => ?_
      simp only [Station.host, List.mem_cons, List.not_mem_nil, or_false] at listed
      rcases listed with rfl | rfl | rfl
      · simpa using Ne.symm tcp
      · simpa using Ne.symm other
      · simpa using Ne.symm icmp
    rw [none]
    rfl
  · rw [if_neg mine]

/-- The sockets of a host keep their state or make a step. -/
def UdpMoves (s after : Udp.State) (events : List Udp.Event) : Prop :=
  after = s ∧ events = [] ∨ ∃ action, Udp.step s action = some (after, events)

/-- The cache of a host keeps its state or makes a step. -/
def ArpMoves (caches after : Caches) (events : List ArpEvent) : Prop :=
  after = caches ∧ events = [] ∨ ∃ action, arpStep caches action = some (after, events)

/-- What a step does to one host and to the frames. -/
structure NetEffect (stations : Nat → Station) (n : Nat) (w after : Network) (events : List NetEvent) : Prop where
  others : ∀ m, m ≠ n → after.node m = w.node m ∧ events.filterMap (udpOf m) = [] ∧ events.filterMap (arpOf m) = []
  udp : UdpMoves (w.node n).udp (after.node n).udp (events.filterMap (udpOf n))
  arp : ArpMoves (w.node n).stack.caches (after.node n).stack.caches (events.filterMap (arpOf n))
  ipQueue : ∀ packet ∈ (after.node n).ipQueue, packet ∈ (w.node n).ipQueue ∨
    ∃ frame ∈ w.wire, etherInputHelper (stations n).dev.addr frame = some (netProtocolTypeIp, packet)
  arpQueue : ∀ packet ∈ (after.node n).arpQueue, packet ∈ (w.node n).arpQueue ∨
    ∃ frame ∈ w.wire, etherInputHelper (stations n).dev.addr frame = some (etherTypeArp, packet)
  wire : ∀ frame ∈ after.wire, frame ∈ w.wire ∨ ArpSent (stations n) frame ∨ OtherSent (stations n) frame ∨
    ∃ i src dst text, .udp n (.output i src dst text) ∈ events ∧ UdpSent (stations n) src dst text frame
  queued : ∀ i entry, .udp n (.queued i entry) ∈ events →
    ∃ packet ∈ (w.node n).ipQueue, ∃ dst, ipUdpArrival (stations n) packet = some (entry.foreignEnd, dst, entry.data)
  heard : ∀ spa sha, .arp n (.heard spa sha) ∈ events →
    ∃ packet ∈ (w.node n).arpQueue, (readArp packet.bytes).spa = spa ∧ (readArp packet.bytes).sha = sha

section Filters

theorem udpOf_udp (n m : Nat) (events : List Udp.Event) : (events.map (NetEvent.udp n)).filterMap (udpOf m) = if n = m then events else [] := by
  rw [List.filterMap_map]
  split_ifs with same
  · have each : udpOf m ∘ NetEvent.udp n = some := by
      funext event
      exact if_pos same
    rw [each, List.filterMap_some]
  · exact List.filterMap_eq_nil_iff.mpr fun event _ => if_neg same

theorem udpOf_arp (n m : Nat) (events : List ArpEvent) : (events.map (NetEvent.arp n)).filterMap (udpOf m) = [] := by
  rw [List.filterMap_map]
  exact List.filterMap_eq_nil_iff.mpr fun event _ => rfl

theorem arpOf_udp (n m : Nat) (events : List Udp.Event) : (events.map (NetEvent.udp n)).filterMap (arpOf m) = [] := by
  rw [List.filterMap_map]
  exact List.filterMap_eq_nil_iff.mpr fun event _ => rfl

theorem arpOf_arp (n m : Nat) (events : List ArpEvent) : (events.map (NetEvent.arp n)).filterMap (arpOf m) = if n = m then events else [] := by
  rw [List.filterMap_map]
  split_ifs with same
  · have each : arpOf m ∘ NetEvent.arp n = some := by
      funext event
      exact if_pos same
    rw [each, List.filterMap_some]
  · exact List.filterMap_eq_nil_iff.mpr fun event _ => if_neg same

end Filters

section Moves

/-- The cache of a host is not asked, or asked for a next hop. -/
def Asks (st : Station) (now : Timeval) (caches after : Caches) (events : List ArpEvent) : Prop :=
  after = caches ∧ events = [] ∨ ∃ hop, arpResolve caches st.arpIface hop now = (after, events)

theorem Asks.moves {now : Timeval} {caches later : Caches} {asked : List ArpEvent} (asks : Asks st now caches later asked) :
    ArpMoves caches later asked :=
  asks.imp_right fun resolved => ⟨.resolve st.arpIface resolved.choose now, congrArg some resolved.choose_spec⟩

theorem Asks.unheard {now : Timeval} {caches later : Caches} {asked : List ArpEvent} (asks : Asks st now caches later asked) (spa : IpAddr)
    (sha : HwAddr) : .heard spa sha ∉ asked := by
  rcases asks with ⟨-, rfl⟩ | ⟨hop, resolved⟩
  · exact List.not_mem_nil
  · have same : asked = (arpResolve caches st.arpIface hop now).2 := (congrArg Prod.snd resolved).symm
    rw [same, arpResolve, if_neg (by exact fun other => other rfl), if_neg (by exact Bool.false_ne_true)]
    cases arpCacheSelect caches hop with
    | none => cases arpCacheAlloc caches <;> simp [arpRequest]
    | some i =>
        dsimp only
        split_ifs <;> simp [arpRequest]

theorem ipOutputDevice_asks (st : Station) (caches : Caches) (whole : Message) (hop : IpAddr) (now : Timeval) :
    Asks st now caches (ipOutputDevice st caches whole hop now).1 (ipOutputDevice st caches whole hop now).2.1 := by
  unfold ipOutputDevice
  split_ifs
  · exact Or.inl ⟨rfl, rfl⟩
  · exact Or.inr ⟨hop, rfl⟩
  · exact Or.inl ⟨rfl, rfl⟩

theorem ipOutput_asks (st : Station) (stack : Stack) (protocol : Byte) (data : Memory) (len : BitVec 32) (src dst : IpAddr) (now : Timeval) :
    Asks st now stack.caches (ipOutput st stack protocol data len src dst now).1.caches (ipOutput st stack protocol data len src dst now).2.1 := by
  unfold ipOutput
  cases ipNexthop st len src dst with
  | none => exact Or.inl ⟨rfl, rfl⟩
  | some hop =>
      cases ipMessage (fun _ => 0) protocol data len st.iface.unicast dst stack.id 0 with
      | none => exact Or.inl ⟨rfl, rfl⟩
      | some whole => exact ipOutputDevice_asks st stack.caches whole hop now

/-- The frames of `udp_output` have its datagram, from the address of the interface. -/
theorem udpOutput_frames {stack : Stack} {now : Timeval} (member : frame ∈ (udpOutput st stack src dst text now).2.2) :
    ArpSent st frame ∨ (src.addr = Net.ipAddrAny ∨ src.addr = st.iface.unicast) ∧ ∃ message ha,
      udpMessage (fun _ => 0) src dst (fun k => text.getD k 0) (BitVec.ofNat 32 text.length) = some message ∧
      IpSent st ipProtocolUdp message.bytes (message.total.setWidth 32) dst.addr ha frame := by
  unfold udpOutput at member
  cases built : udpMessage (fun _ => 0) src dst (fun k => text.getD k 0) (BitVec.ofNat 32 text.length) with
  | none =>
      rw [built] at member
      exact absurd member List.not_mem_nil
  | some message =>
      rw [built] at member
      exact (ipOutput_frames member).imp_right fun rest => ⟨rest.1, message, rest.2.choose, rfl, rest.2.choose_spec⟩

theorem udpOutput_asks (st : Station) (stack : Stack) (src dst : Endpoint) (data : List Byte) (now : Timeval) :
    Asks st now stack.caches (udpOutput st stack src dst data now).1.caches (udpOutput st stack src dst data now).2.1 := by
  unfold udpOutput
  cases udpMessage (fun _ => 0) src dst (fun k => data.getD k 0) (BitVec.ofNat 32 data.length) with
  | none => exact Or.inl ⟨rfl, rfl⟩
  | some message => exact ipOutput_asks st stack ipProtocolUdp message.bytes _ src.addr dst.addr now

/-- The only event of a call that sends is its output, from the address of the interface or of the socket. -/
theorem udpSendto_output {s : Udp.State} {id : Int} {data : List Byte} {foreignEnd : Endpoint} {iface : Option IpAddr} {event : Udp.Event}
    (member : event ∈ (Udp.udpSendto s id data foreignEnd iface).2) :
    (Udp.udpSendto s id data foreignEnd iface).2 = [event] ∧ (event = .refused ∨
      ∃ i src, event = .output i src foreignEnd data ∧ (iface = some src.addr ∨ src.addr ≠ Net.ipAddrAny)) := by
  unfold Udp.udpSendto at member ⊢
  cases opened : Udp.udpPcbGet s id with
  | none =>
      rw [opened] at member
      rw [List.mem_singleton.mp member]
      exact ⟨rfl, Or.inl rfl⟩
  | some i =>
      rw [opened] at member
      dsimp only at member ⊢
      cases local_ : if (s.pcbs i).localEnd.addr = Net.ipAddrAny then iface else some (s.pcbs i).localEnd.addr with
      | none =>
          rw [local_] at member
          rw [List.mem_singleton.mp member]
          exact ⟨rfl, Or.inl rfl⟩
      | some addr =>
          have source : iface = some addr ∨ addr ≠ Net.ipAddrAny := by
            split_ifs at local_ with any
            · exact Or.inl local_
            · exact Or.inr (Option.some.inj local_ ▸ any)
          rw [local_] at member
          dsimp only at member ⊢
          by_cases unbound : (s.pcbs i).localEnd.port = 0
          · rw [if_pos unbound] at member ⊢
            cases found : Udp.dynamicPort s addr with
            | none =>
                rw [found] at member
                rw [List.mem_singleton.mp member]
                exact ⟨rfl, Or.inl rfl⟩
            | some port =>
                rw [found] at member
                rw [List.mem_singleton.mp member]
                exact ⟨rfl, Or.inr ⟨i, _, rfl, source⟩⟩
          · rw [if_neg unbound] at member ⊢
            rw [List.mem_singleton.mp member]
            exact ⟨rfl, Or.inr ⟨i, _, rfl, source⟩⟩

/-- Only the input of a datagram queues one. -/
theorem call_unqueued {s later : Udp.State} {call : Udp.Action} {told : List Udp.Event} (calls : isCall call = true)
    (stepped : Udp.step s call = some (later, told)) (i : Udp.PcbId) (entry : Udp.QueueEntry) : .queued i entry ∉ told := by
  have received (s : Udp.State) (call : Udp.Call) : Udp.Event.queued i entry ∉ (Udp.receive s call).2 := by
    unfold Udp.receive
    dsimp only
    cases (s.pcbs call.pcb).queue with
    | nil => split_ifs <;> simp
    | cons => simp
  have woken (s : Udp.State) (call : Udp.Call) : Udp.Event.queued i entry ∉ (Udp.wake s call).2 := by
    unfold Udp.wake
    dsimp only
    split_ifs
    · simp
    · simp
    · exact received _ call
  cases call with
  | sendto | input => exact absurd calls Bool.false_ne_true
  | opens =>
      obtain ⟨-, rfl⟩ := Prod.mk.inj (Option.some.inj stepped)
      cases Udp.udpPcbAlloc s <;> simp
  | close id =>
      obtain ⟨-, rfl⟩ := Prod.mk.inj (Option.some.inj stepped)
      cases Udp.udpPcbGet s id <;> simp
  | bind id localEnd =>
      obtain ⟨-, rfl⟩ := Prod.mk.inj (Option.some.inj stepped)
      cases Udp.udpPcbGet s id with
      | none => simp
      | some => cases Udp.udpPcbSelect s localEnd.addr localEnd.port <;> simp
  | recvfrom thread id size =>
      rw [Udp.step] at stepped
      split_ifs at stepped
      obtain ⟨-, rfl⟩ := Prod.mk.inj (Option.some.inj stepped)
      cases Udp.udpPcbGet s id with
      | none => simp
      | some pcb => exact received s _
  | wake thread timeout =>
      rw [Udp.step] at stepped
      cases found : s.calls.find? fun call => call.thread = thread with
      | none =>
          rw [found] at stepped
          cases stepped
      | some call =>
          rw [found] at stepped
          dsimp only at stepped
          split_ifs at stepped
          have same : (Udp.wake s call).2 = told := congrArg Prod.snd (Option.some.inj stepped)
          exact same ▸ woken s call
  | event =>
      obtain ⟨-, rfl⟩ := Prod.mk.inj (Option.some.inj stepped)
      exact List.not_mem_nil

/-- A datagram is queued with its sender and its text. -/
theorem udpInput_queued {s : Udp.State} {entryMemory queueMemory : Bool} {i : Udp.PcbId} {entry : Udp.QueueEntry}
    (queued : .queued i entry ∈ (Udp.udpInput s src dst text entryMemory queueMemory).2) : entry = { foreignEnd := src, data := text } := by
  unfold Udp.udpInput at queued
  cases selected : Udp.udpPcbSelect s dst.addr dst.port with
  | none =>
      rw [selected] at queued
      exact absurd queued List.not_mem_nil
  | some j =>
      rw [selected] at queued
      dsimp only at queued
      split_ifs at queued <;> simp at queued
      exact queued.2

end Moves

section Steps

/-- A host changes with its events, and its frames follow the others. -/
theorem NetEffect.of {node : Node} {frames : List Frame} {told : List Udp.Event} {asked : List ArpEvent}
    (next : after = { w.setNode n node with wire := w.wire ++ frames }) (trace : events = told.map (.udp n) ++ asked.map (.arp n))
    (udp : UdpMoves (w.node n).udp node.udp told) (arp : ArpMoves (w.node n).stack.caches node.stack.caches asked)
    (ipQueue : ∀ packet ∈ node.ipQueue, packet ∈ (w.node n).ipQueue ∨
      ∃ frame ∈ w.wire, etherInputHelper (stations n).dev.addr frame = some (netProtocolTypeIp, packet))
    (arpQueue : ∀ packet ∈ node.arpQueue, packet ∈ (w.node n).arpQueue ∨
      ∃ frame ∈ w.wire, etherInputHelper (stations n).dev.addr frame = some (etherTypeArp, packet))
    (sent : ∀ frame ∈ frames, ArpSent (stations n) frame ∨ OtherSent (stations n) frame ∨
      ∃ i src dst text, .output i src dst text ∈ told ∧ UdpSent (stations n) src dst text frame)
    (queued : ∀ i entry, .queued i entry ∈ told →
      ∃ packet ∈ (w.node n).ipQueue, ∃ dst, ipUdpArrival (stations n) packet = some (entry.foreignEnd, dst, entry.data))
    (heard : ∀ spa sha, .heard spa sha ∈ asked →
      ∃ packet ∈ (w.node n).arpQueue, (readArp packet.bytes).spa = spa ∧ (readArp packet.bytes).sha = sha) :
    NetEffect stations n w after events := by
  have self : after.node n = node := by
    rw [next]
    exact w.setNode_self n node
  have sockets (m : Nat) : events.filterMap (udpOf m) = if n = m then told else [] := by
    rw [trace, List.filterMap_append, udpOf_udp, udpOf_arp, List.append_nil]
  have caches (m : Nat) : events.filterMap (arpOf m) = if n = m then asked else [] := by
    rw [trace, List.filterMap_append, arpOf_udp, arpOf_arp, List.nil_append]
  have mine {event : Udp.Event} : .udp n event ∈ events ↔ event ∈ told := by simp [trace]
  refine ⟨fun m away => ⟨?_, ?_, ?_⟩, ?_, ?_, ?_, ?_, fun frame listed => ?_, fun i entry listed => queued i entry (mine.mp listed), ?_⟩
  · rw [next]
    exact w.setNode_other node away
  · rw [sockets, if_neg fun same => away same.symm]
  · rw [caches, if_neg fun same => away same.symm]
  · rw [sockets, if_pos rfl, self]
    exact udp
  · rw [caches, if_pos rfl, self]
    exact arp
  · rw [self]
    exact ipQueue
  · rw [self]
    exact arpQueue
  · rw [next] at listed
    rcases List.mem_append.mp listed with old | new
    · exact Or.inl old
    · refine Or.inr ((sent frame new).imp_right fun rest => rest.imp_right ?_)
      rintro ⟨i, src, dst, text, output, made⟩
      exact ⟨i, src, dst, text, mine.mpr output, made⟩
  · intro spa sha listed
    exact heard spa sha (by simpa [trace] using listed)

/-- A host changes without events and frames. -/
theorem NetEffect.silent (node : Node) (next : after = w.setNode n node) (udp : node.udp = (w.node n).udp)
    (arp : ArpMoves (w.node n).stack.caches node.stack.caches []) (ipQueue : ∀ packet ∈ node.ipQueue, packet ∈ (w.node n).ipQueue ∨
      ∃ frame ∈ w.wire, etherInputHelper (stations n).dev.addr frame = some (netProtocolTypeIp, packet))
    (arpQueue : ∀ packet ∈ node.arpQueue, packet ∈ (w.node n).arpQueue ∨
      ∃ frame ∈ w.wire, etherInputHelper (stations n).dev.addr frame = some (etherTypeArp, packet)) : NetEffect stations n w after [] := by
  have all : after = { w.setNode n node with wire := w.wire ++ [] } := by
    rw [next, List.append_nil]
    rfl
  have none : ([] : List NetEvent) = ([] : List Udp.Event).map (.udp n) ++ ([] : List ArpEvent).map (.arp n) := rfl
  exact .of all none (Or.inl ⟨udp, rfl⟩) arp ipQueue arpQueue (fun frame listed => absurd listed List.not_mem_nil)
    (fun i entry listed => absurd listed List.not_mem_nil) fun spa sha listed => absurd listed List.not_mem_nil

/-- The frames of `udp_sendto` are for the output that it tells. -/
theorem sendto_effect {id : Int} {data : List Byte} {foreignEnd : Endpoint} {now : Timeval} (short : data.length < 2 ^ 32) {node : Node}
    {told : List Udp.Event} {asked : List ArpEvent} {frames : List Frame}
    (done : sendto st before id data foreignEnd now = (node, told, asked, frames)) :
    UdpMoves before.udp node.udp told ∧ ArpMoves before.stack.caches node.stack.caches asked ∧ node.ipQueue = before.ipQueue ∧
      node.arpQueue = before.arpQueue ∧ (∀ i entry, .queued i entry ∉ told) ∧ (∀ spa sha, .heard spa sha ∉ asked) ∧
      ∀ frame ∈ frames, ArpSent st frame ∨ ∃ i src dst text, .output i src dst text ∈ told ∧ UdpSent st src dst text frame := by
  obtain ⟨iface, route⟩ : ∃ iface, iface = (ipRouteLookup st.routes foreignEnd.addr).map fun _ => st.iface.unicast := ⟨_, rfl⟩
  unfold sendto at done
  dsimp only at done
  rw [← route] at done
  have moves : UdpMoves before.udp (Udp.udpSendto before.udp id data foreignEnd iface).1 (Udp.udpSendto before.udp id data foreignEnd iface).2 :=
    Or.inr ⟨.sendto id data foreignEnd iface, rfl⟩
  have outputs := fun event => @udpSendto_output before.udp id data foreignEnd iface event
  generalize Udp.udpSendto before.udp id data foreignEnd iface = result at done moves outputs
  obtain ⟨udp, sent⟩ := result
  dsimp only at done moves outputs
  have alone (quiet : ({ before with udp }, sent, [], []) = (node, told, asked, frames)) (unqueued : ∀ i entry, Udp.Event.queued i entry ∉ sent) :
      UdpMoves before.udp node.udp told ∧ ArpMoves before.stack.caches node.stack.caches asked ∧ node.ipQueue = before.ipQueue ∧
        node.arpQueue = before.arpQueue ∧ (∀ i entry, .queued i entry ∉ told) ∧ (∀ spa sha, .heard spa sha ∉ asked) ∧
        ∀ frame ∈ frames, ArpSent st frame ∨ ∃ i src dst text, .output i src dst text ∈ told ∧ UdpSent st src dst text frame := by
    cases quiet
    exact ⟨moves, Or.inl ⟨rfl, rfl⟩, rfl, rfl, unqueued, fun _ _ => List.not_mem_nil, fun frame listed => absurd listed List.not_mem_nil⟩
  cases sent with
  | nil => exact alone done fun i entry => List.not_mem_nil
  | cons event rest =>
      obtain ⟨single, either⟩ := outputs event List.mem_cons_self
      obtain rfl := (List.cons.inj single).2
      rcases either with rfl | ⟨i, src, rfl, source⟩
      · exact alone done fun i entry => by simp
      · dsimp only at done
        cases done
        have asks := udpOutput_asks st before.stack src foreignEnd data now
        refine ⟨moves, asks.moves, rfl, rfl, by simp, asks.unheard, fun frame listed => ?_⟩
        · rcases udpOutput_frames listed with request | ⟨own, message, ha, built, whole⟩
          · exact Or.inl request
          · refine Or.inr ⟨i, src, foreignEnd, data, List.mem_singleton_self _, short, ?_, message, ha, built, whole⟩
            rcases source with known | specific
            · rw [route] at known
              obtain ⟨-, -, same⟩ := Option.map_eq_some_iff.mp known
              exact same.symm
            · exact own.resolve_left specific

/-- The answers of `arp_input` are sent by its host, and what it hears is in the packet. -/
theorem arpInput_sent {caches later : Caches} {told : List ArpEvent} {now : Timeval} (heard : arpInput caches packet.bytes packet.len st.arpDevice now =
    (later, told)) :
    (∀ frame ∈ told.filterMap (arpFrame st.dev), ArpSent st frame) ∧
      ∀ spa sha, .heard spa sha ∈ told → (readArp packet.bytes).spa = spa ∧ (readArp packet.bytes).sha = sha := by
  have shape (event : ArpEvent) (listed : event ∈ told) : event = .heard (readArp packet.bytes).spa (readArp packet.bytes).sha ∨
      event = arpReply st.arpDevice st.iface.unicast (readArp packet.bytes).sha (readArp packet.bytes).spa (readArp packet.bytes).sha := by
    have same : told = (arpInput caches packet.bytes packet.len st.arpDevice now).2 := (congrArg Prod.snd heard).symm
    rw [same, arpInput] at listed
    dsimp only [Station.arpDevice] at listed ⊢
    split_ifs at listed <;> simp only [List.mem_cons, List.not_mem_nil, or_false] at listed <;> tauto
  constructor
  · intro frame member
    obtain ⟨event, listed, made⟩ := List.mem_filterMap.mp member
    refine arpFrame_sent (fun type message ha same => ?_) made
    rcases shape event listed with other | reply
    · rw [other] at same
      cases same
    · rw [reply] at same
      cases same
      exact ⟨rfl, rfl, rfl⟩
  · intro spa sha listed
    rcases shape _ listed with same | reply
    · cases same
      exact ⟨rfl, rfl⟩
    · cases reply

/-- Every step changes one host at most. -/
theorem netStep_effect (stepped : netStep stations w action = some (after, events)) : ∃ n, NetEffect stations n w after events := by
  have keep {n : Nat} {type : BitVec 16} (queue : List Frame) : ∀ packet ∈ queue, packet ∈ queue ∨
      ∃ frame ∈ w.wire, etherInputHelper (stations n).dev.addr frame = some (type, packet) := fun packet => Or.inl
  have alone (node : Nat → Node) : ({ node, wire := w.wire } : Network) = { node, wire := w.wire ++ [] } := by rw [List.append_nil]
  cases action with
  | call n call =>
      rw [netStep] at stepped
      split_ifs at stepped with calls
      obtain ⟨⟨udp, told⟩, moved, same⟩ := Option.map_eq_some_iff.mp stepped
      obtain ⟨rfl, rfl⟩ := Prod.mk.inj same
      exact ⟨n, .of (alone _) (List.append_nil _).symm (Or.inr ⟨call, moved⟩) (Or.inl ⟨rfl, rfl⟩) (keep _) (keep _)
        (fun frame listed => absurd listed List.not_mem_nil) (fun i entry listed => absurd listed (call_unqueued calls moved i entry))
        fun spa sha listed => absurd listed List.not_mem_nil⟩
  | sendto n id data foreignEnd now =>
      rw [netStep] at stepped
      split_ifs at stepped with short
      obtain ⟨result, done⟩ : ∃ result, result = sendto (stations n) (w.node n) id data foreignEnd now := ⟨_, rfl⟩
      obtain ⟨node, told, asked, frames⟩ := result
      obtain ⟨udp, arp, ip, queue, unqueued, unheard, sent⟩ := sendto_effect short done.symm
      rw [← done] at stepped
      obtain ⟨rfl, rfl⟩ := Prod.mk.inj (Option.some.inj stepped)
      exact ⟨n, .of rfl rfl udp arp (ip ▸ keep _) (queue ▸ keep _) (fun frame listed => (sent frame listed).imp_right Or.inr)
        (fun i entry listed => absurd listed (unqueued i entry)) fun spa sha listed => absurd listed (unheard spa sha)⟩
  | output n protocol data len src dst now =>
      rw [netStep] at stepped
      split_ifs at stepped with other
      obtain ⟨rfl, rfl⟩ := Prod.mk.inj (Option.some.inj stepped)
      have asks := ipOutput_asks (stations n) (w.node n).stack protocol data len src dst now
      exact ⟨n, .of rfl rfl (Or.inl ⟨rfl, rfl⟩) asks.moves (keep _) (keep _)
        (fun frame listed => (ipOutput_frames listed).imp_right fun rest => Or.inl ⟨protocol, data, len, dst, rest.2.choose, other, rest.2.choose_spec⟩)
        (fun i entry listed => absurd listed List.not_mem_nil) fun spa sha listed => absurd listed (asks.unheard spa sha)⟩
  | receive n k memory =>
      rw [netStep] at stepped
      cases here : w.wire[k]? with
      | none =>
          rw [here] at stepped
          cases stepped
      | some frame =>
          rw [here] at stepped
          dsimp only at stepped
          have sent : frame ∈ w.wire := List.mem_of_getElem? here
          cases passed : etherInputHelper (stations n).dev.addr frame with
          | none =>
              rw [passed] at stepped
              obtain ⟨rfl, rfl⟩ := Prod.mk.inj (Option.some.inj stepped)
              refine ⟨n, .silent (w.node n) ?_ rfl (Or.inl ⟨rfl, rfl⟩) (keep _) (keep _)⟩
              rw [Network.setNode, Function.update_eq_self]
          | some result =>
              obtain ⟨type, packet⟩ := result
              rw [passed] at stepped
              obtain ⟨rfl, rfl⟩ := Prod.mk.inj (Option.some.inj stepped)
              have queue {kind : BitVec 16} (held : List Frame) (same : type = kind) : ∀ packet_ ∈ held ++ [packet], packet_ ∈ held ∨
                  ∃ frame ∈ w.wire, etherInputHelper (stations n).dev.addr frame = some (kind, packet_) := by
                intro packet_ listed
                rcases List.mem_append.mp listed with old | new
                · exact Or.inl old
                · rw [List.mem_singleton.mp new, ← same]
                  exact Or.inr ⟨frame, sent, passed⟩
              refine ⟨n, .silent _ rfl ?_ (Or.inl ⟨?_, rfl⟩) ?_ ?_⟩
              · unfold netInputHandler
                split_ifs <;> rfl
              · unfold netInputHandler
                split_ifs <;> rfl
              · unfold netInputHandler
                split_ifs with memory ip
                · exact queue _ ip
                all_goals exact keep _
              · unfold netInputHandler
                split_ifs with memory ip arp
                · exact keep _
                · exact queue _ arp
                all_goals exact keep _
  | ipPop n entryMemory queueMemory =>
      rw [netStep] at stepped
      cases held : (w.node n).ipQueue with
      | nil =>
          rw [held] at stepped
          cases stepped
      | cons packet rest =>
          rw [held] at stepped
          obtain ⟨rfl, rfl⟩ := Prod.mk.inj (Option.some.inj stepped)
          refine ⟨n, .of (alone _) (List.append_nil _).symm ?_ (Or.inl ⟨rfl, rfl⟩) (fun other listed => Or.inl ?_) (keep _)
            (fun frame listed => absurd listed List.not_mem_nil) (fun i entry listed => ?_) fun spa sha listed => absurd listed List.not_mem_nil⟩
          · cases arrived : ipUdpArrival (stations n) packet with
            | none => exact Or.inl ⟨rfl, rfl⟩
            | some datagram => exact Or.inr ⟨.input datagram.1 datagram.2.1 datagram.2.2 entryMemory queueMemory, rfl⟩
          · rw [held]
            exact List.mem_cons_of_mem packet listed
          · rw [held]
            cases arrived : ipUdpArrival (stations n) packet with
            | none =>
                rw [arrived] at listed
                exact absurd listed List.not_mem_nil
            | some datagram =>
                rw [arrived] at listed
                have same := udpInput_queued listed
                exact ⟨packet, List.mem_cons_self, datagram.2.1, by rw [arrived, same]⟩
  | arpPop n now =>
      rw [netStep] at stepped
      cases held : (w.node n).arpQueue with
      | nil =>
          rw [held] at stepped
          cases stepped
      | cons packet rest =>
          rw [held] at stepped
          obtain ⟨result, heard⟩ : ∃ result, result = arpInput (w.node n).stack.caches packet.bytes packet.len (stations n).arpDevice now := ⟨_, rfl⟩
          obtain ⟨caches, told⟩ := result
          obtain ⟨sent, senders⟩ := arpInput_sent heard.symm
          dsimp only at stepped
          rw [← heard] at stepped
          obtain ⟨rfl, rfl⟩ := Prod.mk.inj (Option.some.inj stepped)
          refine ⟨n, .of rfl rfl (Or.inl ⟨rfl, rfl⟩) (Or.inr ⟨.input packet.bytes packet.len (stations n).arpDevice now, congrArg some heard.symm⟩)
            (keep _) (fun other listed => Or.inl ?_) (fun frame listed => Or.inl (sent frame listed))
            (fun i entry listed => absurd listed List.not_mem_nil) fun spa sha listed => ⟨packet, ?_, senders spa sha listed⟩⟩
          · rw [held]
            exact List.mem_cons_of_mem packet listed
          · rw [held]
            exact List.mem_cons_self
  | timer n now =>
      have moved : arpStep (w.node n).stack.caches (.timer now) = some (arpTimerHandler (w.node n).stack.caches now, []) := by rw [arpStep]
      rw [netStep] at stepped
      rw [Option.some.injEq, Prod.mk.injEq] at stepped
      obtain ⟨rfl, rfl⟩ := stepped
      have moves : ArpMoves (w.node n).stack.caches (arpTimerHandler (w.node n).stack.caches now) [] := Or.inr ⟨.timer now, moved⟩
      generalize arpTimerHandler (w.node n).stack.caches now = caches at moves ⊢
      exact ⟨n, .silent _ rfl rfl moves (keep _) (keep _)⟩

end Steps

end BtbuOs.Wire
