import BtbuOs.Wire.Delivery
import BtbuOs.Wire.Effects

namespace BtbuOs.Wire

open Machine Memo Bytes Net
open Tcp (Endpoint ipAddrBroadcast)
open scoped Udp

variable {stations : Nat → Station} {w after : Network} {n : Nat} {trace events : List NetEvent} {frame packet : Frame}

/-- A frame comes from a host, and a datagram in it from a call that sends. -/
def Origin (stations : Nat → Station) (trace : List NetEvent) (frame : Frame) : Prop :=
  (∃ m, ArpSent (stations m) frame) ∨ (∃ m, OtherSent (stations m) frame) ∨
    ∃ m i src dst text, .udp m (.output i src dst text) ∈ trace ∧ UdpSent (stations m) src dst text frame

/-- A text was sent by a socket of the network to an address of the host. -/
def SentTo (stations : Nat → Station) (n : Nat) (trace : List NetEvent) (src : Endpoint) (text : List Byte) : Prop :=
  ∃ m i dst, .udp m (.output i src dst text) ∈ trace ∧ Addressed (stations n).iface dst.addr

/-- What every run keeps: each host makes a run of its own, the frames and packets come from the hosts, so that the texts in the queues and
those received were sent to the host, and the addresses heard are those of hosts. -/
structure Sound (stations : Nat → Station) (w : Network) (trace : List NetEvent) : Prop where
  udp : ∀ n, Reaches Udp.step (fun _ _ _ => True) (· = Udp.initial) (w.node n).udp (trace.filterMap (udpOf n))
  arp : ∀ n, Reaches arpStep (fun _ _ _ => True) ArpInitial (w.node n).stack.caches (trace.filterMap (arpOf n))
  wire : ∀ frame ∈ w.wire, Origin stations trace frame
  ipQueue : ∀ n, ∀ packet ∈ (w.node n).ipQueue,
    ∃ frame, Origin stations trace frame ∧ etherInputHelper (stations n).dev.addr frame = some (netProtocolTypeIp, packet)
  arpQueue : ∀ n, ∀ packet ∈ (w.node n).arpQueue,
    ∃ frame, Origin stations trace frame ∧ etherInputHelper (stations n).dev.addr frame = some (etherTypeArp, packet)
  queue : ∀ n i, ∀ entry ∈ ((w.node n).udp.pcbs i).queue, SentTo stations n trace entry.foreignEnd entry.data
  received : ∀ n thread i entry bytes, .udp n (.received thread i entry bytes) ∈ trace →
    bytes <+: entry.data ∧ SentTo stations n trace entry.foreignEnd entry.data
  heard : ∀ n spa sha, .arp n (.heard spa sha) ∈ trace → ∃ m, (stations m).iface.unicast = spa ∧ (stations m).dev.addr = sha

theorem Origin.later (origin : Origin stations trace frame) : Origin stations (trace ++ events) frame := by
  refine origin.imp_right fun rest => rest.imp_right ?_
  rintro ⟨m, i, src, dst, text, output, sent⟩
  exact ⟨m, i, src, dst, text, List.mem_append_left events output, sent⟩

theorem SentTo.later {src : Endpoint} {text : List Byte} (sent : SentTo stations n trace src text) :
    SentTo stations n (trace ++ events) src text := by
  obtain ⟨m, i, dst, output, mine⟩ := sent
  exact ⟨m, i, dst, List.mem_append_left events output, mine⟩

/-- A datagram that a host reads was sent to it. -/
theorem Origin.sentTo {src dst : Endpoint} {text : List Byte} (origin : Origin stations trace frame)
    (passed : etherInputHelper (stations n).dev.addr frame = some (netProtocolTypeIp, packet))
    (arrived : ipUdpArrival (stations n) packet = some (src, dst, text)) : SentTo stations n trace src text := by
  rcases origin with ⟨m, sent⟩ | ⟨m, sent⟩ | ⟨m, i, from_, to_, words, output, sent⟩
  · exact absurd (sent.received passed).1 (by decide)
  · rw [(sent.arrival passed).2] at arrived
    cases arrived
  · rw [(sent.arrival passed).2] at arrived
    split_ifs at arrived with mine
    cases arrived
    exact ⟨m, i, dst, output, mine⟩

/-- The addresses that a host hears are those of the sender. -/
theorem Origin.heard {spa : IpAddr} {sha : HwAddr} (origin : Origin stations trace frame)
    (passed : etherInputHelper (stations n).dev.addr frame = some (etherTypeArp, packet)) (internet : (readArp packet.bytes).spa = spa)
    (hardware : (readArp packet.bytes).sha = sha) : ∃ m, (stations m).iface.unicast = spa ∧ (stations m).dev.addr = sha := by
  rcases origin with ⟨m, sent⟩ | ⟨m, sent⟩ | ⟨m, i, from_, to_, words, output, sent⟩
  · obtain ⟨-, first, second⟩ := sent.received passed
    exact ⟨m, second.symm.trans internet, first.symm.trans hardware⟩
  · obtain ⟨protocol, data, len, dst, ha, -, whole⟩ := sent
    exact absurd (whole.received passed).1 (by decide)
  · obtain ⟨-, -, message, ha, -, whole⟩ := sent
    exact absurd (whole.received passed).1 (by decide)

section Projection

/-- The events of a host are those that its own part tells. -/
theorem mem_udpOf {event : Udp.Event} : event ∈ trace.filterMap (udpOf n) ↔ .udp n event ∈ trace := by
  rw [List.mem_filterMap]
  constructor
  · rintro ⟨told, listed, same⟩
    cases told with
    | udp m other =>
        rw [udpOf] at same
        split_ifs at same with here
        rw [← here, ← Option.some.inj same]
        exact listed
    | arp m other => cases same
  · exact fun listed => ⟨_, listed, if_pos rfl⟩

theorem mem_arpOf {event : ArpEvent} : event ∈ trace.filterMap (arpOf n) ↔ .arp n event ∈ trace := by
  rw [List.mem_filterMap]
  constructor
  · rintro ⟨told, listed, same⟩
    cases told with
    | udp m other => cases same
    | arp m other =>
        rw [arpOf] at same
        split_ifs at same with here
        rw [← here, ← Option.some.inj same]
        exact listed
  · exact fun listed => ⟨_, listed, if_pos rfl⟩

theorem UdpMoves.run {s later : Udp.State} {told earlier : List Udp.Event} (moves : UdpMoves s later told)
    (run : Reaches Udp.step (fun _ _ _ => True) (· = Udp.initial) s earlier) :
    Reaches Udp.step (fun _ _ _ => True) (· = Udp.initial) later (earlier ++ told) := by
  rcases moves with ⟨rfl, rfl⟩ | ⟨action, stepped⟩
  · rw [List.append_nil]
    exact run
  · exact .next run trivial stepped

theorem ArpMoves.run {caches later : Caches} {told earlier : List ArpEvent} (moves : ArpMoves caches later told)
    (run : Reaches arpStep (fun _ _ _ => True) ArpInitial caches earlier) :
    Reaches arpStep (fun _ _ _ => True) ArpInitial later (earlier ++ told) := by
  rcases moves with ⟨rfl, rfl⟩ | ⟨action, stepped⟩
  · rw [List.append_nil]
    exact run
  · exact .next run trivial stepped

/-- A step fills a queue only with what it tells, and takes what it tells from one. -/
theorem UdpMoves.queues {s later : Udp.State} {told : List Udp.Event} (moves : UdpMoves s later told) (tidy : Udp.Tidy s) :
    (∀ i, ∀ entry ∈ (later.pcbs i).queue, entry ∈ (s.pcbs i).queue ∨ .queued i entry ∈ told) ∧
      ∀ thread i entry bytes, .received thread i entry bytes ∈ told → entry ∈ (s.pcbs i).queue ∧ bytes <+: entry.data := by
  rcases moves with ⟨rfl, rfl⟩ | ⟨action, stepped⟩
  · exact ⟨fun i entry => Or.inl, fun thread i entry bytes listed => absurd listed List.not_mem_nil⟩
  · have effect := Udp.step_effect tidy stepped
    have quiet {told : List Udp.Event} (silent : ∀ event ∈ told, event.silent = true) (thread : Nat) (i : Udp.PcbId) (entry : Udp.QueueEntry)
        (bytes : List Byte) : .received thread i entry bytes ∉ told := fun listed => absurd (silent _ listed) Bool.false_ne_true
    refine ⟨fun i entry listed => ?_, fun thread i entry bytes listed => ?_⟩
    · cases effect with
      | quiet _ queues => exact Or.inl (queues i ▸ listed)
      | opened _ _ queues => exact Or.inl (queues i ▸ listed)
      | leaked _ queues => exact Or.inl (queues i ▸ listed)
      | queued j other queue queues =>
          by_cases here : i = j
          · subst here
            rw [queue] at listed
            rcases List.mem_append.mp listed with old | new
            · exact Or.inl old
            · rw [List.mem_singleton.mp new]
              exact Or.inr (List.mem_singleton_self _)
          · exact Or.inl (queues i here ▸ listed)
      | received thread j other size queue queues =>
          by_cases here : i = j
          · subst here
            rw [queue]
            exact Or.inl (List.mem_cons_of_mem other listed)
          · exact Or.inl (queues i here ▸ listed)
      | discarded _ j _ queue queues =>
          by_cases here : i = j
          · subst here
            rw [queue] at listed
            exact absurd listed List.not_mem_nil
          · exact Or.inl (queues i here ▸ listed)
    · cases effect with
      | quiet silent => exact absurd listed (quiet silent thread i entry bytes)
      | discarded silent => exact absurd listed (quiet silent thread i entry bytes)
      | opened | queued | leaked => simp at listed
      | received other j first size queue =>
          cases List.mem_singleton.mp listed
          exact ⟨queue ▸ List.mem_cons_self, List.take_prefix size entry.data⟩

end Projection

theorem Sound.start (initial : NetInitial w) : Sound stations w [] := by
  obtain ⟨empty, nodes⟩ := initial
  refine ⟨fun n => .start (nodes n).1, fun n => .start (nodes n).2.1, fun frame listed => ?_, fun n packet listed => ?_,
    fun n packet listed => ?_, fun n i entry listed => ?_, fun n thread i entry bytes listed => absurd listed List.not_mem_nil,
    fun n spa sha listed => absurd listed List.not_mem_nil⟩
  · rw [empty] at listed
    exact absurd listed List.not_mem_nil
  · rw [(nodes n).2.2.1] at listed
    exact absurd listed List.not_mem_nil
  · rw [(nodes n).2.2.2] at listed
    exact absurd listed List.not_mem_nil
  · rw [(nodes n).1] at listed
    exact absurd listed List.not_mem_nil

/-- Every step keeps what is known of the network. -/
theorem Sound.step (sound : Sound stations w trace) (effect : NetEffect stations n w after events) : Sound stations after (trace ++ events) := by
  have tidy := (Udp.reached_kept (sound.udp n)).1
  obtain ⟨fills, takes⟩ := effect.udp.queues tidy
  have same (m : Nat) (away : m ≠ n) : after.node m = w.node m := (effect.others m away).1
  refine ⟨fun m => ?_, fun m => ?_, fun frame listed => ?_, fun m packet listed => ?_, fun m packet listed => ?_, fun m i entry listed => ?_,
    fun m thread i entry bytes listed => ?_, fun m spa sha listed => ?_⟩
  · rw [List.filterMap_append]
    by_cases here : m = n
    · subst here
      exact effect.udp.run (sound.udp m)
    · rw [same m here, (effect.others m here).2.1, List.append_nil]
      exact sound.udp m
  · rw [List.filterMap_append]
    by_cases here : m = n
    · subst here
      exact effect.arp.run (sound.arp m)
    · rw [same m here, (effect.others m here).2.2, List.append_nil]
      exact sound.arp m
  · rcases effect.wire frame listed with old | sent | sent | ⟨i, src, dst, text, output, sent⟩
    · exact (sound.wire frame old).later
    · exact Or.inl ⟨n, sent⟩
    · exact Or.inr (Or.inl ⟨n, sent⟩)
    · exact Or.inr (Or.inr ⟨n, i, src, dst, text, List.mem_append_right trace output, sent⟩)
  · by_cases here : m = n
    · subst here
      rcases effect.ipQueue packet listed with old | ⟨frame, sent, passed⟩
      · exact (sound.ipQueue m packet old).imp fun frame known => ⟨known.1.later, known.2⟩
      · exact ⟨frame, (sound.wire frame sent).later, passed⟩
    · rw [same m here] at listed
      exact (sound.ipQueue m packet listed).imp fun frame known => ⟨known.1.later, known.2⟩
  · by_cases here : m = n
    · subst here
      rcases effect.arpQueue packet listed with old | ⟨frame, sent, passed⟩
      · exact (sound.arpQueue m packet old).imp fun frame known => ⟨known.1.later, known.2⟩
      · exact ⟨frame, (sound.wire frame sent).later, passed⟩
    · rw [same m here] at listed
      exact (sound.arpQueue m packet listed).imp fun frame known => ⟨known.1.later, known.2⟩
  · by_cases here : m = n
    · subst here
      rcases fills i entry listed with old | new
      · exact (sound.queue m i entry old).later
      · obtain ⟨packet, held, dst, arrived⟩ := effect.queued i entry (mem_udpOf.mp new)
        obtain ⟨frame, origin, passed⟩ := sound.ipQueue m packet held
        exact (origin.sentTo passed arrived).later
    · rw [same m here] at listed
      exact (sound.queue m i entry listed).later
  · rcases List.mem_append.mp listed with old | new
    · exact ⟨(sound.received m thread i entry bytes old).1, (sound.received m thread i entry bytes old).2.later⟩
    · have told := mem_udpOf.mpr new
      by_cases here : m = n
      · subst here
        obtain ⟨held, first⟩ := takes thread i entry bytes told
        exact ⟨first, (sound.queue m i entry held).later⟩
      · rw [(effect.others m here).2.1] at told
        exact absurd told List.not_mem_nil
  · rcases List.mem_append.mp listed with old | new
    · exact sound.heard m spa sha old
    · by_cases here : m = n
      · subst here
        obtain ⟨packet, held, internet, hardware⟩ := effect.heard spa sha new
        obtain ⟨frame, origin, passed⟩ := sound.arpQueue m packet held
        exact origin.heard passed internet hardware
      · have told := mem_arpOf.mpr new
        rw [(effect.others m here).2.2] at told
        exact absurd told List.not_mem_nil

theorem network_sound (reached : Reaches (netStep stations) (fun _ _ _ => True) NetInitial w trace) : Sound stations w trace := by
  apply reached.invariant (Sound stations)
  · exact fun w initial => Sound.start initial
  · intro w trace action after events sound _ stepped
    obtain ⟨n, effect⟩ := netStep_effect stepped
    exact sound.step effect

/-- In every run of a network each host makes a run of its own sockets, and what a call receives is the beginning of a text that a socket of
the network sent, from the end that the call is told, to an address of the host. -/
theorem udp_network (reached : Reaches (netStep stations) (fun _ _ _ => True) NetInitial w trace) (n : Nat) :
    Reaches Udp.step (fun _ _ _ => True) (· = Udp.initial) (w.node n).udp (trace.filterMap (udpOf n)) ∧
      ∀ thread i entry bytes, .udp n (.received thread i entry bytes) ∈ trace →
        bytes <+: entry.data ∧ SentTo stations n trace entry.foreignEnd entry.data :=
  ⟨(network_sound reached).udp n, (network_sound reached).received n⟩

/-- A network of hosts with neighbouring addresses. -/
def neighbours (n : Nat) : Station := hostOf (BitVec.ofNat 8 (15 + n))

/-- Hosts that were just started. -/
def quietNetwork : Network where
  node _ := { stack := { caches := fun _ => ArpCache.zero, id := 128 }, udp := Udp.initial, ipQueue := [], arpQueue := [] }
  wire := []

theorem quietNetwork_initial : NetInitial quietNetwork := ⟨rfl, fun _ => ⟨rfl, rfl, rfl, rfl⟩⟩

def serviceEnd : Endpoint := ⟨(neighbours 1).iface.unicast, hton16 9⟩

/-- A host asks for the address of its neighbour, is told it, and sends a datagram that a call receives. -/
def helloRun : List NetAction :=
  [.call 1 .opens, .call 1 (.bind 0 ⟨Net.ipAddrAny, hton16 9⟩), .call 0 .opens, .sendto 0 0 [1] serviceEnd ⟨1, 0⟩, .receive 1 0 true,
    .arpPop 1 ⟨1, 0⟩, .receive 0 1 true, .arpPop 0 ⟨1, 0⟩, .sendto 0 0 [65, 66] serviceEnd ⟨2, 0⟩, .receive 1 2 true, .ipPop 1 true true,
    .call 1 (.recvfrom 7 0 1)]

def helloEnd : Endpoint := ⟨(neighbours 0).iface.unicast, hton16 49152⟩

theorem helloRun_reached : ∃ w trace, Reaches (netStep neighbours) (fun _ _ _ => True) NetInitial w trace ∧
    .udp 1 (.received 7 0 ⟨helloEnd, [65, 66]⟩ [65]) ∈ trace ∧ .arp 0 (.resolved serviceEnd.addr (.found (neighbours 1).dev.addr)) ∈ trace := by
  obtain ⟨w, trace, reached, test⟩ := replay_witness (netStep neighbours) (fun _ _ _ => True) NetInitial helloRun quietNetwork
    quietNetwork_initial (fun _ trace => decide (NetEvent.udp 1 (.received 7 0 ⟨helloEnd, [65, 66]⟩ [65]) ∈ trace) &&
      decide (NetEvent.arp 0 (.resolved serviceEnd.addr (.found (neighbours 1).dev.addr)) ∈ trace)) (by decide +kernel)
  simp only [Bool.and_eq_true, decide_eq_true_eq] at test
  exact ⟨w, trace, reached, test⟩

theorem udp_network_run : ∃ w trace, Reaches (netStep neighbours) (fun _ _ _ => True) NetInitial w trace ∧
    .udp 1 (.received 7 0 ⟨helloEnd, [65, 66]⟩ [65]) ∈ trace ∧ SentTo neighbours 1 trace helloEnd [65, 66] := by
  obtain ⟨w, trace, reached, received, -⟩ := helloRun_reached
  exact ⟨w, trace, reached, received, ((udp_network reached 1).2 7 0 ⟨helloEnd, [65, 66]⟩ [65] received).2⟩

/-- In every run of a network an address that `arp_resolve` finds is that of a host with the address asked for. -/
theorem arp_network (reached : Reaches (netStep stations) (fun _ _ _ => True) NetInitial w trace) {pa : IpAddr} {ha : HwAddr}
    (found : .arp n (.resolved pa (.found ha)) ∈ trace) : ∃ m, (stations m).iface.unicast = pa ∧ (stations m).dev.addr = ha := by
  have sound := network_sound reached
  obtain ⟨before, later, whole⟩ := List.append_of_mem (mem_arpOf.mpr found)
  have told := (arp_cache_consistent (sound.arp n)).2 before later pa ha whole
  obtain ⟨event, listed, same⟩ := List.mem_filterMap.mp (latest_mem told)
  cases event with
  | heard spa sha =>
      cases same
      have earlier : .heard pa ha ∈ trace.filterMap (arpOf n) := whole ▸ List.mem_append_left _ listed
      exact sound.heard n pa ha (mem_arpOf.mp earlier)
  | output | resolved => cases same

theorem arp_network_run : ∃ w trace ha, Reaches (netStep neighbours) (fun _ _ _ => True) NetInitial w trace ∧
    .arp 0 (.resolved serviceEnd.addr (.found ha)) ∈ trace ∧ ∃ m, (neighbours m).iface.unicast = serviceEnd.addr ∧ (neighbours m).dev.addr = ha := by
  obtain ⟨w, trace, reached, -, found⟩ := helloRun_reached
  exact ⟨w, trace, _, reached, found, arp_network reached found⟩

end BtbuOs.Wire
