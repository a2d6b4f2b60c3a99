import BtbuOs.Wire.Datagram

namespace BtbuOs.Wire

open Bytes Net
open Tcp (Endpoint Seq Flags ipAddrBroadcast)

variable {st sender receiver : Station} {caches : Caches} {stack : Stack} {protocol : Byte} {data text : Memory} {len : BitVec 32} {src dst : IpAddr}
  {now : Timeval} {frame packet : Frame} {addr : HwAddr}

/-- The frame has a message of `arp.c` with the addresses of the station as its sender. -/
def ArpSent (st : Station) (frame : Frame) : Prop :=
  ∃ message ha, message.sha = st.dev.addr ∧ message.spa = st.iface.unicast ∧
    Framed st.dev.addr etherTypeArp (arpBytes message) (BitVec.ofNat 32 arpEtherIpSize) ha frame

/-- The frame has a packet of the station. -/
def IpSent (st : Station) (protocol : Byte) (data : Memory) (len : BitVec 32) (dst : IpAddr) (ha : HwAddr) (frame : Frame) : Prop :=
  ∃ id packet, ipMessage (fun _ => 0) protocol data len st.iface.unicast dst id 0 = some packet ∧
    Framed st.dev.addr netProtocolTypeIp packet.bytes (packet.total.setWidth 32) ha frame

/-- The messages of `arp_resolve` are for its device and its interface. -/
theorem arpResolve_sent (member : ArpEvent.output type message ha ∈ (arpResolve caches st.arpIface dst now).2) :
    type = etherTypeArp ∧ message.sha = st.dev.addr ∧ message.spa = st.iface.unicast := by
  have request (pa : IpAddr) (result : ArpResolve)
      (listed : ArpEvent.output type message ha ∈ [arpRequest st.arpDevice st.iface.unicast pa, .resolved pa result]) :
      type = etherTypeArp ∧ message.sha = st.dev.addr ∧ message.spa = st.iface.unicast := by
    simp only [arpRequest, List.mem_cons, ArpEvent.output.injEq, reduceCtorEq, List.not_mem_nil, or_false] at listed
    obtain ⟨rfl, rfl, -⟩ := listed
    exact ⟨rfl, rfl, rfl⟩
  unfold arpResolve at member
  rw [if_neg (by exact fun other => other rfl), if_neg (by exact Bool.false_ne_true)] at member
  cases found : arpCacheSelect caches dst with
  | none =>
      cases allocated : arpCacheAlloc caches with
      | none => simp [found, allocated] at member
      | some entry =>
          simp only [found, allocated] at member
          exact request dst _ member
  | some i =>
      simp only [found] at member
      split_ifs at member
      · exact request dst _ member
      · simp at member

/-- A frame for a message of the station is one that it sent. -/
theorem arpFrame_sent {event : ArpEvent} (sent : ∀ type message ha, event = .output type message ha →
    type = etherTypeArp ∧ message.sha = st.dev.addr ∧ message.spa = st.iface.unicast)
    (made : arpFrame st.dev event = some frame) : ArpSent st frame := by
  cases event with
  | output type message ha =>
      obtain ⟨rfl, hardware, internet⟩ := sent type message ha rfl
      exact ⟨message, ha, hardware, internet, netDeviceOutput_framed made⟩
  | heard | resolved => cases made

/-- A message of `arp.c` can be read behind the header of its frame. -/
theorem arpBytes_sender {message : ArpEtherIp} (copied : ∀ k, k < arpEtherIpSize → data k = arpBytes message k) :
    (readArp data).sha = message.sha ∧ (readArp data).spa = message.spa := by
  have size : arpEtherIpSize = 28 := rfl
  have long : etherAddrLen = 6 := rfl
  constructor
  · apply readHw_eq
    intro k inside
    rw [copied (8 + k) (by omega), arpBytes, store_outside _ _ (by omega), splice_outside _ _ (by omega), store_outside _ _ (by omega),
      splice_inside _ _ (by omega) (by omega), Nat.add_sub_cancel_left]
  · change load32 data 14 = message.spa
    rw [load32_shift fun k below => copied (14 + k) (by omega), arpBytes, load32_of_disjoint _ _ (by omega), load32_splice _ _ (by omega),
      load32_store]

/-- The senders that a host reads are those that were sent. -/
theorem ArpSent.received (sent : ArpSent st frame) (passed : etherInputHelper addr frame = some (type, packet)) :
    type = etherTypeArp ∧ (readArp packet.bytes).sha = st.dev.addr ∧ (readArp packet.bytes).spa = st.iface.unicast := by
  obtain ⟨message, ha, hardware, internet, framed⟩ := sent
  obtain ⟨rfl, rfl⟩ := etherInputHelper_some passed
  obtain ⟨first, second⟩ : (readArp (payload frame).bytes).sha = message.sha ∧ (readArp (payload frame).bytes).spa = message.spa :=
    arpBytes_sender framed.bytes
  exact ⟨framed.type, first.trans hardware, second.trans internet⟩

/-- Behind the header of its frame the packet is whole. -/
theorem IpSent.received {ha : HwAddr} (sent : IpSent st protocol data len dst ha frame) (passed : etherInputHelper addr frame = some (type, packet)) :
    type = netProtocolTypeIp ∧ PacketAt packet.bytes (BitVec.ofNat 32 packet.len) protocol st.iface.unicast dst data len := by
  obtain ⟨id, whole, built, framed⟩ := sent
  obtain ⟨rfl, rfl⟩ := etherInputHelper_some passed
  have sizes : etherHdrSize = 14 ∧ etherFrameSizeMin = 60 ∧ etherPayloadSizeMax = 1500 := ⟨rfl, rfl, rfl⟩
  have count : (whole.total.setWidth 32).toNat = whole.total.toNat := BitVec.toNat_setWidth_of_le (by decide)
  have fits := framed.fits
  have room : (BitVec.ofNat 32 (payload frame).len).toNat = frame.len - etherHdrSize := by
    have size := framed.size
    exact Nat.mod_eq_of_lt (by change frame.len - etherHdrSize < 2 ^ 32; omega)
  refine ⟨framed.type, ipMessage_packetAt built (fun k below => framed.bytes k (by rw [count]; exact below)) ?_⟩
  rw [room, framed.size]
  omega

section Output

/-- `ip_output_device` sends the packet, or asks for the address of the next hop. -/
theorem ipOutputDevice_frames {whole : Message} (member : frame ∈ (ipOutputDevice st caches whole dst now).2.2) :
    ArpSent st frame ∨ ∃ ha, Framed st.dev.addr netProtocolTypeIp whole.bytes (whole.total.setWidth 32) ha frame := by
  have single {ha : HwAddr} (listed : frame ∈ (netDeviceOutput st.dev netProtocolTypeIp whole.bytes (whole.total.setWidth 32) ha).toList) :
      ∃ ha, Framed st.dev.addr netProtocolTypeIp whole.bytes (whole.total.setWidth 32) ha frame :=
    ⟨ha, netDeviceOutput_framed (Option.mem_toList.mp listed)⟩
  unfold ipOutputDevice at member
  split_ifs at member
  · exact Or.inr (single member)
  · rcases List.mem_append.mp member with asked | sent
    · obtain ⟨event, listed, made⟩ := List.mem_filterMap.mp asked
      refine Or.inl (arpFrame_sent (fun type message ha same => ?_) made)
      rw [same] at listed
      exact arpResolve_sent listed
    · obtain ⟨ha, -, made⟩ := Option.bind_eq_some_iff.mp (Option.mem_toList.mp sent)
      exact Or.inr ⟨ha, netDeviceOutput_framed made⟩
  · exact Or.inr (single member)

/-- `ip_output` sends only for the address of its interface. -/
theorem ipNexthop_source {hop : IpAddr} (chosen : ipNexthop st len src dst = some hop) : src = Net.ipAddrAny ∨ src = st.iface.unicast := by
  unfold ipNexthop at chosen
  by_contra other
  have refused : src ≠ Net.ipAddrAny ∧ src ≠ st.iface.unicast := not_or.mp other
  rw [if_neg fun both => refused.1 both.1] at chosen
  cases found : ipRouteLookup st.routes dst with
  | none =>
      rw [found] at chosen
      cases chosen
  | some route =>
      rw [found] at chosen
      dsimp only at chosen
      rw [if_pos refused] at chosen
      cases chosen

theorem ipOutput_frames (member : frame ∈ (ipOutput st stack protocol data len src dst now).2.2) :
    ArpSent st frame ∨ (src = Net.ipAddrAny ∨ src = st.iface.unicast) ∧ ∃ ha, IpSent st protocol data len dst ha frame := by
  unfold ipOutput at member
  cases chosen : ipNexthop st len src dst with
  | none =>
      rw [chosen] at member
      exact absurd member List.not_mem_nil
  | some hop =>
      rw [chosen] at member
      dsimp only at member
      cases built : ipMessage (fun _ => 0) protocol data len st.iface.unicast dst stack.id 0 with
      | none =>
          rw [built] at member
          exact absurd member List.not_mem_nil
      | some whole =>
          rw [built] at member
          rcases ipOutputDevice_frames member with asked | ⟨ha, framed⟩
          · exact Or.inl asked
          · exact Or.inr ⟨ipNexthop_source chosen, ha, stack.id, whole, built, framed⟩

end Output

section Ready

variable {ha : HwAddr}

/-- The station knows the address to which frames for a next hop go. -/
def Resolves (st : Station) (caches : Caches) (hop : IpAddr) (ha : HwAddr) : Prop :=
  if hop = st.iface.broadcast ∨ hop = ipAddrBroadcast then ha = st.dev.broadcast
  else ∃ i, arpCacheSelect caches hop = some i ∧ (caches i).state ≠ .incomplete ∧ (caches i).ha = ha

/-- The station can send packets to an address: its device is open, the source is its own, and there is a route with a known next hop. -/
structure Ready (st : Station) (caches : Caches) (src dst : IpAddr) (ha : HwAddr) : Prop where
  device : st.dev = etherSetupHelper st.dev.addr
  source : src = st.iface.unicast
  known : src ≠ Net.ipAddrAny ∨ dst ≠ ipAddrBroadcast
  route : ∃ route, ipRouteLookup st.routes dst = some route ∧
    Resolves st caches (if route.nexthop ≠ Net.ipAddrAny then route.nexthop else dst) ha

theorem arpResolve_known {i : Fin arpCacheSize} {hop : IpAddr} (found : arpCacheSelect caches hop = some i) (complete : (caches i).state ≠ .incomplete) :
    arpResolve caches st.arpIface hop now = (caches, [.resolved hop (.found (caches i).ha)]) := by
  rw [arpResolve, if_neg (by exact fun other => other rfl), if_neg (by exact Bool.false_ne_true), found]
  dsimp only
  rw [if_neg complete]

/-- A packet for a known next hop is sent in one frame. -/
theorem ipOutput_ready (protocol : Byte) (data : Memory) (now : Timeval) (ready : Ready st stack.caches src dst ha) (fits : len.toNat ≤ ipPayloadSizeMax) :
    ∃ frame, (ipOutput st stack protocol data len src dst now).2.2 = [frame] ∧ IpSent st protocol data len dst ha frame := by
  obtain ⟨route, found, resolves⟩ := ready.route
  have sizes : ipPayloadSizeMax = 1480 ∧ ipTotalSizeMax = 1500 ∧ ipHdrSizeMin = 20 ∧ etherPayloadSizeMax = 1500 := ⟨rfl, rfl, rfl, rfl⟩
  obtain ⟨hop, next⟩ : ∃ hop, hop = if route.nexthop ≠ Net.ipAddrAny then route.nexthop else dst := ⟨_, rfl⟩
  rw [← next] at resolves
  have mtu : st.dev.mtu = 1500 := congrArg NetDevice.mtu ready.device
  have up : st.dev.up = true := congrArg NetDevice.up ready.device
  have needArp : st.dev.needArp = true := congrArg NetDevice.needArp ready.device
  have chosen : ipNexthop st len src dst = some hop := by
    have room : ¬st.dev.mtu.setWidth 32 < BitVec.ofNat 32 ipHdrSizeMin + len := by
      rw [mtu, BitVec.lt_def, BitVec.toNat_add, show (BitVec.ofNat 32 ipHdrSizeMin).toNat = 20 from rfl,
        show ((1500 : BitVec 16).setWidth 32).toNat = 1500 from rfl]
      omega
    rw [ipNexthop, if_neg (fun both => ready.known.elim (fun some => some both.1) fun other => other both.2), found]
    dsimp only
    rw [if_neg (fun both => both.2 ready.source), if_neg room, next]
  obtain ⟨whole, built⟩ : ∃ whole, ipMessage (fun _ => 0) protocol data len st.iface.unicast dst stack.id 0 = some whole := by
    rw [ipMessage, if_neg (by omega)]
    exact ⟨_, rfl⟩
  have total := ipMessage_total built
  have count : (whole.total.setWidth 32).toNat = whole.total.toNat := BitVec.toNat_setWidth_of_le (by decide)
  obtain ⟨frame, made⟩ : ∃ frame, netDeviceOutput st.dev netProtocolTypeIp whole.bytes (whole.total.setWidth 32) ha = some frame := by
    have room : ¬st.dev.mtu.setWidth 32 < whole.total.setWidth 32 := by
      rw [mtu, BitVec.lt_def, count, show ((1500 : BitVec 16).setWidth 32).toNat = 1500 from rfl]
      omega
    rw [netDeviceOutput, if_neg (by rw [up]; exact Bool.false_ne_true), if_neg room, etherTransmitHelper, if_neg (by omega)]
    exact ⟨_, rfl⟩
  refine ⟨frame, ?_, stack.id, whole, built, netDeviceOutput_framed made⟩
  rw [ipOutput, chosen]
  dsimp only
  rw [built]
  dsimp only
  unfold ipOutputDevice
  unfold Resolves at resolves
  rw [if_pos needArp]
  split_ifs at resolves ⊢
  · dsimp only
    rw [← resolves, made]
    rfl
  · obtain ⟨i, cached, complete, same⟩ := resolves
    rw [arpResolve_known cached complete, same]
    simp [arpFrame, arpFound, made]

end Ready

end BtbuOs.Wire
