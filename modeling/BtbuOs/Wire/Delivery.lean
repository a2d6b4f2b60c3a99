import BtbuOs.Wire.Sending

namespace BtbuOs.Wire

open Bytes Net
open Tcp (Endpoint Seq Flags ipAddrBroadcast)

variable {sender receiver : Station} {stack : Stack} {ha : HwAddr}

/-- The receiver gets the frames for an address. -/
def Gets (st : Station) (ha : HwAddr) : Prop := ha = st.dev.addr ∨ ha = etherAddrBroadcast

instance (st : Station) (ha : HwAddr) : Decidable (Gets st ha) := inferInstanceAs (Decidable (_ ∨ _))

/-- A packet passes from the output of one host to the handler of another. -/
theorem packet_carried {src dst : IpAddr} {len : BitVec 32} (protocol : Byte) (data : Memory) (now : Timeval)
    (ready : Ready sender stack.caches src dst ha) (fits : len.toNat ≤ ipPayloadSizeMax) (gets : Gets receiver ha)
    (addressed : Addressed receiver.iface dst) :
    ∃ frame packet, (ipOutput sender stack protocol data len src dst now).2.2 = [frame] ∧
      etherInputHelper receiver.dev.addr frame = some (netProtocolTypeIp, packet) ∧
      PacketAt packet.bytes (BitVec.ofNat 32 packet.len) protocol src dst data len ∧
      ipHandled receiver.host packet.bytes (BitVec.ofNat 32 packet.len) =
        ((receiver.host.protocols.find? fun entry => entry.1 = protocol).map Prod.snd).map fun handler => (handler, ⟨ipHdrSizeMin, len⟩) := by
  obtain ⟨frame, single, sent⟩ := ipOutput_ready protocol data now ready fits
  obtain ⟨packet, passed⟩ : ∃ packet, etherInputHelper receiver.dev.addr frame = some (netProtocolTypeIp, packet) := by
    obtain ⟨id, whole, -, framed⟩ := sent
    exact ⟨payload frame, framed.received gets⟩
  have here := (sent.received passed).2
  rw [← ready.source] at here
  refine ⟨frame, packet, single, passed, here, ?_⟩
  rw [here.handled rfl, if_pos addressed]

/-- A host of the network 10.0.2.0 whose gateway is 10.0.2.2. -/
def hostOf (last : Byte) : Station where
  dev := etherSetupHelper #v[0x52, 0x54, 0, 0, 0, last]
  iface := ⟨some 0, 0x0002000a ||| last.setWidth 32 <<< 24, 0x00ffffff, 0xff02000a⟩
  routes := [⟨0, 0, 0x0202000a, 0⟩, ⟨0x0002000a, 0x00ffffff, 0, 0⟩]

/-- A cache with the address of one such host. -/
def knows (last : Byte) : Stack where
  caches i := if i = 0 then { state := .resolved, pa := (hostOf last).iface.unicast, ha := (hostOf last).dev.addr, timestamp := ⟨0, 0⟩ } else ArpCache.zero
  id := 128

theorem hostOf_ready : Ready (hostOf 15) (knows 16).caches (hostOf 15).iface.unicast (hostOf 16).iface.unicast (hostOf 16).dev.addr where
  device := rfl
  source := rfl
  known := Or.inl (by decide)
  route := by
    refine ⟨⟨0x0002000a, 0x00ffffff, 0, 0⟩, by decide, ?_⟩
    rw [Resolves, if_neg (by decide)]
    exact ⟨0, by decide, by decide, rfl⟩

theorem hostOf_back : Ready (hostOf 16) (knows 15).caches (hostOf 16).iface.unicast (hostOf 15).iface.unicast (hostOf 15).dev.addr where
  device := rfl
  source := rfl
  known := Or.inl (by decide)
  route := by
    refine ⟨⟨0x0002000a, 0x00ffffff, 0, 0⟩, by decide, ?_⟩
    rw [Resolves, if_neg (by decide)]
    exact ⟨0, by decide, by decide, rfl⟩

end BtbuOs.Wire
