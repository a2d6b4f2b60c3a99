import BtbuOs.Net.IpText
import BtbuOs.Wire.Frame

namespace BtbuOs.Wire

open Bytes Net
open Tcp (Endpoint ipAddrBroadcast)

section Words

variable {mem other : Memory} {start place : Nat}

theorem load16_store (mem : Memory) (start : Nat) (v : BitVec 16) : load16 (store mem start 2 v.toNat) start = v := by
  have exact : v.toNat % 256 ^ 2 = v.toNat := Nat.mod_eq_of_lt v.isLt
  rw [load16, load_store, exact, BitVec.ofNat_toNat, BitVec.setWidth_eq]

theorem load32_store (mem : Memory) (start : Nat) (v : BitVec 32) : load32 (store mem start 4 v.toNat) start = v := by
  have exact : v.toNat % 256 ^ 4 = v.toNat := Nat.mod_eq_of_lt v.isLt
  rw [load32, load_store, exact, BitVec.ofNat_toNat, BitVec.setWidth_eq]

theorem load16_shift (same : ∀ k, k < 2 → mem (start + k) = other (place + k)) : load16 mem start = load16 other place := by
  rw [load16, load16, load_shift same]

theorem load32_shift (same : ∀ k, k < 4 → mem (start + k) = other (place + k)) : load32 mem start = load32 other place := by
  rw [load32, load32, load_shift same]

/-- A field can be read from a copy of the bytes around it. -/
theorem load16_copied {total : Nat} (copied : ∀ k, k < total → other (start + k) = mem k) (place : Nat) (inside : place + 2 ≤ total) :
    load16 other (start + place) = load16 mem place := by
  apply load16_shift
  intro k below
  rw [Nat.add_assoc]
  exact copied (place + k) (by omega)

theorem load32_copied {total : Nat} (copied : ∀ k, k < total → other (start + k) = mem k) (place : Nat) (inside : place + 4 ≤ total) :
    load32 other (start + place) = load32 mem place := by
  apply load32_shift
  intro k below
  rw [Nat.add_assoc]
  exact copied (place + k) (by omega)

theorem load16_of_disjoint (mem : Memory) {size : Nat} (value : Nat) (apart : place + 2 ≤ start ∨ start + size ≤ place) :
    load16 (store mem start size value) place = load16 mem place := by
  rw [load16, load16, load_store_of_disjoint mem value apart]

theorem load32_of_disjoint (mem : Memory) {size : Nat} (value : Nat) (apart : place + 4 ≤ start ∨ start + size ≤ place) :
    load32 (store mem start size value) place = load32 mem place := by
  rw [load32, load32, load_store_of_disjoint mem value apart]

theorem load16_splice (mem data : Memory) {size : Nat} (apart : place + 2 ≤ start ∨ start + size ≤ place) :
    load16 (splice mem start size data) place = load16 mem place := by
  rw [load16, load16, load_splice_of_disjoint mem data apart]

theorem load32_splice (mem data : Memory) {size : Nat} (apart : place + 4 ≤ start ∨ start + size ≤ place) :
    load32 (splice mem start size data) place = load32 mem place := by
  rw [load32, load32, load_splice_of_disjoint mem data apart]

theorem store_outside (mem : Memory) {size k : Nat} (value : Nat) (outside : k < start ∨ start + size ≤ k) :
    store mem start size value k = mem k :=
  if_neg (by omega)

theorem store_byte (mem : Memory) (place : Nat) (b : Byte) : store mem place 1 b.toNat place = b := by
  simp [store]

theorem hwMemory_inside (ha : HwAddr) {k : Nat} (inside : k < etherAddrLen) : hwMemory ha k = ha[k] := by
  rw [hwMemory, List.getD_eq_getElem?_getD, List.getElem?_eq_getElem (by rw [Vector.length_toList]; exact inside)]
  simp

/-- An address can be read where its bytes are. -/
theorem readHw_eq {ha : HwAddr} (same : ∀ k, k < etherAddrLen → mem (start + k) = hwMemory ha k) : readHw mem start = ha := by
  ext k inside
  rw [readHw, Vector.getElem_ofFn, same k inside, hwMemory_inside ha inside]

theorem ntoh16_hton16 (v : BitVec 16) : ntoh16 (hton16 v) = v := byteswap16_byteswap16 v

theorem slice_eq (text : List Byte) {start : Nat} (same : ∀ k, k < text.length → mem (start + k) = text.getD k 0) :
    slice mem start text.length = text := by
  apply List.ext_getElem
  · rw [length_slice]
  · intro k inside bound
    simp only [slice, List.getElem_map, List.getElem_range]
    rw [same k bound, List.getD_eq_getElem?_getD, List.getElem?_eq_getElem bound, Option.getD_some]

end Words

section Ether

variable {dev : NetDevice} {type : BitVec 16} {data : Memory} {len : BitVec 32} {dst addr : HwAddr} {frame : Frame}

/-- A frame with its addresses, its type and its payload, and zeros up to the smallest size. -/
structure Framed (src : HwAddr) (type : BitVec 16) (data : Memory) (len : BitVec 32) (dst : HwAddr) (frame : Frame) : Prop where
  size : frame.len = max etherFrameSizeMin (etherHdrSize + len.toNat)
  fits : len.toNat ≤ etherPayloadSizeMax
  dst : readHw frame.bytes 0 = dst
  src : readHw frame.bytes etherAddrLen = src
  type : ntoh16 (load16 frame.bytes (2 * etherAddrLen)) = type
  bytes : ∀ k, k < len.toNat → frame.bytes (etherHdrSize + k) = data k
  padding : ∀ k, etherHdrSize + len.toNat ≤ k → frame.bytes k = 0

theorem etherTransmitHelper_framed (made : etherTransmitHelper dev type data len dst = some frame) : Framed dev.addr type data len dst frame := by
  have sizes : etherHdrSize = 14 ∧ etherAddrLen = 6 ∧ etherPayloadSizeMin = 46 ∧ etherFrameSizeMin = 60 := ⟨rfl, rfl, rfl, rfl⟩
  unfold etherTransmitHelper at made
  have short : ¬etherPayloadSizeMax < len.toNat := by
    intro long
    rw [if_pos long] at made
    cases made
  rw [if_neg short] at made
  obtain rfl := Option.some.inj made
  constructor
  · dsimp only
    split_ifs <;> omega
  · exact Nat.not_lt.mp short
  · apply readHw_eq
    intro k inside
    dsimp only
    rw [splice_outside _ _ (by omega), store_outside _ _ (by omega), splice_outside _ _ (by omega), splice_inside _ _ (by omega) (by omega),
      Nat.zero_add, Nat.sub_zero]
  · apply readHw_eq
    intro k inside
    dsimp only
    rw [splice_outside _ _ (by omega), store_outside _ _ (by omega), splice_inside _ _ (by omega) (by omega), Nat.add_sub_cancel_left]
  · dsimp only
    rw [load16_splice _ _ (by omega), load16_store, ntoh16_hton16]
  · intro k inside
    dsimp only
    rw [splice_inside _ _ (by omega) (by omega), Nat.add_sub_cancel_left]
  · intro k behind
    dsimp only
    rw [splice_outside _ _ (by omega), store_outside _ _ (by omega), splice_outside _ _ (by omega), splice_outside _ _ (by omega)]

theorem netDeviceOutput_framed (made : netDeviceOutput dev type data len dst = some frame) : Framed dev.addr type data len dst frame := by
  unfold netDeviceOutput at made
  split_ifs at made
  exact etherTransmitHelper_framed made

/-- The payload of a frame as `net_input_handler` gets it. -/
def payload (frame : Frame) : Frame := ⟨fun k => frame.bytes (etherHdrSize + k), frame.len - etherHdrSize⟩

/-- The device that a frame is for passes its payload on. -/
theorem Framed.received {src : HwAddr} (framed : Framed src type data len dst frame) (mine : dst = addr ∨ dst = etherAddrBroadcast) :
    etherInputHelper addr frame = some (type, payload frame) := by
  have sizes : etherHdrSize = 14 ∧ etherFrameSizeMin = 60 := ⟨rfl, rfl⟩
  have size := framed.size
  have long : ¬frame.len < etherHdrSize := by omega
  have here : ¬(addr ≠ readHw frame.bytes 0 ∧ etherAddrBroadcast ≠ readHw frame.bytes 0) := by
    rw [framed.dst]
    rintro ⟨first, second⟩
    exact mine.elim (fun same => first same.symm) (fun same => second same.symm)
  rw [etherInputHelper, if_neg long, if_neg here, framed.type]
  rfl

/-- What passes `ether_input_helper` has the type and the payload of the frame. -/
theorem etherInputHelper_some {packet : Frame} (passed : etherInputHelper addr frame = some (type, packet)) :
    ntoh16 (load16 frame.bytes (2 * etherAddrLen)) = type ∧ packet = payload frame := by
  unfold etherInputHelper at passed
  split_ifs at passed
  obtain ⟨rfl, rfl⟩ := Prod.mk.inj (Option.some.inj passed)
  exact ⟨rfl, rfl⟩

end Ether

section Ip

variable {buf text data : Memory} {protocol : Byte} {len flen : BitVec 32} {src dst : IpAddr} {id : BitVec 16} {packet : Message}
  {host : Host} {handler : Handler} {s : Slice 32}

/-- Data begins with a packet that is whole. -/
structure PacketAt (data : Memory) (flen : BitVec 32) (protocol : Byte) (src dst : IpAddr) (text : Memory) (len : BitVec 32) : Prop where
  lengths : ipLengths data flen = true
  sum : cksum16 data 0 (ipHlen data) 0 = 0
  unfragmented : ntoh16 (load16 data 6) = 0
  protocol : data 9 = protocol
  src : load32 data 12 = src
  dst : load32 data 16 = dst
  payload : ipPayload data = ⟨ipHdrSizeMin, len⟩
  bytes : ∀ k, k < len.toNat → data (ipHdrSizeMin + k) = text k

theorem ipMessage_total (built : ipMessage buf protocol text len src dst id 0 = some packet) :
    packet.total.toNat = ipHdrSizeMin + len.toNat := by
  unfold ipMessage at built
  split_ifs at built with long
  obtain rfl := Option.some.inj built
  exact total_toNat (Nat.not_lt.mp long)

/-- A packet is whole wherever its bytes are, also with bytes behind it. -/
theorem ipMessage_packetAt (built : ipMessage buf protocol text len src dst id 0 = some packet)
    (copied : ∀ k, k < packet.total.toNat → data k = packet.bytes k) (long : packet.total.toNat ≤ flen.toNat) :
    PacketAt data flen protocol src dst text len := by
  have total := ipMessage_total built
  have sizes : ipHdrSizeMin = 20 ∧ ipTotalSizeMax = 1500 := ⟨rfl, rfl⟩
  have arrives : packet.Arrives data ⟨0, packet.total.setWidth 32⟩ := by
    refine ⟨rfl, fun k below => ?_⟩
    rw [Nat.zero_add]
    exact copied k below
  have accepted := ip_accepted built arrives rfl
  clear arrives
  unfold ipMessage at built
  split_ifs at built with short
  obtain rfl := Option.some.inj built
  dsimp only at total copied long accepted
  have first : data 0 = 0x45 := by
    rw [copied 0 (by omega), splice_outside _ _ (by omega)]
    rfl
  have hlen : ipHlen data = BitVec.ofNat 16 ipHdrSizeMin := by
    rw [ipHlen, first]
    rfl
  have count : ipTotal data = BitVec.ofNat 16 (ipHdrSizeMin + len.toNat) := by
    have field : load16 data 2 = hton16 (BitVec.ofNat 16 (ipHdrSizeMin + len.toNat)) := by
      rw [load16_shift fun k below => copied (2 + k) (by omega), load16_splice _ _ (by omega), load16_of_disjoint _ _ (by omega),
        load16_of_disjoint _ _ (by omega), load16_of_disjoint _ _ (by omega), load16_of_disjoint _ _ (by omega), load16_of_disjoint _ _ (by omega),
        load16_of_disjoint _ _ (by omega), load16_of_disjoint _ _ (by omega), load16_of_disjoint _ _ (by omega), load16_store]
    rw [ipTotal, field, ntoh16_hton16]
  have wide : ((BitVec.ofNat 16 (ipHdrSizeMin + len.toNat)).setWidth 32).toNat = ipHdrSizeMin + len.toNat := by
    rw [BitVec.toNat_setWidth_of_le (by decide), total]
  have place : ipPayload data = ⟨ipHdrSizeMin, len⟩ := by
    have back : (BitVec.ofNat 16 (ipHdrSizeMin + len.toNat)).setWidth 32 - (BitVec.ofNat 16 ipHdrSizeMin).setWidth 32 = len := by
      apply BitVec.eq_of_toNat_eq
      have head : ((BitVec.ofNat 16 ipHdrSizeMin).setWidth 32).toNat = ipHdrSizeMin := rfl
      rw [BitVec.toNat_sub_of_le (by rw [BitVec.le_def, wide, head]; omega), wide, head]
      omega
    rw [ipPayload, hlen, count, back]
    rfl
  refine ⟨?_, accepted, ?_, ?_, ?_, ?_, place, fun k below => ?_⟩
  · have header : ¬flen < 20 := by
      rw [BitVec.lt_def, show (20 : BitVec 32).toNat = 20 from rfl]
      omega
    have room : ¬flen < (BitVec.ofNat 16 (ipHdrSizeMin + len.toNat)).setWidth 32 := by
      rw [BitVec.lt_def, wide]
      omega
    have behind : ¬flen < (BitVec.ofNat 16 ipHdrSizeMin).setWidth 32 := header
    rw [ipLengths, hlen, count, first, decide_eq_false header, decide_eq_false room, decide_eq_false behind]
    rfl
  · have field : load16 data 6 = hton16 0 := by
      rw [load16_shift fun k below => copied (6 + k) (by omega), load16_splice _ _ (by omega), load16_of_disjoint _ _ (by omega),
        load16_of_disjoint _ _ (by omega), load16_of_disjoint _ _ (by omega), load16_of_disjoint _ _ (by omega), load16_of_disjoint _ _ (by omega),
        load16_of_disjoint _ _ (by omega), load16_store]
    rw [field, ntoh16_hton16]
  · rw [copied 9 (by omega), splice_outside _ _ (by omega), store_outside _ _ (by omega), store_outside _ _ (by omega),
      store_outside _ _ (by omega), store_outside _ _ (by omega), store_byte]
  · rw [load32_shift fun k below => copied (12 + k) (by omega), load32_splice _ _ (by omega), load32_of_disjoint _ _ (by omega),
      load32_of_disjoint _ _ (by omega), load32_store]
  · rw [load32_shift fun k below => copied (16 + k) (by omega), load32_splice _ _ (by omega), load32_of_disjoint _ _ (by omega),
      load32_store]
  · rw [copied (ipHdrSizeMin + k) (by omega), splice_inside _ _ (by omega) (by omega), Nat.add_sub_cancel_left]

/-- The packet is for the interface or for all of them. -/
def Addressed (iface : IpIface) (dst : IpAddr) : Prop := dst = iface.unicast ∨ dst = iface.broadcast ∨ dst = ipAddrBroadcast

instance (iface : IpIface) (dst : IpAddr) : Decidable (Addressed iface dst) := inferInstanceAs (Decidable (_ ∨ _ ∨ _))

/-- A whole packet goes to the handler of its protocol, unless it is for another host. -/
theorem PacketAt.handled (here : PacketAt data flen protocol src dst text len) {iface : IpIface} (known : host.iface = some iface) :
    ipHandled host data flen = if Addressed iface dst then
      ((host.protocols.find? fun entry => entry.1 = protocol).map Prod.snd).map fun handler => (handler, ⟨ipHdrSizeMin, len⟩) else none := by
  have whole : ¬((0 : BitVec 16) &&& 0x2000 ≠ 0 ∨ (0 : BitVec 16) &&& 0x1fff ≠ 0) := by decide
  rw [ipHandled, if_pos here.lengths, ipAccepts, if_neg (not_not.mpr here.sum), here.unfragmented, if_neg whole, known, here.dst, here.protocol,
    here.payload]
  by_cases mine : Addressed iface dst
  · have pass : ¬(dst ≠ iface.unicast ∧ dst ≠ iface.broadcast ∧ dst ≠ ipAddrBroadcast) := by
      rintro ⟨first, second, third⟩
      exact mine.elim first fun rest => rest.elim second third
    dsimp only
    rw [if_pos mine, if_neg pass, Option.map_map]
    rfl
  · have other : dst ≠ iface.unicast ∧ dst ≠ iface.broadcast ∧ dst ≠ ipAddrBroadcast := by
      unfold Addressed at mine
      tauto
    dsimp only
    rw [if_neg mine, if_pos other]
    rfl

end Ip

end BtbuOs.Wire
