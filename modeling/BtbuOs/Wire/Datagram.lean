import BtbuOs.Net.ArpCache
import BtbuOs.Net.Routing
import BtbuOs.Wire.Carried

namespace BtbuOs.Wire

open Bytes Net
open Tcp (Endpoint Seq Flags Arrival ipAddrBroadcast tcpFlgIsset tcpFlgSyn tcpFlgFin)

section Transport

variable {buf text data whole : Memory} {flen len : BitVec 32} {src dst : Endpoint} {message : Message}

/-- A message is behind the header of its packet. -/
theorem PacketAt.arrives {protocol : Byte} {from_ to_ : IpAddr}
    (here : PacketAt data flen protocol from_ to_ message.bytes (message.total.setWidth 32)) :
    message.Arrives data ⟨ipHdrSizeMin, message.total.setWidth 32⟩ := by
  have count : (message.total.setWidth 32).toNat = message.total.toNat := BitVec.toNat_setWidth_of_le (by decide)
  exact ⟨rfl, fun k below => here.bytes k (by rw [count]; exact below)⟩

theorem udpMessage_total (built : udpMessage buf src dst text len = some message) :
    message.total.toNat = udpHdrSize + len.toNat ∧ udpHdrSize + len.toNat ≤ ipPayloadSizeMax := by
  have sizes : ipPayloadSizeMax = 1480 ∧ udpHdrSize = 8 ∧ ipTotalSizeMax = 1500 := ⟨rfl, rfl, rfl⟩
  unfold udpMessage at built
  split_ifs at built with long
  obtain rfl := Option.some.inj built
  exact ⟨total_toNat (by omega), by omega⟩

theorem tcpSegmentMessage_total {seq ack : Seq} {flg : Flags} {wnd : BitVec 16}
    (built : tcpSegmentMessage buf seq ack flg wnd text len src dst = some message) : message.total.toNat = tcpHdrSize + len.toNat := by
  have sizes : ipPayloadSizeMax = 1480 ∧ tcpHdrSize = 20 ∧ ipTotalSizeMax = 1500 := ⟨rfl, rfl, rfl⟩
  unfold tcpSegmentMessage at built
  split_ifs at built with long
  obtain rfl := Option.some.inj built
  exact total_toNat (by omega)

theorem icmpMessage_total {type code : Byte} {values : BitVec 32} (built : icmpMessage buf type code values text len = some message) :
    message.total.toNat = icmpHdrSize + len.toNat := by
  have sizes : ipPayloadSizeMax = 1480 ∧ icmpHdrSize = 8 ∧ ipTotalSizeMax = 1500 := ⟨rfl, rfl, rfl⟩
  unfold icmpMessage at built
  split_ifs at built with long
  obtain rfl := Option.some.inj built
  exact total_toNat (by omega)

/-- A datagram arrives with its ends and its text. -/
theorem udpMessage_arrival (built : udpMessage buf src dst text len = some message) {s : Slice 32} (arrives : message.Arrives data s) :
    udpArrival data s src.addr dst.addr = some (src, dst, slice text 0 len.toNat) := by
  have accepted := udp_accepted built arrives
  have sizes : ipPayloadSizeMax = 1480 ∧ udpHdrSize = 8 ∧ ipTotalSizeMax = 1500 := ⟨rfl, rfl, rfl⟩
  unfold udpMessage at built
  split_ifs at built with long
  obtain rfl := Option.some.inj built
  obtain ⟨length, copied⟩ := arrives
  have total : (BitVec.ofNat 16 (udpHdrSize + len.toNat)).toNat = udpHdrSize + len.toNat := total_toNat (by omega)
  have count : s.len.toNat = udpHdrSize + len.toNat := by
    rw [length, BitVec.toNat_setWidth_of_le (by decide), total]
  dsimp only at copied
  have size : load16 data (s.start + 4) = hton16 (BitVec.ofNat 16 (udpHdrSize + len.toNat)) := by
    rw [load16_copied copied 4 (by omega), load16_of_disjoint _ _ (by omega), load16_splice _ _ (by omega), load16_of_disjoint _ _ (by omega),
      load16_store]
  have sender : load16 data s.start = src.port := by
    change load16 data (s.start + 0) = src.port
    rw [load16_copied copied 0 (by omega), load16_of_disjoint _ _ (by omega), load16_splice _ _ (by omega), load16_of_disjoint _ _ (by omega),
      load16_of_disjoint _ _ (by omega), load16_of_disjoint _ _ (by omega), load16_store]
  have receiver : load16 data (s.start + 2) = dst.port := by
    rw [load16_copied copied 2 (by omega), load16_of_disjoint _ _ (by omega), load16_splice _ _ (by omega), load16_of_disjoint _ _ (by omega),
      load16_of_disjoint _ _ (by omega), load16_store]
  have header : ¬s.len < 8 := by
    rw [BitVec.lt_def, show (8 : BitVec 32).toNat = 8 from rfl]
    omega
  have same : ¬s.len ≠ (ntoh16 (load16 data (s.start + 4))).setWidth 32 := by
    rw [size, ntoh16_hton16]
    exact not_not.mpr length
  have rest : (s.len - 8).toNat = len.toNat := by
    rw [BitVec.toNat_sub_of_le (Nat.not_lt.mp header), count, show (8 : BitVec 32).toNat = udpHdrSize from rfl, Nat.add_sub_cancel_left]
  have body : slice data (s.start + udpHdrSize) len.toNat = slice text 0 len.toNat := by
    apply slice_congr
    intro k below
    rw [Nat.add_assoc, copied (udpHdrSize + k) (by omega), store_outside _ _ (by omega), splice_inside _ _ (by omega) (by omega), Nat.add_sub_cancel_left, Nat.zero_add]
  rw [udpArrival, if_neg header, if_neg same, if_neg (not_not.mpr accepted), sender, receiver, rest, body]

/-- A segment arrives with the numbers, the flags, the window and the text that were sent. -/
theorem tcpSegmentMessage_arrival {seq ack : Seq} {flg : Flags} {wnd : BitVec 16} {iface : IpIface}
    (built : tcpSegmentMessage buf seq ack flg wnd text len src dst = some message) {s : Slice 32} (arrives : message.Arrives data s)
    (single : ¬(src.addr = ipAddrBroadcast ∨ src.addr = iface.broadcast ∨ dst.addr = ipAddrBroadcast ∨ dst.addr = iface.broadcast)) :
    ∃ a, tcpArrival iface data s src.addr dst.addr = some a ∧ a.seg.seq = seq ∧ a.seg.ack = ack ∧ a.flags = flg ∧ a.seg.wnd = wnd ∧
      a.localEnd = dst ∧ a.foreignEnd = src ∧ a.len = len ∧ a.seg.len.toNat = len.toNat + flagCount flg ∧
      slice a.data 0 len.toNat = slice text 0 len.toNat := by
  have accepted := tcp_accepted built arrives
  have sizes : ipPayloadSizeMax = 1480 ∧ tcpHdrSize = 20 ∧ ipTotalSizeMax = 1500 := ⟨rfl, rfl, rfl⟩
  unfold tcpSegmentMessage at built
  split_ifs at built with long
  obtain rfl := Option.some.inj built
  obtain ⟨length, copied⟩ := arrives
  have total : (BitVec.ofNat 16 (tcpHdrSize + len.toNat)).toNat = tcpHdrSize + len.toNat := total_toNat (by omega)
  have count : s.len.toNat = tcpHdrSize + len.toNat := by
    rw [length, BitVec.toNat_setWidth_of_le (by decide), total]
  have header : ¬s.len < 20 := by
    rw [BitVec.lt_def, show (20 : BitVec 32).toNat = 20 from rfl]
    omega
  dsimp only at copied
  have ports : load16 data (s.start + 0) = src.port ∧ load16 data (s.start + 2) = dst.port := by
    rw [load16_copied copied 0 (by omega), load16_copied copied 2 (by omega)]
    simp (disch := omega) only [load16_of_disjoint, load16_splice, load16_store, and_self]
  have numbers : load32 data (s.start + 4) = hton32 seq ∧ load32 data (s.start + 8) = hton32 ack := by
    rw [load32_copied copied 4 (by omega), load32_copied copied 8 (by omega)]
    simp (disch := omega) only [load32_of_disjoint, load32_splice, load32_store, and_self]
  have window : load16 data (s.start + 14) = hton16 wnd := by
    rw [load16_copied copied 14 (by omega)]
    simp (disch := omega) only [load16_of_disjoint, load16_splice, load16_store]
  have offset : data (s.start + 12) = 0x50 := by
    rw [copied 12 (by omega)]
    simp (disch := omega) only [store_outside, splice_outside]
    rfl
  have marks : data (s.start + 13) = flg := by
    rw [copied 13 (by omega)]
    simp (disch := omega) only [store_outside, splice_outside, store_byte]
  have body : ∀ k, k < len.toNat → data (s.start + (tcpHdrSize + k)) = text k := by
    intro k below
    rw [copied (tcpHdrSize + k) (by omega), store_outside _ _ (by omega), splice_inside _ _ (by omega) (by omega), Nat.add_sub_cancel_left]
  have hlen : ((readTcpHdr data s.start).off >>> 4 <<< 2).setWidth 32 = BitVec.ofNat 32 tcpHdrSize := by
    change ((data (s.start + 12)) >>> 4 <<< 2).setWidth 32 = _
    rw [offset]
    rfl
  have rest : s.len - BitVec.ofNat 32 tcpHdrSize = len := by
    apply BitVec.eq_of_toNat_eq
    have head : (BitVec.ofNat 32 tcpHdrSize).toNat = tcpHdrSize := rfl
    rw [BitVec.toNat_sub_of_le (by rw [BitVec.le_def, count, head]; omega), count, head, Nat.add_sub_cancel_left]
  obtain ⟨a, arrived, same⟩ : ∃ a, tcpArrival iface data s src.addr dst.addr = some a ∧ tcpArrival iface data s src.addr dst.addr = some a := by
    rw [tcpArrival, Tcp.tcpInputArrival, if_neg header, accepted, if_neg (by simp), if_neg single]
    exact ⟨_, rfl, rfl⟩
  have extent := (tcpArrival_slice arrived).2
  rw [tcpArrival, Tcp.tcpInputArrival, if_neg header, accepted, if_neg (by simp), if_neg single, hlen] at same
  dsimp only at same
  rw [rest] at same
  obtain rfl := Option.some.inj same
  dsimp only at extent
  have few : flagCount flg ≤ 2 := by
    unfold flagCount
    split_ifs <;> decide
  refine ⟨_, arrived, ?_, ?_, marks, ?_, ?_, ?_, rfl, ?_, ?_⟩
  · exact (congrArg ntoh32 numbers.1).trans (byteswap32_byteswap32 seq)
  · exact (congrArg ntoh32 numbers.2).trans (byteswap32_byteswap32 ack)
  · exact (congrArg ntoh16 window).trans (ntoh16_hton16 wnd)
  · exact congrArg (Endpoint.mk dst.addr) ports.2
  · exact congrArg (Endpoint.mk src.addr) ports.1
  · dsimp only
    rw [extent, show (readTcpHdr data s.start).flg = flg from marks, BitVec.toNat_add, BitVec.toNat_setWidth, BitVec.toNat_ofNat,
      Nat.mod_eq_of_lt (by omega : len.toNat < 2 ^ 16), Nat.mod_eq_of_lt (by omega : flagCount flg < 2 ^ 16)]
    exact Nat.mod_eq_of_lt (by omega)
  · apply slice_congr
    intro k below
    rw [Nat.zero_add]
    exact body k below

/-- The answer to an echo has its code, its values and its text. -/
theorem icmpInput_echo {code : Byte} {values : BitVec 32} (built : icmpMessage buf icmpTypeEcho code values text len = some message)
    {s : Slice 32} (arrives : message.Arrives data s) {st : Station} {stack : Stack} {source : IpAddr} {now : Timeval} :
    icmpInput st stack data s source now = icmpOutput st stack icmpTypeEchoreply code values text len st.iface.unicast source now := by
  have accepted := icmp_accepted built arrives
  have sizes : ipPayloadSizeMax = 1480 ∧ icmpHdrSize = 8 ∧ ipTotalSizeMax = 1500 := ⟨rfl, rfl, rfl⟩
  unfold icmpMessage at built
  split_ifs at built with long
  obtain rfl := Option.some.inj built
  obtain ⟨length, copied⟩ := arrives
  have total : (BitVec.ofNat 16 (icmpHdrSize + len.toNat)).toNat = icmpHdrSize + len.toNat := total_toNat (by omega)
  have count : s.len.toNat = icmpHdrSize + len.toNat := by
    rw [length, BitVec.toNat_setWidth_of_le (by decide), total]
  dsimp only at copied
  have header : ¬s.len < 8 := by
    rw [BitVec.lt_def, show (8 : BitVec 32).toNat = 8 from rfl]
    omega
  have kind : data s.start = icmpTypeEcho := by
    rw [← Nat.add_zero s.start, copied 0 (by omega)]
    simp (disch := omega) only [store_outside, splice_outside, store_byte]
  have second : data (s.start + 1) = code := by
    rw [copied 1 (by omega)]
    simp (disch := omega) only [store_outside, splice_outside, store_byte]
  have third : load32 data (s.start + 4) = values := by
    rw [load32_copied copied 4 (by omega)]
    simp (disch := omega) only [load32_of_disjoint, load32_splice, load32_store]
  have rest : s.len - 8 = len := by
    apply BitVec.eq_of_toNat_eq
    rw [BitVec.toNat_sub_of_le (Nat.not_lt.mp header), count, show (8 : BitVec 32).toNat = icmpHdrSize from rfl, Nat.add_sub_cancel_left]
  have body : ∀ k, k < len.toNat → data (s.start + icmpHdrSize + k) = text k := by
    intro k below
    rw [Nat.add_assoc, copied (icmpHdrSize + k) (by omega), store_outside _ _ (by omega), splice_inside _ _ (by omega) (by omega),
      Nat.add_sub_cancel_left]
  have reply : icmpMessage (fun _ => 0) icmpTypeEchoreply code values (fun k => data (s.start + icmpHdrSize + k)) len =
      icmpMessage (fun _ => 0) icmpTypeEchoreply code values text len := by
    unfold icmpMessage
    rw [if_neg long, if_neg long]
    dsimp only
    rw [splice_congr body]
  rw [icmpInput, if_neg header, if_neg (not_not.mpr accepted), if_pos kind, second, third, rest, icmpOutput, reply]
  rfl

end Transport

end BtbuOs.Wire
