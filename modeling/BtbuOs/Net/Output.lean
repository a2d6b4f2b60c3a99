import BtbuOs.Net.Checksum

namespace BtbuOs.Net

open Bytes Tcp

/-- The macros `IP_HDR_SIZE_MIN`, `IP_TOTAL_SIZE_MAX` and `IP_PAYLOAD_SIZE_MAX`. -/
def ipHdrSizeMin : Nat := 20
def ipTotalSizeMax : Nat := 1500
def ipPayloadSizeMax : Nat := ipTotalSizeMax - ipHdrSizeMin

/-- The sizes of `struct tcp_hdr`, `struct udp_hdr` and `struct icmp_hdr`. -/
def tcpHdrSize : Nat := 20
def udpHdrSize : Nat := 8
def icmpHdrSize : Nat := 8

/-- The bytes that a function passes down, with their number. -/
structure Message where
  bytes : Memory
  total : BitVec 16

/-- The message of `tcp_output_segment`. A payload that does not fit in the buffer has no defined message. -/
def tcpSegmentMessage (buf : Memory) (seq ack : Seq) (flg : Flags) (wnd : BitVec 16) (data : Memory) (len : BitVec 32)
    (localEnd foreignEnd : Endpoint) : Option Message :=
  if ipPayloadSizeMax < tcpHdrSize + len.toNat then none
  else
    let hdr := store buf 0 2 localEnd.port.toNat
    let hdr := store hdr 2 2 foreignEnd.port.toNat
    let hdr := store hdr 4 4 (hton32 seq).toNat
    let hdr := store hdr 8 4 (hton32 ack).toNat
    let hdr := store hdr 12 1 ((tcpHdrSize >>> 2) <<< 4)
    let hdr := store hdr 13 1 flg.toNat
    let hdr := store hdr 14 2 (hton16 wnd).toNat
    let hdr := store hdr 16 2 0
    let hdr := store hdr 18 2 0
    let hdr := splice hdr tcpHdrSize len.toNat data
    let total := BitVec.ofNat 16 (tcpHdrSize + len.toNat)
    let psum := psum localEnd.addr foreignEnd.addr ipProtocolTcp (total.setWidth 32)
    some ⟨store hdr 16 2 (cksum16 hdr 0 total psum).toNat, total⟩

/-- The message of `udp_output`, which refuses a payload that does not fit. -/
def udpMessage (buf : Memory) (src dst : Endpoint) (data : Memory) (len : BitVec 32) : Option Message :=
  if ipPayloadSizeMax - udpHdrSize < len.toNat then none
  else
    let hdr := store buf 0 2 src.port.toNat
    let hdr := store hdr 2 2 dst.port.toNat
    let total := BitVec.ofNat 16 (udpHdrSize + len.toNat)
    let hdr := store hdr 4 2 (hton16 total).toNat
    let hdr := store hdr 6 2 0
    let hdr := splice hdr udpHdrSize len.toNat data
    let psum := psum src.addr dst.addr ipProtocolUdp (total.setWidth 32)
    some ⟨store hdr 6 2 (cksum16 hdr 0 total psum).toNat, total⟩

/-- The message of `icmp_output`. A payload that does not fit in the buffer has no defined message. -/
def icmpMessage (buf : Memory) (type code : Byte) (values : BitVec 32) (data : Memory) (len : BitVec 32) : Option Message :=
  if ipPayloadSizeMax < icmpHdrSize + len.toNat then none
  else
    let hdr := store buf 0 1 type.toNat
    let hdr := store hdr 1 1 code.toNat
    let hdr := store hdr 2 2 0
    let hdr := store hdr 4 4 values.toNat
    let hdr := splice hdr icmpHdrSize len.toNat data
    let total := BitVec.ofNat 16 (icmpHdrSize + len.toNat)
    some ⟨store hdr 2 2 (cksum16 hdr 0 total 0).toNat, total⟩

/-- The message of `ip_output_core`. A payload that does not fit in the buffer has no defined message. -/
def ipMessage (buf : Memory) (protocol : Byte) (data : Memory) (len : BitVec 32) (src dst : IpAddr) (id offset : BitVec 16) :
    Option Message :=
  if ipTotalSizeMax < ipHdrSizeMin + len.toNat then none
  else
    let hdr := store buf 0 1 (4 <<< 4 ||| ipHdrSizeMin >>> 2)
    let hdr := store hdr 1 1 0
    let total := BitVec.ofNat 16 (ipHdrSizeMin + len.toNat)
    let hdr := store hdr 2 2 (hton16 total).toNat
    let hdr := store hdr 4 2 (hton16 id).toNat
    let hdr := store hdr 6 2 (hton16 offset).toNat
    let hdr := store hdr 8 1 0xff
    let hdr := store hdr 9 1 protocol.toNat
    let hdr := store hdr 10 2 0
    let hdr := store hdr 12 4 src.toNat
    let hdr := store hdr 16 4 dst.toNat
    let hdr := store hdr 10 2 (cksum16 hdr 0 (BitVec.ofNat 16 ipHdrSizeMin) 0).toNat
    some ⟨splice hdr ipHdrSizeMin len.toNat data, total⟩

/-- A frame has a message at a place. -/
def Message.Arrives (message : Message) (data : Memory) (s : Slice 32) : Prop :=
  s.len = message.total.setWidth 32 ∧ ∀ k, k < message.total.toNat → data (s.start + k) = message.bytes k

section Accepted

variable {buf text data : Memory} {message : Message} {s : Slice 32}

theorem psum_small (src dst : IpAddr) (protocol : Byte) (len : BitVec 32) : psum src dst protocol len < 2 ^ 31 :=
  Nat.lt_trans (BitVec.isLt _) (by decide)

/-- A checksum over the whole message is accepted where the message arrives. -/
theorem arrives_accepted {hdr : Memory} {pos init : Nat} {total : BitVec 16} (small : init < 2 ^ 31) (even : pos % 2 = 0)
    (inside : pos + 2 ≤ total.toNat) (zero : load hdr pos 2 = 0)
    (arrives : Message.Arrives ⟨store hdr pos 2 (cksum16 hdr 0 total init).toNat, total⟩ data s) :
    cksum16 data s.start (s.len.setWidth 16) init = 0 := by
  obtain ⟨length, bytes⟩ := arrives
  have count : s.len.setWidth 16 = total := by rw [length]; simp
  have accepted : cksum16 (store hdr pos 2 (cksum16 hdr 0 total init).toNat) 0 total init = 0 :=
    cksum16_accepts small even (Nat.zero_le pos) (by omega) zero
  rw [count, ← accepted]
  apply cksum16_shift
  intro k below
  rw [Nat.zero_add]
  exact bytes k below

theorem total_toNat {n : Nat} (fits : n ≤ ipTotalSizeMax) : (BitVec.ofNat 16 n).toNat = n := by
  have size : ipTotalSizeMax = 1500 := rfl
  exact Nat.mod_eq_of_lt (by omega)

theorem tcp_accepted {seq ack : Seq} {flg : Flags} {wnd : BitVec 16} {len : BitVec 32} {localEnd foreignEnd : Endpoint}
    (built : tcpSegmentMessage buf seq ack flg wnd text len localEnd foreignEnd = some message) (arrives : message.Arrives data s) :
    cksum16 data s.start (s.len.setWidth 16) (psum localEnd.addr foreignEnd.addr ipProtocolTcp s.len) = 0 := by
  unfold tcpSegmentMessage at built
  split at built
  · cases built
  · rename_i fits
    obtain rfl := Option.some.inj built
    have sizes : ipPayloadSizeMax = 1480 ∧ tcpHdrSize = 20 ∧ ipTotalSizeMax = 1500 := ⟨rfl, rfl, rfl⟩
    have length : s.len = (BitVec.ofNat 16 (tcpHdrSize + len.toNat)).setWidth 32 := arrives.1
    have accepted : cksum16 data s.start (s.len.setWidth 16)
        (psum localEnd.addr foreignEnd.addr ipProtocolTcp ((BitVec.ofNat 16 (tcpHdrSize + len.toNat)).setWidth 32)) = 0 := by
      apply arrives_accepted (psum_small _ _ _ _) (by decide) _ _ arrives
      · rw [total_toNat (by omega)]
        omega
      · rw [load_splice_of_disjoint _ _ (by omega), load_store_of_disjoint _ _ (by omega), load_store, Nat.zero_mod]
    rw [← length] at accepted
    exact accepted

theorem udp_accepted {src dst : Endpoint} {len : BitVec 32} (built : udpMessage buf src dst text len = some message)
    (arrives : message.Arrives data s) :
    cksum16 data s.start (s.len.setWidth 16) (psum src.addr dst.addr ipProtocolUdp s.len) = 0 := by
  unfold udpMessage at built
  split at built
  · cases built
  · rename_i fits
    obtain rfl := Option.some.inj built
    have sizes : ipPayloadSizeMax = 1480 ∧ udpHdrSize = 8 ∧ ipTotalSizeMax = 1500 := ⟨rfl, rfl, rfl⟩
    have length : s.len = (BitVec.ofNat 16 (udpHdrSize + len.toNat)).setWidth 32 := arrives.1
    have accepted : cksum16 data s.start (s.len.setWidth 16)
        (psum src.addr dst.addr ipProtocolUdp ((BitVec.ofNat 16 (udpHdrSize + len.toNat)).setWidth 32)) = 0 := by
      apply arrives_accepted (psum_small _ _ _ _) (by decide) _ _ arrives
      · rw [total_toNat (by omega)]
        omega
      · rw [load_splice_of_disjoint _ _ (by omega), load_store, Nat.zero_mod]
    rw [← length] at accepted
    exact accepted

theorem icmp_accepted {type code : Byte} {values len : BitVec 32} (built : icmpMessage buf type code values text len = some message)
    (arrives : message.Arrives data s) : cksum16 data s.start (s.len.setWidth 16) 0 = 0 := by
  unfold icmpMessage at built
  split at built
  · cases built
  · rename_i fits
    obtain rfl := Option.some.inj built
    have sizes : ipPayloadSizeMax = 1480 ∧ icmpHdrSize = 8 ∧ ipTotalSizeMax = 1500 := ⟨rfl, rfl, rfl⟩
    apply arrives_accepted (by decide) (by decide) _ _ arrives
    · rw [total_toNat (by omega)]
      omega
    · rw [load_splice_of_disjoint _ _ (by omega), load_store_of_disjoint _ _ (by omega), load_store, Nat.zero_mod]

/-- A checksum over a header at the start of the frame is accepted. -/
theorem header_accepted {hdr : Memory} {pos : Nat} (even : pos % 2 = 0) (inside : pos + 2 ≤ ipHdrSizeMin) (zero : load hdr pos 2 = 0)
    (here : ∀ k, k < ipHdrSizeMin → data k = store hdr pos 2 (cksum16 hdr 0 (BitVec.ofNat 16 ipHdrSizeMin) 0).toNat k) :
    cksum16 data 0 (BitVec.ofNat 16 ipHdrSizeMin) 0 = 0 := by
  have accepted : cksum16 (store hdr pos 2 (cksum16 hdr 0 (BitVec.ofNat 16 ipHdrSizeMin) 0).toNat) 0 (BitVec.ofNat 16 ipHdrSizeMin) 0 = 0 :=
    cksum16_accepts (by decide) even (Nat.zero_le pos) (by rw [Nat.zero_add]; exact inside) zero
  rw [← accepted]
  apply cksum16_shift
  intro k below
  rw [Nat.zero_add]
  exact here k below

theorem ip_accepted {protocol : Byte} {len : BitVec 32} {src dst : IpAddr} {id offset : BitVec 16}
    (built : ipMessage buf protocol text len src dst id offset = some message) (arrives : message.Arrives data s) (first : s.start = 0) :
    cksum16 data 0 (ipHlen data) 0 = 0 := by
  obtain ⟨-, bytes⟩ := arrives
  rw [first] at bytes
  unfold ipMessage at built
  split at built
  · cases built
  · rename_i fits
    obtain rfl := Option.some.inj built
    have sizes : ipHdrSizeMin = 20 ∧ ipTotalSizeMax = 1500 := ⟨rfl, rfl⟩
    have header (k : Nat) (below : k < ipHdrSizeMin) := by
      have copied := bytes k (by rw [total_toNat (by omega)]; omega)
      rw [Nat.zero_add] at copied
      exact copied.trans (splice_outside _ _ (Or.inl below))
    have version : data 0 = 0x45 := by
      rw [header 0 (by decide)]
      rfl
    have hlen : ipHlen data = BitVec.ofNat 16 ipHdrSizeMin := by
      rw [ipHlen, version]
      rfl
    rw [hlen]
    apply header_accepted (by decide) _ _ header
    · omega
    · rw [load_store_of_disjoint _ _ (by omega), load_store_of_disjoint _ _ (by omega), load_store, Nat.zero_mod]

end Accepted

/-- Every message passes the test of its input when the addresses are the same, and no carry of a sum is lost. -/
theorem checksums_accepted :
    (∀ buf text data seq ack flg wnd len localEnd foreignEnd message s,
      tcpSegmentMessage buf seq ack flg wnd text len localEnd foreignEnd = some message → message.Arrives data s →
        cksum16 data s.start (s.len.setWidth 16) (psum localEnd.addr foreignEnd.addr ipProtocolTcp s.len) = 0) ∧
    (∀ buf text data src dst len message s, udpMessage buf src dst text len = some message → message.Arrives data s →
        cksum16 data s.start (s.len.setWidth 16) (psum src.addr dst.addr ipProtocolUdp s.len) = 0) ∧
    (∀ buf text data type code values len message s,
      icmpMessage buf type code values text len = some message → message.Arrives data s →
        cksum16 data s.start (s.len.setWidth 16) 0 = 0) ∧
    (∀ buf text data protocol len src dst id offset message s,
      ipMessage buf protocol text len src dst id offset = some message → message.Arrives data s → s.start = 0 →
        cksum16 data 0 (ipHlen data) 0 = 0) ∧
    (∀ mem start count, ∀ init : BitVec 16,
      cksum16Machine mem start count (init.setWidth 32) = cksum16 mem start count init.toNat ∧
      cksum16 mem start count init.toNat = ~~~BitVec.ofNat 16 (OnesComplement.sum 16 (init.toNat :: words mem start count.toNat))) ∧
    ∀ mem start count src dst protocol len, cksum16 mem start count (psum src dst protocol len) =
      ~~~BitVec.ofNat 16 (OnesComplement.sum 16 (words (pseudoHdr src dst protocol len) 0 12 ++ words mem start count.toNat)) := by
  refine ⟨?_, ?_, ?_, ?_, ?_, ?_⟩
  · intro buf text data seq ack flg wnd len localEnd foreignEnd message s built arrives
    exact tcp_accepted built arrives
  · intro buf text data src dst len message s built arrives
    exact udp_accepted built arrives
  · intro buf text data type code values len message s built arrives
    exact icmp_accepted built arrives
  · intro buf text data protocol len src dst id offset message s built arrives first
    exact ip_accepted built arrives first
  · intro mem start count init
    have word := init.isLt
    have width : (init.setWidth 32).toNat = init.toNat := by
      rw [BitVec.toNat_setWidth, Nat.mod_eq_of_lt (by omega)]
    have machine : cksum16Machine mem start count (init.setWidth 32) = cksum16 mem start count (init.setWidth 32).toNat :=
      cksum16Machine_eq (by omega)
    rw [width] at machine
    exact ⟨machine, cksum16_sum init⟩
  · intro mem start count src dst protocol len
    exact cksum16_psum src dst protocol len

/-- Three bytes of payload. -/
def oddText : Memory := fun k => BitVec.ofNat 8 (65 + k)

def oddEnd : Endpoint := ⟨0x0202000a, hton16 80⟩

theorem checksums_accepted_odd :
    (∃ message, tcpSegmentMessage (fun _ => 0) 1 2 0x18 1000 oddText 3 oddEnd oddEnd = some message ∧
      cksum16 message.bytes 0 ((message.total.setWidth 32).setWidth 16)
        (psum oddEnd.addr oddEnd.addr ipProtocolTcp (message.total.setWidth 32)) = 0) ∧
    (∃ message, udpMessage (fun _ => 0) oddEnd oddEnd oddText 3 = some message ∧
      cksum16 message.bytes 0 ((message.total.setWidth 32).setWidth 16)
        (psum oddEnd.addr oddEnd.addr ipProtocolUdp (message.total.setWidth 32)) = 0) ∧
    (∃ message, icmpMessage (fun _ => 0) icmpTypeEcho 0 7 oddText 3 = some message ∧
      cksum16 message.bytes 0 ((message.total.setWidth 32).setWidth 16) 0 = 0) ∧
    ∃ message, ipMessage (fun _ => 0) ipProtocolUdp oddText 3 oddEnd.addr oddEnd.addr 128 0 = some message ∧
      cksum16 message.bytes 0 (ipHlen message.bytes) 0 = 0 := by
  obtain ⟨tcp, udp, icmp, ip, -, -⟩ := checksums_accepted
  have arrives (message : Message) : message.Arrives message.bytes ⟨0, message.total.setWidth 32⟩ :=
    ⟨rfl, fun k _ => congrArg message.bytes (Nat.zero_add k)⟩
  obtain ⟨segment, sent⟩ := Option.isSome_iff_exists.mp
    (show (tcpSegmentMessage (fun _ => 0) 1 2 0x18 1000 oddText 3 oddEnd oddEnd).isSome = true by decide)
  obtain ⟨datagram, posted⟩ := Option.isSome_iff_exists.mp
    (show (udpMessage (fun _ => 0) oddEnd oddEnd oddText 3).isSome = true by decide)
  obtain ⟨echo, called⟩ := Option.isSome_iff_exists.mp
    (show (icmpMessage (fun _ => 0) icmpTypeEcho 0 7 oddText 3).isSome = true by decide)
  obtain ⟨packet, routed⟩ := Option.isSome_iff_exists.mp
    (show (ipMessage (fun _ => 0) ipProtocolUdp oddText 3 oddEnd.addr oddEnd.addr 128 0).isSome = true by decide)
  refine ⟨⟨segment, sent, ?_⟩, ⟨datagram, posted, ?_⟩, ⟨echo, called, ?_⟩, ⟨packet, routed, ?_⟩⟩
  · have passed := tcp _ _ _ _ _ _ _ _ _ _ _ _ sent (arrives segment)
    exact passed
  · have passed := udp _ _ _ _ _ _ _ _ posted (arrives datagram)
    exact passed
  · have passed := icmp _ _ _ _ _ _ _ _ _ called (arrives echo)
    exact passed
  · have passed := ip _ _ _ _ _ _ _ _ _ _ _ routed (arrives packet) rfl
    exact passed

end BtbuOs.Net
