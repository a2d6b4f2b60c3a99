import BtbuOs.Net.Input

namespace BtbuOs.Net

open Bytes Tcp

/-- What the flags add to the length of a segment. -/
def flagCount (flags : Flags) : Nat := (if tcpFlgIsset flags tcpFlgSyn then 1 else 0) + if tcpFlgIsset flags tcpFlgFin then 1 else 0

/-- The part that a call gets lies in the frame, and the length of a segment is its text with its flags. -/
def Fits (len : BitVec 32) (call : Call) : Prop :=
  call.slice.Within len.toNat ∧
    match call.callee with
    | .tcpSegmentArrives seg flags => seg.len.toNat = call.slice.len.toNat + flagCount flags
    | _ => True

/-- The place of the segment behind the header for IP. -/
def ipPayload (data : Memory) : Slice 32 := ⟨(ipHlen data).toNat, (ipTotal data).setWidth 32 - (ipHlen data).setWidth 32⟩

/-- A frame that is not dropped has its header inside its total length, and that of a segment inside the rest. -/
def Honest (host : Host) (data : Memory) : Prop :=
  ∀ iface handler, ipAccepts host data = some (iface, handler) →
    (ipHlen data).toNat ≤ (ipTotal data).toNat ∧
      (handler = .tcp → (tcpArrival iface data (ipPayload data) (load32 data 12) (load32 data 16)).isSome →
        tcpHlen data (ipHlen data).toNat ≤ (ipTotal data).toNat - (ipHlen data).toNat)

variable {host : Host} {iface : IpIface} {data : Memory} {len : BitVec 32} {s : Slice 32} {src dst : IpAddr} {call : Call} {a : Arrival}

theorem and_le (x y : BitVec 32) : (x &&& y).toNat ≤ x.toNat := by
  rw [BitVec.toNat_and]
  exact Nat.and_le_left

/-- A checksum never reads behind its slice. -/
theorem within_cksum16 (inside : s.Within len.toNat) : Fits len ⟨.cksum16, ⟨s.start, s.len &&& 0xffff⟩⟩ :=
  ⟨Nat.le_trans (Nat.add_le_add_left (and_le s.len 0xffff) s.start) inside, trivial⟩

theorem icmpInput_fits (inside : s.Within len.toNat) (member : call ∈ icmpInput data s) : Fits len call := by
  unfold icmpInput at member
  split at member
  · cases member
  · rename_i long
    rcases List.mem_cons.mp member with sum | rest
    · rw [sum]
      exact within_cksum16 inside
    · split at rest
      · cases rest
      · split at rest
        · rw [List.mem_singleton.mp rest]
          exact ⟨(Slice.skip_within_iff inside len.isLt (by decide)).mpr (Nat.not_lt.mp long), trivial⟩
        · cases rest

theorem udpInput_fits (inside : s.Within len.toNat) (member : call ∈ udpInput host data s src dst) : Fits len call := by
  unfold udpInput at member
  split at member
  · cases member
  · rename_i long
    have header := (Slice.skip_within_iff inside len.isLt (by decide)).mpr (Nat.not_lt.mp long)
    split at member
    · cases member
    · rcases List.mem_cons.mp member with sum | rest
      · rw [sum]
        exact within_cksum16 inside
      · split at rest
        · cases rest
        · split at rest
          · cases rest
          · split at rest
            · rw [List.mem_singleton.mp rest]
              exact ⟨Nat.le_trans (Nat.add_le_add_left (and_le (s.len - 8) 0xffff) (s.start + 8)) header, trivial⟩
            · cases rest

/-- The length of the header that `tcp_input` computes. -/
theorem tcpHlen_eq : ∀ off : BitVec 8, ((off >>> 4 <<< 2).setWidth 32).toNat = off.toNat / 16 * 4 := by decide

/-- The text of an accepted segment is the part of its slice behind the header. -/
theorem tcpArrival_slice (accepted : tcpArrival iface data s src dst = some a) :
    (⟨s.start + tcpHlen data s.start, a.len⟩ : Slice 32) = s.skip (tcpHlen data s.start) ∧
      a.seg.len = a.len.setWidth 16 + BitVec.ofNat 16 (flagCount a.flags) := by
  unfold tcpArrival tcpInputArrival at accepted
  split at accepted
  · cases accepted
  · split at accepted
    · cases accepted
    · split at accepted
      · cases accepted
      · cases accepted
        have count : ((readTcpHdr data s.start).off >>> 4 <<< 2).setWidth 32 = BitVec.ofNat 32 (tcpHlen data s.start) := by
          have bound := (data (s.start + 12)).isLt
          apply BitVec.eq_of_toNat_eq
          rw [tcpHlen_eq, BitVec.toNat_ofNat, tcpHlen, Nat.mod_eq_of_lt (by omega)]
          rfl
        constructor
        · dsimp only
          rw [Slice.skip, count]
        · dsimp only [flagCount]
          split <;> split <;> simp [BitVec.add_assoc]

theorem tcpInput_fits (inside : s.Within len.toNat) (short : s.len.toNat + 2 < 2 ^ 16)
    (header : (tcpArrival iface data s src dst).isSome → tcpHlen data s.start ≤ s.len.toNat)
    (member : call ∈ Net.tcpInput iface data s src dst) : Fits len call := by
  unfold Net.tcpInput at member
  split at member
  · cases member
  · rcases List.mem_cons.mp member with sum | rest
    · rw [sum]
      exact within_cksum16 inside
    · split at rest
      · cases rest
      · rename_i a accepted
        obtain ⟨place, count⟩ := tcpArrival_slice accepted
        have fits := header (by rw [accepted]; rfl)
        rw [List.mem_singleton.mp rest, place]
        have small : tcpHlen data s.start < 2 ^ 32 := Nat.lt_of_le_of_lt fits s.len.isLt
        refine ⟨(Slice.skip_within_iff inside len.isLt small).mpr fits, ?_⟩
        dsimp only
        have text : a.len = (s.skip (tcpHlen data s.start)).len := by rw [← place]
        have length := Slice.skip_len fits
        have flags : flagCount a.flags ≤ 2 := by
          unfold flagCount
          split <;> split <;> decide
        rw [count, text, BitVec.toNat_add, BitVec.toNat_setWidth, BitVec.toNat_ofNat, length,
          Nat.mod_eq_of_lt (by omega : s.len.toNat - tcpHlen data s.start < 2 ^ 16), Nat.mod_eq_of_lt (by omega : flagCount a.flags < 2 ^ 16)]
        exact Nat.mod_eq_of_lt (by omega)

/-- A header without bytes has no checksum of zero. -/
theorem ipAccepts_hlen (accepted : ipAccepts host data = some (iface, handler)) : 4 ≤ (ipHlen data).toNat := by
  have steps : ∀ b : BitVec 8, ((b &&& 0x0f).setWidth 16 <<< 2).toNat % 4 = 0 := by decide
  have multiple : (ipHlen data).toNat % 4 = 0 := steps (data 0)
  have some : (ipHlen data).toNat ≠ 0 := by
    intro zero
    unfold ipAccepts at accepted
    have empty : cksum16 data 0 (ipHlen data) 0 ≠ 0 := by
      unfold cksum16
      rw [zero, wordSum]
      decide
    rw [if_pos empty] at accepted
    cases accepted
  omega

/-- The payload is the part of the datagram behind its header. -/
theorem ipPayload_eq (data : Memory) : ipPayload data = (⟨0, (ipTotal data).setWidth 32⟩ : Slice 32).skip (ipHlen data).toNat := by
  rw [ipPayload, Slice.skip, Nat.zero_add, BitVec.ofNat_toNat]

/-- The calls for a frame stay inside it exactly when its headers are inside the lengths above them. -/
theorem ip_input_within_iff (host : Host) (data : Memory) (len : BitVec 32) :
    (∀ call ∈ ipInput host data len, Fits len call) ↔ (ipLengths data len = true → Honest host data) := by
  have large : (ipHlen data).toNat < 2 ^ 32 := Nat.lt_trans (ipHlen data).isLt (by decide)
  have total : ((ipTotal data).setWidth 32).toNat = (ipTotal data).toNat := BitVec.toNat_setWidth_of_le (by decide)
  have short := (ipTotal data).isLt
  constructor
  · intro fits checked iface handler accepted
    have datagram : (⟨0, (ipTotal data).setWidth 32⟩ : Slice 32).Within len.toNat := by
      unfold ipLengths at checked
      simp only [Bool.and_eq_true, Bool.not_eq_true', decide_eq_false_iff_not, BitVec.lt_def, Nat.not_lt] at checked
      rw [Slice.Within, Nat.zero_add]
      exact checked.2
    have calls : ipInput host data len = ⟨.cksum16, ⟨0, (ipHlen data).setWidth 32⟩⟩ :: ⟨.handler handler, ipPayload data⟩ ::
        runHandler host iface data (ipPayload data) (load32 data 12) (load32 data 16) handler := by
      rw [ipInput, if_pos checked, accepted]
      rfl
    rw [calls] at fits
    have inside := (fits _ (List.mem_cons_of_mem _ (List.mem_cons_self ..))).1
    dsimp only at inside
    have header := inside
    rw [ipPayload_eq, Slice.skip_within_iff datagram len.isLt large, total] at header
    refine ⟨header, ?_⟩
    intro tcp passed
    obtain ⟨a, arrived⟩ := Option.isSome_iff_exists.mp passed
    have length : (ipPayload data).len.toNat = (ipTotal data).toNat - (ipHlen data).toNat := by
      rw [ipPayload_eq, Slice.skip_len (by rw [total]; exact header), total]
    have long : ¬(ipPayload data).len < 20 := by
      intro less
      unfold tcpArrival tcpInputArrival at arrived
      rw [if_pos less] at arrived
      cases arrived
    have last : Fits len ⟨.tcpSegmentArrives a.seg a.flags, ⟨(ipPayload data).start + tcpHlen data (ipPayload data).start, a.len⟩⟩ := by
      apply fits
      rw [tcp, runHandler, Net.tcpInput, if_neg long, arrived]
      simp
    have part := last.1
    dsimp only at part
    have small : tcpHlen data (ipPayload data).start < 2 ^ 32 := by
      have bound := (data ((ipPayload data).start + 12)).isLt
      unfold tcpHlen
      omega
    rw [(tcpArrival_slice arrived).1, Slice.skip_within_iff inside len.isLt small, length] at part
    exact part
  · intro honest call member
    unfold ipInput at member
    split at member
    · rename_i checked
      have lengths := checked
      unfold ipLengths at lengths
      simp only [Bool.and_eq_true, Bool.not_eq_true', decide_eq_false_iff_not, BitVec.lt_def, Nat.not_lt] at lengths
      rcases List.mem_cons.mp member with sum | rest
      · rw [sum]
        refine ⟨?_, trivial⟩
        rw [Slice.Within, Nat.zero_add]
        exact lengths.1.2
      · split at rest
        · cases rest
        · rename_i iface handler accepted
          obtain ⟨header, segment⟩ := honest checked iface handler accepted
          have datagram : (⟨0, (ipTotal data).setWidth 32⟩ : Slice 32).Within len.toNat := by
            rw [Slice.Within, Nat.zero_add]
            exact lengths.2
          have inside : (ipPayload data).Within len.toNat := by
            rw [ipPayload_eq, Slice.skip_within_iff datagram len.isLt large, total]
            exact header
          have length : (ipPayload data).len.toNat = (ipTotal data).toNat - (ipHlen data).toNat := by
            rw [ipPayload_eq, Slice.skip_len (by rw [total]; exact header), total]
          rcases List.mem_cons.mp rest with own | behind
          · rw [own]
            exact ⟨inside, trivial⟩
          · cases handler with
            | icmp => exact icmpInput_fits inside behind
            | udp => exact udpInput_fits inside behind
            | tcp =>
                have words := ipAccepts_hlen accepted
                refine tcpInput_fits inside (by omega) (fun passed => ?_) behind
                rw [length]
                exact segment rfl passed
    · cases member

/-- The host 10.0.2.15, which takes TCP. -/
def guestHost : Host where
  iface := some ⟨some 0, 0x0f02000a, 0x00ffffff, 0xff02000a⟩
  protocols := [(ipProtocolTcp, .tcp)]
  udpPcbs := fun _ => ⟨.free, 0, 0⟩
  memory := true

/-- A segment of 20 bytes whose field `off` gives a header of 60 bytes, with checksums that are right. -/
def forgedFrame : Memory := fun k =>
  [69, 0, 0, 40, 0, 1, 0, 0, 64, 6, 98, 191, 10, 0, 2, 2, 10, 0, 2, 15,
    31, 144, 0, 80, 0, 0, 3, 232, 0, 0, 0, 1, 240, 16, 64, 0, 147, 250, 0, 0].getD k (0 : Byte)

/-- The text of the forged segment begins behind the frame, and its length wraps. -/
theorem forged_segment_outside : ¬∀ host data len, ∀ call ∈ ipInput host data len, Fits len call := by
  intro claim
  have outside : ∃ call ∈ ipInput guestHost forgedFrame 40, ¬call.slice.Within 40 := by decide +kernel
  obtain ⟨call, member, beyond⟩ := outside
  exact beyond (claim guestHost forgedFrame 40 call member).1

end BtbuOs.Net
