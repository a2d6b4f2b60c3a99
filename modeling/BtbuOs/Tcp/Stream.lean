import BtbuOs.Tcp.Receive

namespace BtbuOs.Tcp

open Bytes Machine

/-- The bytes that the peers of a block send, by the number of the connection. -/
abbrev Streams := PcbId → Nat → Memory

variable {streams : Streams} {n : Net} {trace : List Event}

/-- The text of the segment is the slice of the peer's stream from `k` on. -/
def Carries (streams : Streams) (n : Net) (i : PcbId) (a : Arrival) (k : Nat) : Prop :=
  a.seg.seq = (n.pcbs i).irs + 1 + BitVec.ofNat 32 k ∧
    slice a.data 0 a.len.toNat = slice (streams i (flowOf n.log i).opened) k a.len.toNat

instance (streams : Streams) (n : Net) (i : PcbId) (a : Arrival) (k : Nat) : Decidable (Carries streams n i a k) :=
  inferInstanceAs (Decidable (_ ∧ _))

/-- Each segment whose text is due carries a slice of the peer's stream. -/
def Sliced (streams : Streams) (n : Net) (_ : List Event) (action : Action) : Prop :=
  ∀ a ∈ action.arrival, ∀ i, tcpPcbSelect n a.localEnd (some a.foreignEnd) = some i →
    TextDue (n.pcbs i) a.seg a.flags → a.len ≠ 0 → ∃ k, Carries streams n i a k

/-- Each segment whose text is due carries the bytes behind those stored before, and fits the window. -/
def InOrder (streams : Streams) (n : Net) (_ : List Event) (action : Action) : Prop :=
  ∀ a ∈ action.arrival, ∀ i, tcpPcbSelect n a.localEnd (some a.foreignEnd) = some i →
    TextDue (n.pcbs i) a.seg a.flags → a.len ≠ 0 →
      Carries streams n i a (flowOf n.log i).stored.length ∧ a.len.toNat ≤ (n.pcbs i).rcv.wnd.toNat

instance (streams : Streams) (n : Net) (trace : List Event) (action : Action) :
    Decidable (InOrder streams n trace action) :=
  inferInstanceAs (Decidable (∀ a ∈ action.arrival, ∀ _, _ → _ → _ → _ ∧ _))

/-- The bytes are a prefix of the stream. -/
def Heads (streams : Streams) : Allowed := fun i opened bytes => bytes = slice (streams i opened) 0 bytes.length

theorem Heads.append {i : PcbId} {opened size : Nat} {bytes : List Byte} (heads : Heads streams i opened bytes) :
    Heads streams i opened (bytes ++ slice (streams i opened) bytes.length size) := by
  unfold Heads at heads ⊢
  rw [List.length_append, length_slice, slice_add, ← heads, Nat.zero_add]

/-- While the segments arrive in order, each connection receives a prefix of what its peer sends. -/
theorem stream_received (reached : Reaches step (InOrder streams) Initial n trace) (i : PcbId) :
    (flowOf n.log i).delivered = slice (streams i (flowOf n.log i).opened) 0 (flowOf n.log i).delivered.length := by
  have good : Good (Heads streams) n := by
    apply good_run _ _ _ reached
    · exact fun _ _ => rfl
    · intro n trace action ordered a arrived i selected due
      by_cases empty : a.len = 0
      · rw [empty]
        exact Nat.zero_le _
      · exact (ordered a arrived i selected due empty).2
    · intro n trace action good ordered a arrived i selected due
      by_cases empty : a.len = 0
      · rw [empty]
        exact (List.append_nil _).symm ▸ good.told i
      · rw [(ordered a arrived i selected due empty).1.2]
        exact (good.told i).append
  have stored := good.told i
  have taken := List.prefix_iff_eq_take.mp (good.ordered i)
  rw [stored, take_slice] at taken
  rw [taken]
  simp

/-- The peer sends the letters of the alphabet and goes on with the bytes behind them. -/
def alphabet : Streams := fun _ _ k => 97 + BitVec.ofNat 8 k

/-- Two segments in order are received as one word. -/
theorem stream_received_run : ∃ n trace, Reaches step (InOrder alphabet) Initial n trace ∧
    (flowOf n.log 0).delivered = slice (alphabet 0 1) 0 8 := by
  obtain ⟨n, trace, reached, test⟩ := replay_witness step (InOrder alphabet) Initial
    (handshake ++ [peerSegment 1001 1 tcpFlgAck 97 5, peerSegment 1006 1 tcpFlgAck 102 3, .receive 0 20])
    firstNet ⟨rfl, rfl, rfl⟩
    (fun n _ => decide ((flowOf n.log 0).delivered.length = 8 ∧ (flowOf n.log 0).opened = 1)) (by decide +kernel)
  obtain ⟨eight, first⟩ := of_decide_eq_true test
  have received := stream_received reached 0
  rw [eight, first] at received
  exact ⟨n, trace, reached, received⟩

/-- A segment that overlaps the one before it is stored as a whole. -/
theorem overlap_received_twice : ¬∀ streams n trace, Reaches step (Sliced streams) Initial n trace → ∀ i,
    (flowOf n.log i).delivered = slice (streams i (flowOf n.log i).opened) 0 (flowOf n.log i).delivered.length := by
  intro claim
  obtain ⟨n, trace, reached, test⟩ := replay_witness step
    (fun n _ action => ∀ a ∈ action.arrival, ∀ i, tcpPcbSelect n a.localEnd (some a.foreignEnd) = some i →
      TextDue (n.pcbs i) a.seg a.flags → a.len ≠ 0 → ∃ k ∈ List.range 3, Carries alphabet n i a k) Initial
    (handshake ++ [peerSegment 1001 1 tcpFlgAck 97 5, peerSegment 1003 1 tcpFlgAck 99 6, .receive 0 20])
    firstNet ⟨rfl, rfl, rfl⟩
    (fun n _ => decide ((flowOf n.log 0).delivered ≠
      slice (alphabet 0 (flowOf n.log 0).opened) 0 (flowOf n.log 0).delivered.length)) (by decide +kernel)
  have sliced : Reaches step (Sliced alphabet) Initial n trace := by
    apply reached.weaken
    intro n trace action carried a arrived i selected due full
    obtain ⟨k, _, carries⟩ := carried a arrived i selected due full
    exact ⟨k, carries⟩
  exact of_decide_eq_true test (claim alphabet n trace sliced 0)

end BtbuOs.Tcp
