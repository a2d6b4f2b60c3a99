import BtbuOs.Lib.Circle
import BtbuOs.Tcp.Segment

namespace BtbuOs.Tcp

open Circle

variable {p : Pcb} {seg : SegmentInfo} {seq ack : Seq}

/-- The test of an acknowledgment in SYN_SENT that leads to a reset. -/
def synSentRefuses (p : Pcb) (ack : Seq) : Bool := ack ≤ p.iss || p.snd.nxt < ack

/-- The test of an acknowledgment in SYN_SENT and SYN_RECEIVED. -/
def ackInside (p : Pcb) (ack : Seq) : Bool := p.snd.una ≤ ack && ack ≤ p.snd.nxt

/-- The test of an acknowledgment in the synchronized states. -/
def ackAdvances (p : Pcb) (ack : Seq) : Bool := p.snd.una < ack && ack ≤ p.snd.nxt

/-- The decisions of SYN_SENT depend on the acknowledgment by two tests. -/
theorem synSentArrives_tests (n : Net) (i : PcbId) (seg : SegmentInfo) (flags : Flags) (localEnd foreignEnd : Endpoint) :
    synSentArrives n i seg flags localEnd foreignEnd =
      if tcpFlgIsset flags tcpFlgAck && synSentRefuses (n.pcbs i) seg.ack then resetAck n seg localEnd foreignEnd
      else if tcpFlgIsset flags tcpFlgSyn then
        let p := { n.pcbs i with rcv := { (n.pcbs i).rcv with nxt := seg.seq + 1 }, irs := seg.seq }
        finishSynSent n i seg
          (if tcpFlgIsset flags tcpFlgAck && ackInside (n.pcbs i) seg.ack then
            tcpRetransmitQueueCleanup { p with snd := { p.snd with una := seg.ack } } else p)
      else n := rfl

/-- The decision of SYN_RECEIVED is one test. -/
theorem checkAck_test {n : Net} {i : PcbId} {localEnd foreignEnd : Endpoint} (received : (n.pcbs i).state = .synReceived) :
    checkAck n i seg localEnd foreignEnd =
      if ackInside (n.pcbs i) seg.ack then checkSynchronized (joinBacklog (n.setState i .established) i) i seg
      else (resetAck n seg localEnd foreignEnd, false) := by
  unfold checkAck ackInside
  simp only [received, Bool.and_eq_true, decide_eq_true_eq]

/-- An acknowledgment that fails the test of the synchronized states changes no block, or it is answered. -/
theorem acknowledge_test {n : Net} {i : PcbId} (stays : ackAdvances (n.pcbs i) seg.ack = false) :
    acknowledge n i seg = if seg.ack < (n.pcbs i).snd.una then (n, true)
      else if (n.pcbs i).snd.nxt < seg.ack then ((tcpOutput n i tcpFlgAck []).1, false) else (n, true) :=
  if_neg (Bool.eq_false_iff.mp stays)

/-- The number lies in the receive window. -/
def InReceiveWindow (p : Pcb) (seq : Seq) : Prop := Within p.rcv.nxt p.rcv.wnd.toNat seq

instance (p : Pcb) (seq : Seq) : Decidable (InReceiveWindow p seq) := inferInstanceAs (Decidable (Within _ _ _))

/-- The four cases of the table of RFC 793. -/
def Table (p : Pcb) (seg : SegmentInfo) : Prop :=
  if seg.len = 0 then if p.rcv.wnd = 0 then seg.seq = p.rcv.nxt else InReceiveWindow p seg.seq
  else if p.rcv.wnd = 0 then False
  else InReceiveWindow p seg.seq ∨ InReceiveWindow p (seg.seq + seg.len.setWidth 32 - 1)

/-- The receive window ends before the numbers begin again. -/
def Straight (p : Pcb) : Prop := p.rcv.nxt.toNat + p.rcv.wnd.toNat < 2 ^ 32

theorem inReceiveWindow_iff : inWindow p seq = true ↔ InReceiveWindow p seq ∧ Straight p := by
  have bound := p.rcv.wnd.isLt
  have same : p.rcv.wnd.setWidth 32 = BitVec.ofNat 32 p.rcv.wnd.toNat := (BitVec.ofNat_toNat 32 p.rcv.wnd).symm
  rw [inWindow, Bool.and_eq_true, decide_eq_true_eq, decide_eq_true_eq, same]
  exact within_unsigned (Nat.lt_trans bound (by decide))

/-- An open window accepts what the table accepts if it ends before the numbers begin again. -/
theorem acceptable_iff (opened : p.rcv.wnd ≠ 0) : acceptable p seg = true ↔ Table p seg ∧ Straight p := by
  unfold acceptable Table
  rw [if_neg opened, if_neg opened]
  split
  · exact inReceiveWindow_iff
  · rw [Bool.or_eq_true, inReceiveWindow_iff, inReceiveWindow_iff]
    exact or_and_right.symm

/-- A closed window accepts what the table accepts. -/
theorem acceptable_closed (closed : p.rcv.wnd = 0) : acceptable p seg = true ↔ Table p seg := by
  unfold acceptable Table
  rw [if_pos closed, if_pos closed]
  split
  · exact decide_eq_true_iff
  · simp

/-- A window that passes zero accepts nothing. -/
theorem acceptable_wrapped (opened : p.rcv.wnd ≠ 0) (wraps : ¬Straight p) : acceptable p seg = false := by
  rw [Bool.eq_false_iff]
  intro accepted
  exact wraps ((acceptable_iff opened).mp accepted).2

theorem synSentRefuses_iff : synSentRefuses p ack = false ↔ After p.iss p.snd.nxt ack ∧ p.iss ≤ p.snd.nxt := by
  rw [synSentRefuses, Bool.or_eq_false_iff, decide_eq_false_iff_not, decide_eq_false_iff_not, BitVec.not_le, BitVec.not_lt]
  exact after_unsigned

theorem ackInside_iff : ackInside p ack = true ↔ UpTo p.snd.una p.snd.nxt ack ∧ p.snd.una ≤ p.snd.nxt := by
  rw [ackInside, Bool.and_eq_true, decide_eq_true_eq, decide_eq_true_eq]
  exact upTo_unsigned

theorem ackAdvances_iff : ackAdvances p ack = true ↔ After p.snd.una p.snd.nxt ack ∧ p.snd.una ≤ p.snd.nxt := by
  rw [ackAdvances, Bool.and_eq_true, decide_eq_true_eq, decide_eq_true_eq]
  exact after_unsigned

/-- The tests decide as the intervals of the sequence space do. -/
structure Modular (p : Pcb) (seg : SegmentInfo) : Prop where
  window : acceptable p seg = true ↔ Table p seg
  opening : synSentRefuses p seg.ack = false ↔ After p.iss p.snd.nxt seg.ack
  inside : ackInside p seg.ack = true ↔ UpTo p.snd.una p.snd.nxt seg.ack
  advances : ackAdvances p seg.ack = true ↔ After p.snd.una p.snd.nxt seg.ack

/-- No interval that holds a number of the segment passes zero. -/
structure Unwrapped (p : Pcb) (seg : SegmentInfo) : Prop where
  window : p.rcv.wnd ≠ 0 → Table p seg → Straight p
  opening : After p.iss p.snd.nxt seg.ack → p.iss ≤ p.snd.nxt
  unacked : UpTo p.snd.una p.snd.nxt seg.ack → p.snd.una ≤ p.snd.nxt

/-- The tests are exact modulo 2^32 if and only if no interval that holds a number of the segment passes zero. -/
theorem modular_iff_unwrapped (p : Pcb) (seg : SegmentInfo) : Modular p seg ↔ Unwrapped p seg := by
  constructor
  · intro modular
    constructor
    · intro opened
      exact (exact_iff (acceptable_iff opened)).mp modular.window
    · exact (exact_iff synSentRefuses_iff).mp modular.opening
    · exact (exact_iff ackInside_iff).mp modular.inside
  · intro unwrapped
    constructor
    · by_cases closed : p.rcv.wnd = 0
      · exact acceptable_closed closed
      · exact (exact_iff (acceptable_iff closed)).mpr (unwrapped.window closed)
    · exact (exact_iff synSentRefuses_iff).mpr unwrapped.opening
    · exact (exact_iff ackInside_iff).mpr unwrapped.unacked
    · exact (exact_iff ackAdvances_iff).mpr fun after => unwrapped.unacked after.2

/-- The next expected segment of a peer whose numbers are near 2^32. -/
def lateSegment : SegmentInfo := { seq := 0xffffff00, ack := 1, len := 1, wnd := 0, up := 0 }

/-- A connection to this peer, with an open window and no byte under way. -/
def lateBlock : Pcb :=
  { Pcb.zero with state := .established, snd := ⟨1, 1, 0, 0, 0⟩, rcv := ⟨0xffffff00, 65535⟩, irs := 0xfffffeff }

/-- The next segment of the peer is refused. -/
theorem late_segment_refused : acceptable lateBlock lateSegment = false ∧ Table lateBlock lateSegment ∧
    ¬Modular lateBlock lateSegment := by
  have refused : acceptable lateBlock lateSegment = false := by decide
  have listed : Table lateBlock lateSegment := Or.inl (by decide)
  refine ⟨refused, listed, fun modular => ?_⟩
  rw [modular.window.mpr listed] at refused
  contradiction

end BtbuOs.Tcp
