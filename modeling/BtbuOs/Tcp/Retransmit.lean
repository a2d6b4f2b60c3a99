import BtbuOs.Tcp.Paths
import Mathlib.Data.List.TakeWhile

namespace BtbuOs.Tcp

open Bytes Machine Relation

/-- The sequence numbers that a chunk takes, with its SYN and its FIN. -/
def Chunk.len (chunk : Chunk) : Nat :=
  chunk.data.length + (if tcpFlgIsset chunk.flg tcpFlgSyn then 1 else 0) + if tcpFlgIsset chunk.flg tcpFlgFin then 1 else 0

/-- The number belongs to the chunk. -/
def Chunk.contains (chunk : Chunk) (x : Seq) : Prop := (x - chunk.seq).toNat < chunk.len

/-- The number was sent and is not acknowledged. -/
def Unacked (l : Line) (x : Seq) : Prop := x - l.una < l.nxt - l.una

/-- Each number in flight belongs to a chunk of the queue. -/
structure Covered (l : Line) : Prop where
  begun : l.state = .synSent → l.una = l.iss
  held : Receiving l.state → ∀ x, Unacked l x → ∃ chunk ∈ l.queue, chunk.contains x

/-- The chunks before the acknowledgment end before it. -/
def Aligned (queue : List Chunk) (ack : Seq) : Prop :=
  ∀ chunk ∈ queue, chunk.seq < ack → chunk.seq.toNat + chunk.len ≤ ack.toNat

instance (queue : List Chunk) (ack : Seq) : Decidable (Aligned queue ack) :=
  inferInstanceAs (Decidable (∀ chunk ∈ queue, _ → _))

/-- Each acknowledgment that moves `snd.una` falls between two entries of the queue. -/
def Whole (n : Net) (_ : List Event) (action : Action) : Prop :=
  ∀ a ∈ action.arrival, ∀ i, tcpPcbSelect n a.localEnd (some a.foreignEnd) = some i →
    AckMoves (n.pcbs i) a.seg a.flags → Aligned ((n.pcbs i).queue.map QueueEntry.chunk) a.seg.ack

instance (n : Net) (trace : List Event) (action : Action) : Decidable (Whole n trace action) :=
  inferInstanceAs (Decidable (∀ a ∈ action.arrival, ∀ _, _ → _ → _))

/-- A run begins without connections and with memory for each entry. -/
def Start (n : Net) : Prop := Initial n ∧ Granted n

variable {n after : Net} {trace : List Event} {action : Action} {i : PcbId} {l : Line} {ack x : Seq}

/-- A number in flight behind an acknowledgment was in flight before it. -/
theorem unacked_of_acked (low : l.una ≤ ack) (high : ack ≤ l.nxt) (flight : Unacked { l with una := ack } x) :
    Unacked l x ∧ ack ≤ x := by
  unfold Unacked at *
  dsimp only at *
  constructor
  · bv_omega
  · bv_omega

/-- A dropped chunk holds no number from the acknowledgment on. -/
theorem not_contains_of_acked {chunk : Chunk} (before : chunk.seq < ack) (ends : chunk.seq.toNat + chunk.len ≤ ack.toNat)
    (behind : ack ≤ x) : ¬chunk.contains x := by
  unfold Chunk.contains
  generalize chunk.len = len at *
  bv_omega

/-- A chunk of the queue stays behind the cleanup or begins before the acknowledgment. -/
theorem mem_cleanup (ack : Seq) {queue : List Chunk} {chunk : Chunk} (member : chunk ∈ queue) :
    chunk ∈ (queue.dropWhile fun chunk => chunk.seq < ack) ∨ chunk.seq < ack := by
  rw [← List.takeWhile_append_dropWhile (p := fun chunk => decide (chunk.seq < ack)) (l := queue)] at member
  rcases List.mem_append.mp member with dropped | kept
  · have early := List.mem_takeWhile_imp dropped
    exact .inr (of_decide_eq_true early)
  · exact .inl kept

/-- The cleanup after an acknowledgment between two entries keeps each number in flight. -/
theorem Covered.acked (covered : Covered l) (receiving : Receiving l.state) (low : l.una ≤ ack) (high : ack ≤ l.nxt)
    (aligned : Aligned l.queue ack) (flight : Unacked { l with una := ack } x) :
    ∃ chunk ∈ l.queue.dropWhile (fun chunk => chunk.seq < ack), chunk.contains x := by
  obtain ⟨before, behind⟩ := unacked_of_acked low high flight
  obtain ⟨chunk, member, contains⟩ := covered.held receiving x before
  refine ⟨chunk, ?_, contains⟩
  rcases mem_cleanup ack member with kept | early
  · exact kept
  · exact absurd contains (not_contains_of_acked early (aligned chunk member early) behind)

/-- New numbers at the end of the flight belong to their own chunk. -/
theorem Covered.sent (covered : Covered l) (receiving : Receiving l.state) {queue : List Chunk} (size : Nat)
    (kept : l.queue ⊆ queue) (own : 0 < size → ∃ chunk ∈ queue, chunk.seq = l.nxt ∧ size ≤ chunk.len)
    (flight : x - l.una < l.nxt + BitVec.ofNat 32 size - l.una) : ∃ chunk ∈ queue, chunk.contains x := by
  by_cases early : Unacked l x
  · obtain ⟨chunk, member, contains⟩ := covered.held receiving x early
    exact ⟨chunk, kept member, contains⟩
  · have late : (x - l.nxt).toNat < size := by
      unfold Unacked at early
      by_cases short : size < 2 ^ 32
      · bv_omega
      · have bound := (x - l.nxt).isLt
        omega
    obtain ⟨chunk, member, first, room⟩ := own (by omega)
    refine ⟨chunk, member, ?_⟩
    unfold Chunk.contains
    rw [first]
    omega

/-- Each turn keeps the numbers in flight in the queue. -/
theorem Covered.turn (granted : Granted n) (whole : Whole n trace action) {l' : Line} (covered : Covered l)
    (turn : Turn n i action l l') : Covered l' := by
  have same {l' : Line} (state : Receiving l'.state → Receiving l.state) (una : l'.una = l.una) (nxt : l'.nxt = l.nxt)
      (queue : l.queue ⊆ l'.queue) (begun : l'.state = .synSent → l'.una = l'.iss) : Covered l' := by
    refine ⟨begun, fun receiving x flight => ?_⟩
    unfold Unacked at flight
    rw [una, nxt] at flight
    obtain ⟨chunk, member, contains⟩ := covered.held (state receiving) x flight
    exact ⟨chunk, queue member, contains⟩
  have connection (state : PcbState) (is : l.state = state) (receiving : Receiving state) : Receiving l.state := by
    rw [is]
    exact receiving
  cases turn with
  | queued kept => exact same id rfl rfl kept covered.begun
  | gone ended =>
      constructor
      · intro state
        rw [state] at ended
        exact absurd trivial ended
      · exact fun receiving => absurd receiving ended
  | @syn foreignEnd iss queue user kept held =>
      refine ⟨fun _ => rfl, fun _ x flight => ⟨_, held granted, ?_⟩⟩
      unfold Unacked at flight
      unfold Chunk.contains
      simp only [Chunk.len, List.length_nil] at flight ⊢
      rw [if_pos (by decide), if_neg (by decide)]
      bv_omega
  | @passive a iss queue arrived idle flagged kept held =>
      refine ⟨fun state => (by contradiction), fun _ x flight => ⟨_, held granted, ?_⟩⟩
      unfold Unacked at flight
      unfold Chunk.contains
      simp only [Chunk.len, List.length_nil] at flight ⊢
      rw [if_pos (by decide), if_neg (by decide)]
      bv_omega
  | answered chosen state =>
      exact same (fun _ => connection _ state trivial) rfl rfl (List.Subset.refl _) fun state => by contradiction
  | @connected a chosen state known flagged acked above low high =>
      refine ⟨fun state => (by contradiction), fun _ x flight => ?_⟩
      obtain ⟨una, nxt, begun, queue⟩ := known
      have fresh : l.una < a.seg.ack := by rw [covered.begun state]; exact above
      have moves : AckMoves (n.pcbs i) a.seg a.flags := by
        refine ⟨.inl ⟨begun, acked, flagged⟩, ?_, ?_⟩
        · rw [← una]
          exact fresh
        · rw [← nxt]
          exact high
      have aligned := whole a (by rw [chosen.1]; rfl) i chosen.2 moves
      rw [← queue] at aligned
      exact covered.acked (connection _ state trivial) low high aligned flight
  | stale chosen state =>
      exact same (fun _ => connection _ state trivial) rfl rfl (List.Subset.refl _) fun state => by contradiction
  | established chosen state =>
      exact same (fun _ => connection _ state trivial) rfl rfl (List.Subset.refl _) fun state => by contradiction
  | @acked a chosen state taken known =>
      obtain ⟨una, nxt, queue⟩ := known
      have aligned := whole a (by rw [chosen.1]; rfl) i chosen.2 taken
      rw [← queue] at aligned
      have low := taken.2.1
      have high := taken.2.2
      rw [← una] at low
      rw [← nxt] at high
      constructor
      · intro sent
        dsimp only at sent
        simp [sent, takesText] at state
      · intro receiving x flight
        exact covered.acked receiving (BitVec.le_of_lt low) high aligned flight
  | finWait2 state =>
      exact same (fun _ => connection _ state trivial) rfl rfl (List.Subset.refl _) fun state => by contradiction
  | text chosen due full takes =>
      exact same (fun _ => receiving_of_takesText takes) rfl rfl (List.Subset.refl _) covered.begun
  | @fin a next chosen due moves =>
      refine same (receiving_of_afterFin moves) rfl rfl (List.Subset.refl _) fun state => ?_
      dsimp only at state
      rw [state] at moves
      apply covered.begun
      cases was : l.state with
      | synSent => rfl
      | _ =>
          rw [was] at moves
          simp [afterFin] at moves
  | @sent data queue state kept held =>
      have receiving : Receiving l.state := by
        cases state with
        | inl is => exact connection _ is trivial
        | inr is => exact connection _ is trivial
      constructor
      · intro is
        dsimp only at is
        simp [is] at state
      · intro _ x flight
        refine covered.sent receiving data.length kept (fun full => ?_) flight
        refine ⟨_, held granted (List.ne_nil_of_length_pos full), rfl, ?_⟩
        exact Nat.le_trans (Nat.le_add_right _ _) (Nat.le_add_right _ _)
  | @finished next queue state kept held =>
      have receiving : Receiving l.state := by
        cases state with
        | inl is => exact connection _ is.1 trivial
        | inr is => exact connection _ is.1 trivial
      constructor
      · intro is
        dsimp only at is
        simp [is] at state
      · intro _ x flight
        refine covered.sent receiving 1 kept (fun _ => ?_) flight
        refine ⟨_, held granted, rfl, ?_⟩
        have flagged : tcpFlgIsset (tcpFlgAck ||| tcpFlgFin) tcpFlgFin = true := by decide
        simp [Chunk.len, flagged]

/-- A chunk of the queue at the start of the step is still there, or acknowledged as a whole. -/
def Accounted (n : Net) (i : PcbId) (l : Line) : Prop :=
  Receiving l.state → ∀ chunk ∈ (line n i).queue, chunk ∈ l.queue ∨ chunk.seq.toNat + chunk.len ≤ l.una.toNat

/-- The cleanup drops acknowledged chunks only. -/
theorem Accounted.acked (accounted : Accounted n i l) (receiving : Receiving l.state) (low : l.una ≤ ack)
    (aligned : Aligned l.queue ack) {chunk : Chunk} (member : chunk ∈ (line n i).queue) :
    chunk ∈ l.queue.dropWhile (fun chunk => chunk.seq < ack) ∨ chunk.seq.toNat + chunk.len ≤ ack.toNat := by
  cases accounted receiving chunk member with
  | inl still =>
      rcases mem_cleanup ack still with kept | early
      · exact .inl kept
      · exact .inr (aligned chunk still early)
  | inr done => exact .inr (Nat.le_trans done low)

theorem Accounted.turn (whole : Whole n trace action) {l' : Line} (covered : Covered l) (accounted : Accounted n i l)
    (turn : Turn n i action l l') : Accounted n i l' := by
  have same {l' : Line} (state : Receiving l'.state → Receiving l.state) (una : l'.una = l.una)
      (queue : l.queue ⊆ l'.queue) : Accounted n i l' := by
    intro receiving chunk member
    rw [una]
    exact (accounted (state receiving) chunk member).imp_left fun still => queue still
  have connection (state : PcbState) (is : l.state = state) (receiving : Receiving state) : Receiving l.state := by
    rw [is]
    exact receiving
  cases turn with
  | queued kept => exact same id rfl kept
  | gone ended => exact fun receiving => absurd receiving ended
  | syn user kept => exact fun _ chunk member => .inl (kept member)
  | passive arrived idle flagged kept => exact fun _ chunk member => .inl (kept member)
  | answered chosen state => exact same (fun _ => connection _ state trivial) rfl (List.Subset.refl _)
  | @connected a chosen state known flagged acked above low high =>
      obtain ⟨una, nxt, begun, queue⟩ := known
      have fresh : l.una < a.seg.ack := by rw [covered.begun state]; exact above
      have moves : AckMoves (n.pcbs i) a.seg a.flags := by
        refine ⟨.inl ⟨begun, acked, flagged⟩, ?_, ?_⟩
        · rw [← una]
          exact fresh
        · rw [← nxt]
          exact high
      have aligned := whole a (by rw [chosen.1]; rfl) i chosen.2 moves
      rw [← queue] at aligned
      exact fun _ chunk member => accounted.acked (connection _ state trivial) low aligned member
  | stale chosen state => exact same (fun _ => connection _ state trivial) rfl (List.Subset.refl _)
  | established chosen state => exact same (fun _ => connection _ state trivial) rfl (List.Subset.refl _)
  | @acked a chosen state taken known =>
      obtain ⟨una, nxt, queue⟩ := known
      have aligned := whole a (by rw [chosen.1]; rfl) i chosen.2 taken
      rw [← queue] at aligned
      have low := taken.2.1
      rw [← una] at low
      exact fun receiving chunk member => accounted.acked receiving (BitVec.le_of_lt low) aligned member
  | finWait2 state => exact same (fun _ => connection _ state trivial) rfl (List.Subset.refl _)
  | text chosen due full takes => exact same (fun _ => receiving_of_takesText takes) rfl (List.Subset.refl _)
  | fin chosen due moves => exact same (receiving_of_afterFin moves) rfl (List.Subset.refl _)
  | sent state kept =>
      refine same (fun _ => ?_) rfl kept
      cases state with
      | inl is => exact connection _ is trivial
      | inr is => exact connection _ is trivial
  | finished state kept =>
      refine same (fun _ => ?_) rfl kept
      cases state with
      | inl is => exact connection _ is.1 trivial
      | inr is => exact connection _ is.1 trivial

/-- A step keeps the numbers in flight in the queue, and drops acknowledged chunks only. -/
theorem covered_advance (granted : Granted n) (whole : Whole n trace action) (covered : Covered (line n i))
    (advanced : advance n action = some after) : Covered (line after i) ∧ Accounted n i (line after i) := by
  have path := path_advance advanced i
  generalize line after i = last at path
  induction path with
  | refl => exact ⟨covered, fun _ chunk member => .inl member⟩
  | tail _ turn ih => exact ⟨ih.1.turn granted whole turn, ih.2.turn whole ih.1 turn⟩

theorem covered_run (reached : Reaches step Whole Start n trace) : Granted n ∧ ∀ i, Covered (line n i) := by
  apply reached.invariant (fun n _ => Granted n ∧ ∀ i, Covered (line n i))
  · intro n start
    refine ⟨start.2, fun i => ?_⟩
    rw [line_initial start.1]
    exact ⟨fun state => (by contradiction), fun receiving => absurd receiving id⟩
  · intro n trace action after events covered whole stepped
    obtain ⟨final, advanced, result⟩ := Option.map_eq_some_iff.mp stepped
    simp only [Prod.mk.injEq] at result
    rw [← result.1]
    constructor
    · intro attempt
      rw [advance_fate advanced]
      exact covered.1 attempt
    · exact fun i => (covered_advance covered.1 whole (covered.2 i) advanced).1

/-- While each acknowledgment falls between two entries, the queue holds every number in flight, and an entry leaves it only
when its last number is acknowledged. -/
theorem retransmit_queue_holds (reached : Reaches step Whole Start n trace) :
    (∀ i, Receiving (n.pcbs i).state → ∀ x, x - (n.pcbs i).snd.una < (n.pcbs i).snd.nxt - (n.pcbs i).snd.una →
      ∃ entry ∈ (n.pcbs i).queue, entry.chunk.contains x) ∧
    ∀ action after, Whole n trace action → advance n action = some after → ∀ i, Receiving (after.pcbs i).state →
      ∀ entry ∈ (n.pcbs i).queue, (∃ kept ∈ (after.pcbs i).queue, kept.chunk = entry.chunk) ∨
        entry.seq.toNat + entry.chunk.len ≤ (after.pcbs i).snd.una.toNat := by
  obtain ⟨granted, covered⟩ := covered_run reached
  constructor
  · intro i receiving x flight
    obtain ⟨chunk, member, contains⟩ := (covered i).held receiving x flight
    obtain ⟨entry, held, rfl⟩ := List.mem_map.mp member
    exact ⟨entry, held, contains⟩
  · intro action after whole advanced i receiving entry member
    have accounted := (covered_advance granted whole (covered i) advanced).2 receiving entry.chunk (List.mem_map_of_mem member)
    cases accounted with
    | inl still =>
        obtain ⟨kept, held, same⟩ := List.mem_map.mp still
        exact .inl ⟨kept, held, same⟩
    | inr done => exact .inr done

theorem firstNet_start : Start firstNet := ⟨⟨rfl, rfl, rfl⟩, fun _ => rfl⟩

/-- An acknowledgment of the first of two segments leaves the second one in the queue. -/
theorem retransmit_queue_holds_run : ∃ n trace, Reaches step Whole Start n trace ∧ Receiving (n.pcbs 0).state ∧
    (n.pcbs 0).snd.una = 3 ∧ ∀ x, x - (n.pcbs 0).snd.una < (n.pcbs 0).snd.nxt - (n.pcbs 0).snd.una →
      ∃ entry ∈ (n.pcbs 0).queue, entry.chunk.contains x := by
  obtain ⟨n, trace, reached, test⟩ := replay_witness step Whole Start
    (handshake ++ [.send 0 [97, 98], .send 0 [99], peerSegment 1001 3 tcpFlgAck 0 0]) firstNet firstNet_start
    (fun n _ => decide (Receiving (n.pcbs 0).state ∧ (n.pcbs 0).snd.una = 3)) (by decide +kernel)
  obtain ⟨receiving, moved⟩ := of_decide_eq_true test
  exact ⟨n, trace, reached, receiving, moved, (retransmit_queue_holds reached).1 0 receiving⟩

/-- An acknowledgment of two bytes of a segment of four drops the whole entry. -/
theorem partial_acknowledgment_drops : ¬∀ n trace, Reaches step (fun _ _ _ => True) Start n trace →
    ∀ i, Receiving (n.pcbs i).state → ∀ x, x - (n.pcbs i).snd.una < (n.pcbs i).snd.nxt - (n.pcbs i).snd.una →
      ∃ entry ∈ (n.pcbs i).queue, entry.chunk.contains x := by
  intro claim
  obtain ⟨n, trace, reached, test⟩ := replay_witness step (fun _ _ _ => True) Start
    (handshake ++ [.send 0 [97, 98, 99, 100], peerSegment 1001 3 tcpFlgAck 0 0]) firstNet firstNet_start
    (fun n _ => decide (Receiving (n.pcbs 0).state ∧ (n.pcbs 0).queue = [] ∧
      3 - (n.pcbs 0).snd.una < (n.pcbs 0).snd.nxt - (n.pcbs 0).snd.una)) (by decide +kernel)
  obtain ⟨receiving, empty, flight⟩ := of_decide_eq_true test
  obtain ⟨entry, member, _⟩ := claim n trace reached 0 receiving 3 flight
  rw [empty] at member
  contradiction

end BtbuOs.Tcp
