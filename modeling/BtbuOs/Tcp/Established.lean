import BtbuOs.Tcp.Acknowledge

namespace BtbuOs.Tcp

open Bytes Machine Relation

/-- What a run tells about handshakes: the segments that arrive, and the blocks as they enter ESTABLISHED. -/
inductive Notice where
  | arrived (a : Arrival)
  | entered (i : PcbId) (p : Pcb)

/-- The block of a segment as the checks of its acknowledgment leave it, when they are reached. -/
def checkedBlock (n : Net) (i : PcbId) (a : Arrival) : Option Pcb :=
  match (n.pcbs i).state with
  | .synSent => some ((synSentArrives n i a.seg a.flags a.localEnd a.foreignEnd).pcbs i)
  | .synReceived =>
      if Reaching (n.pcbs i) a.seg a.flags then some ((checkAck n i a.seg a.localEnd a.foreignEnd).1.pcbs i) else none
  | _ => none

/-- The block that a segment brings into ESTABLISHED, at that moment. -/
def entries (n : Net) (a : Arrival) : List Notice :=
  match tcpPcbSelect n a.localEnd (some a.foreignEnd) with
  | none => []
  | some i =>
      match checkedBlock n i a with
      | none => []
      | some p => if p.state = .established then [.entered i p] else []

/-- The segment of a step comes before the block that it establishes. -/
def notices (n : Net) (action : Action) : List Notice :=
  match action.arrival with
  | none => []
  | some a => .arrived a :: entries n a

def noticeStep (n : Net) (action : Action) : Option (Net × List Notice) :=
  (advance n action).map fun after => (after, notices n action)

/-- A SYN with this number came from the peer. -/
def SynCame (trace : List Notice) (foreignEnd : Endpoint) (seq : Seq) : Prop :=
  ∃ a, .arrived a ∈ trace ∧ tcpFlgIsset a.flags tcpFlgSyn = true ∧ a.foreignEnd = foreignEnd ∧ a.seg.seq = seq

/-- An acknowledgment of this number came from the peer. -/
def AckCame (trace : List Notice) (foreignEnd : Endpoint) (ack : Seq) : Prop :=
  ∃ a, .arrived a ∈ trace ∧ tcpFlgIsset a.flags tcpFlgAck = true ∧ a.foreignEnd = foreignEnd ∧ a.seg.ack = ack

/-- A block in SYN_RECEIVED gets no acknowledgment of nothing new. -/
def Advancing (n : Net) (_ : List Notice) (action : Action) : Prop :=
  ∀ a ∈ action.arrival, ∀ i, tcpPcbSelect n a.localEnd (some a.foreignEnd) = some i →
    (n.pcbs i).state = .synReceived → Reaching (n.pcbs i) a.seg a.flags → a.seg.ack ≠ (n.pcbs i).snd.una

instance (n : Net) (trace : List Notice) (action : Action) : Decidable (Advancing n trace action) :=
  inferInstanceAs (Decidable (∀ a ∈ action.arrival, ∀ _, _ → _ → _ → _ ≠ _))

/-- What a handshake that goes on has sent and received. -/
structure Handshaking (trace : List Notice) (l : Line) : Prop where
  sent : l.state = .synSent ∨ l.state = .synReceived → l.una = l.iss ∧ l.nxt = l.iss + 1
  received : l.state = .synReceived → l.due = l.irs + 1 ∧ SynCame trace l.foreignEnd l.irs

/-- Both SYNs of the connection are acknowledged, and both segments came from its peer. -/
structure Acknowledged (trace : List Notice) (p : Pcb) : Prop where
  due : p.rcv.nxt = p.irs + 1
  una : p.snd.una = p.iss + 1
  syn : SynCame trace p.foreignEnd p.irs
  ack : AckCame trace p.foreignEnd (p.iss + 1)

variable {n after : Net} {trace later : List Notice} {action : Action} {i : PcbId} {l l' : Line} {a : Arrival}

theorem SynCame.append {foreignEnd : Endpoint} {seq : Seq} (came : SynCame trace foreignEnd seq) :
    SynCame (trace ++ later) foreignEnd seq := by
  obtain ⟨a, member, rest⟩ := came
  exact ⟨a, List.mem_append_left _ member, rest⟩

theorem Handshaking.append (handshaking : Handshaking trace l) : Handshaking (trace ++ later) l :=
  ⟨handshaking.sent, fun state => ⟨(handshaking.received state).1, (handshaking.received state).2.append⟩⟩

/-- The segment of the step has arrived. -/
theorem mem_notices (arrived : action.arrival = some a) : .arrived a ∈ trace ++ notices n action := by
  apply List.mem_append_right
  unfold notices
  rw [arrived]
  exact List.mem_cons_self

/-- Each turn keeps what the handshakes have sent and received. -/
theorem Handshaking.turn (handshaking : Handshaking (trace ++ notices n action) l) (turn : Turn n i action l l') :
    Handshaking (trace ++ notices n action) l' := by
  -- behind the handshake nothing is left to show
  have past {l' : Line} (sent : l'.state ≠ .synSent) (received : l'.state ≠ .synReceived) :
      Handshaking (trace ++ notices n action) l' :=
    ⟨fun state => (state.elim (fun is => absurd is sent) fun is => absurd is received), fun state => absurd state received⟩
  cases turn with
  | queued => exact ⟨handshaking.sent, handshaking.received⟩
  | gone ended =>
      apply past
      · intro state
        rw [state] at ended
        exact ended trivial
      · intro state
        rw [state] at ended
        exact ended trivial
  | syn => exact ⟨fun _ => ⟨rfl, rfl⟩, fun state => (by contradiction)⟩
  | @passive a iss queue arrived idle flagged =>
      exact ⟨fun _ => ⟨rfl, rfl⟩, fun _ => ⟨rfl, a, mem_notices arrived, flagged, rfl, rfl⟩⟩
  | @answered a chosen state flagged peer =>
      refine ⟨fun _ => handshaking.sent (.inl state), fun _ => ⟨rfl, a, mem_notices chosen.1, flagged, peer.symm, rfl⟩⟩
  | connected => exact past (fun state => by contradiction) (fun state => by contradiction)
  | stale => exact past (fun state => by contradiction) (fun state => by contradiction)
  | established => exact past (fun state => by contradiction) (fun state => by contradiction)
  | acked chosen state =>
      apply past
      · intro is
        dsimp only at is
        simp [is, takesText] at state
      · intro is
        dsimp only at is
        simp [is, takesText] at state
  | finWait2 => exact past (fun state => by contradiction) (fun state => by contradiction)
  | text chosen due full takes =>
      apply past
      · intro state
        dsimp only at state
        rw [state] at takes
        contradiction
      · intro state
        dsimp only at state
        rw [state] at takes
        contradiction
  | fin chosen due moves =>
      rcases afterFin_count moves with ⟨rfl, -⟩ | ⟨-, -, -, sent, received⟩
      · refine ⟨handshaking.sent, fun state => ?_⟩
        dsimp only at state
        rw [state] at moves
        simp [afterFin] at moves
      · exact past sent received
  | sent state =>
      apply past
      · intro is
        dsimp only at is
        simp [is] at state
      · intro is
        dsimp only at is
        simp [is] at state
  | finished state =>
      rcases state with ⟨-, rfl⟩ | ⟨-, rfl⟩
      · exact past (fun state => by contradiction) (fun state => by contradiction)
      · exact past (fun state => by contradiction) (fun state => by contradiction)

/-- An acknowledgment of new data moves `snd.una` alone of the numbers. -/
theorem acknowledge_moves {m : Net} (seg : SegmentInfo) (moves : (m.pcbs i).snd.una < seg.ack ∧ seg.ack ≤ (m.pcbs i).snd.nxt) :
    ((acknowledge m i seg).1.pcbs i).snd.una = seg.ack ∧ ((acknowledge m i seg).1.pcbs i).iss = (m.pcbs i).iss ∧
      ((acknowledge m i seg).1.pcbs i).irs = (m.pcbs i).irs ∧
      ((acknowledge m i seg).1.pcbs i).foreignEnd = (m.pcbs i).foreignEnd := by
  unfold acknowledge
  dsimp only
  rw [if_pos (by simpa using moves), Net.setPcb_self]
  split
  · exact ⟨rfl, rfl, rfl, rfl⟩
  · exact ⟨rfl, rfl, rfl, rfl⟩

/-- The block of a SYN|ACK in SYN_SENT, as it enters ESTABLISHED. -/
theorem synSent_acknowledged {p : Pcb} (handshaking : Handshaking trace (line n i))
    (selected : tcpPcbSelect n a.localEnd (some a.foreignEnd) = some i) (state : (n.pcbs i).state = .synSent)
    (checked : (synSentArrives n i a.seg a.flags a.localEnd a.foreignEnd).pcbs i = p) (opened : p.state = .established) :
    Acknowledged (trace ++ [.arrived a]) p := by
  obtain ⟨una, nxt⟩ := handshaking.sent (.inl state)
  have peer : (n.pcbs i).foreignEnd = a.foreignEnd := foreignEnd_of_select selected (by rw [state]; exact fun same => by contradiction)
  have here : Notice.arrived a ∈ trace ++ [.arrived a] := List.mem_append_right _ List.mem_cons_self
  have reset (segment : Segment) : (tcpOutputSegment n segment).1.pcbs = n.pcbs := by
    unfold tcpOutputSegment
    dsimp only
    split <;> rfl
  change (n.pcbs i).snd.una = (n.pcbs i).iss at una
  change (n.pcbs i).snd.nxt = (n.pcbs i).iss + 1 at nxt
  unfold synSentArrives at checked
  dsimp only at checked
  split at checked
  · rw [resetAck, reset] at checked
    rw [← checked, state] at opened
    contradiction
  · rename_i passes
    split at checked
    · rename_i flagged
      split at checked
      · rename_i taken
        simp only [Bool.and_eq_true, decide_eq_true_eq] at taken
        obtain ⟨acked, low, high⟩ := taken
        have above : (n.pcbs i).iss < a.seg.ack := by
          simp only [acked, Bool.true_and, Bool.or_eq_true, decide_eq_true_eq, not_or, BitVec.not_le] at passes
          exact passes.1
        have next : a.seg.ack = (n.pcbs i).iss + 1 := by
          rw [nxt] at high
          bv_omega
        unfold finishSynSent tcpRetransmitQueueCleanup at checked
        dsimp only at checked
        rw [if_pos above] at checked
        generalize written : n.setPcb i _ = mid at checked
        obtain ⟨queue, block⟩ := tcpOutput_pcbs mid i tcpFlgAck [] i
        rw [Net.setPcb_self, block, ← written, Net.setPcb_self] at checked
        rw [← checked]
        exact ⟨rfl, next, ⟨a, here, flagged, peer.symm, rfl⟩, ⟨a, here, acked, peer.symm, next⟩⟩
      · unfold finishSynSent at checked
        dsimp only at checked
        rw [if_neg (by rw [una]; exact BitVec.lt_irrefl _)] at checked
        generalize written : n.setPcb i _ = mid at checked
        obtain ⟨queue, block⟩ := tcpOutput_pcbs mid i (tcpFlgSyn ||| tcpFlgAck) [] i
        rw [block, ← written, Net.setPcb_self] at checked
        rw [← checked] at opened
        contradiction
    · rw [← checked, state] at opened
      contradiction

/-- The block of a new acknowledgment in SYN_RECEIVED, as it enters ESTABLISHED. -/
theorem synReceived_acknowledged {p : Pcb} (handshaking : Handshaking trace (line n i))
    (selected : tcpPcbSelect n a.localEnd (some a.foreignEnd) = some i) (state : (n.pcbs i).state = .synReceived)
    (reaching : Reaching (n.pcbs i) a.seg a.flags) (advances : a.seg.ack ≠ (n.pcbs i).snd.una)
    (checked : (checkAck n i a.seg a.localEnd a.foreignEnd).1.pcbs i = p) (opened : p.state = .established) :
    Acknowledged (trace ++ [.arrived a]) p := by
  obtain ⟨una, nxt⟩ := handshaking.sent (.inr state)
  obtain ⟨due, came⟩ := handshaking.received state
  have peer : (n.pcbs i).foreignEnd = a.foreignEnd := foreignEnd_of_select selected (by rw [state]; exact fun same => by contradiction)
  have here : Notice.arrived a ∈ trace ++ [.arrived a] := List.mem_append_right _ List.mem_cons_self
  have reset (segment : Segment) : (tcpOutputSegment n segment).1.pcbs = n.pcbs := by
    unfold tcpOutputSegment
    dsimp only
    split <;> rfl
  change (n.pcbs i).snd.una = (n.pcbs i).iss at una
  change (n.pcbs i).snd.nxt = (n.pcbs i).iss + 1 at nxt
  unfold checkAck at checked
  dsimp only at checked
  rw [state] at checked
  dsimp only at checked
  split at checked
  · rename_i inside
    obtain ⟨backlog, block⟩ : ∃ backlog, (joinBacklog (n.setState i .established) i).pcbs i =
        { n.pcbs i with state := .established, backlog } := by
      obtain ⟨backlog, same⟩ := joinBacklog_pcbs (n.setState i .established) i i
      exact ⟨backlog, by rw [same, Net.setState, Net.setPcb_self]⟩
    have next : a.seg.ack = (n.pcbs i).iss + 1 := by
      rw [una, nxt] at inside
      rw [una] at advances
      bv_omega
    have moves : (n.pcbs i).snd.una < a.seg.ack ∧ a.seg.ack ≤ (n.pcbs i).snd.nxt := by
      rw [una, nxt] at inside ⊢
      rw [una] at advances
      bv_omega
    generalize joinBacklog (n.setState i .established) i = mid at *
    have rcv := (checkSynchronized_passes mid i a.seg).1
    have kept : (checkSynchronized mid i a.seg).1 = (acknowledge mid i a.seg).1 := by
      unfold checkSynchronized
      dsimp only
      split
      · rw [if_neg]
        rw [(acknowledge_kept mid i a.seg).2, block]
        rintro ⟨impossible, -⟩
        contradiction
      · rfl
    obtain ⟨first, iss, irs, foreignEnd⟩ := acknowledge_moves (i := i) (m := mid) a.seg (by rw [block]; exact moves)
    rw [kept] at checked rcv
    rw [checked] at first iss irs foreignEnd rcv
    rw [block] at iss irs foreignEnd rcv
    refine ⟨?_, ?_, ?_, ?_⟩
    · rw [rcv, irs]
      exact due
    · rw [first, iss]
      exact next
    · rw [foreignEnd, irs]
      exact came.append
    · refine ⟨a, here, reaching.2, ?_, ?_⟩
      · rw [foreignEnd]
        exact peer.symm
      · rw [iss]
        exact next
  · rw [resetAck, reset] at checked
    rw [← checked, state] at opened
    contradiction

/-- A block that enters ESTABLISHED has both SYNs acknowledged. -/
theorem entered_acknowledged {p : Pcb} (handshaking : ∀ i, Handshaking trace (line n i)) (advancing : Advancing n trace action)
    (arrived : action.arrival = some a) (entered : .entered i p ∈ entries n a) : Acknowledged (trace ++ [.arrived a]) p := by
  unfold entries at entered
  split at entered
  · contradiction
  · rename_i k selected
    split at entered
    · contradiction
    · rename_i q checked
      split at entered
      · rename_i opened
        simp only [List.mem_singleton, Notice.entered.injEq] at entered
        obtain ⟨rfl, rfl⟩ := entered
        unfold checkedBlock at checked
        split at checked
        · rename_i state
          exact synSent_acknowledged (handshaking i) selected state (Option.some.inj checked) opened
        · rename_i state
          split at checked
          · rename_i reaching
            have advances := advancing a (by rw [arrived]; rfl) i selected state reaching
            exact synReceived_acknowledged (handshaking i) selected state reaching advances (Option.some.inj checked) opened
          · contradiction
        · contradiction
      · contradiction

/-- A segment brings one block into ESTABLISHED at most. -/
theorem entries_le_one (n : Net) (a : Arrival) : (entries n a).length ≤ 1 := by
  unfold entries
  split
  · exact Nat.zero_le _
  · split
    · exact Nat.zero_le _
    · split
      · exact le_refl _
      · exact Nat.zero_le _

/-- Each block that entered ESTABLISHED had both SYNs acknowledged before. -/
def AllAcknowledged (trace : List Notice) : Prop :=
  ∀ before i p later, trace = before ++ .entered i p :: later → Acknowledged before p

/-- The notices of one more step. -/
theorem AllAcknowledged.step (all : AllAcknowledged trace)
    (entered : ∀ a i p, action.arrival = some a → .entered i p ∈ entries n a → Acknowledged (trace ++ [.arrived a]) p) :
    AllAcknowledged (trace ++ notices n action) := by
  intro before i p later split
  rcases List.append_eq_append_iff.mp split with ⟨extra, whole, rest⟩ | ⟨extra, whole, rest⟩
  · unfold notices at rest
    cases arrived : action.arrival with
    | none =>
        rw [arrived] at rest
        simp at rest
    | some a =>
        rw [arrived] at rest
        cases extra with
        | nil => simp at rest
        | cons first more =>
            simp only [List.cons_append, List.cons.injEq] at rest
            obtain ⟨rfl, rest⟩ := rest
            have one := entries_le_one n a
            rw [rest, List.length_append, List.length_cons] at one
            rw [List.length_eq_zero_iff.mp (by omega : more.length = 0)] at whole rest
            rw [whole]
            exact entered a i p arrived (by rw [rest]; exact List.mem_cons_self)
  · cases extra with
    | nil =>
        unfold notices at rest
        split at rest
        · simp at rest
        · simp at rest
    | cons first more =>
        simp only [List.cons_append, List.cons.injEq] at rest
        rw [← rest.1] at whole
        exact all before i p more whole

/-- Handshakes over whole runs. -/
theorem handshaking_run (reached : Reaches noticeStep Advancing Initial n trace) :
    (∀ i, Handshaking trace (line n i)) ∧ AllAcknowledged trace := by
  apply reached.invariant (fun n trace => (∀ i, Handshaking trace (line n i)) ∧ AllAcknowledged trace)
  · intro n initial
    constructor
    · intro i
      rw [line_initial initial]
      exact ⟨fun state => by rcases state with state | state <;> contradiction, fun state => (by contradiction)⟩
    · intro before i p later split
      simp at split
  · intro n trace action after events kept advancing stepped
    obtain ⟨final, advanced, result⟩ := Option.map_eq_some_iff.mp stepped
    simp only [Prod.mk.injEq] at result
    obtain ⟨rfl, rfl⟩ := result
    constructor
    · intro i
      have path := path_advance advanced i
      have start : Handshaking (trace ++ notices n action) (line n i) := (kept.1 i).append
      generalize line final i = last at path ⊢
      induction path with
      | refl => exact start
      | tail _ turn ih => exact ih.turn turn
    · exact kept.2.step fun a i p arrived entered => entered_acknowledged kept.1 advancing arrived entered

/-- Only a segment that selects its block takes a connection beyond the handshake. -/
theorem chosen_of_synchronized (before : synchronized (n.pcbs i).state = false) (path : Path n i action (line n i) l)
    (behind : synchronized l.state = true) : ∃ a, Chosen n i action a := by
  induction path with
  | refl =>
      change synchronized (n.pcbs i).state = true at behind
      rw [before] at behind
      contradiction
  | @tail mid last _ turn ih =>
      cases turn with
      | queued => exact ih behind
      | gone ended => exact absurd (receiving_of_synchronized behind) ended
      | syn | passive | answered => contradiction
      | connected chosen => exact ⟨_, chosen⟩
      | stale chosen => exact ⟨_, chosen⟩
      | established chosen => exact ⟨_, chosen⟩
      | acked chosen => exact ⟨_, chosen⟩
      | finWait2 state => exact ih (by rw [state]; rfl)
      | text chosen => exact ⟨_, chosen⟩
      | fin chosen => exact ⟨_, chosen⟩
      | sent => exact ih behind
      | finished state =>
          rcases state with ⟨is, -⟩ | ⟨is, -⟩
          · exact ih (by rw [is]; rfl)
          · exact ih (by rw [is]; rfl)

theorem advance_of_arrival (arrived : action.arrival = some a) :
    advance n action = some (tcpSegmentArrives n a.seg a.flags a.data a.len a.localEnd a.foreignEnd) := by
  cases action with
  | input hdr payload len checksum src dst broadcast =>
      change tcpInputArrival hdr payload len checksum src dst broadcast = some a at arrived
      rw [advance, arrived]
      rfl
  | _ => contradiction

/-- A SYN for a block that listens synchronizes nothing. -/
theorem listenArrives_opening {seg : SegmentInfo} {flags : Flags} {localEnd foreignEnd : Endpoint}
    (before : (n.pcbs i).state = .listen) :
    synchronized ((listenArrives n i seg flags localEnd foreignEnd).pcbs i).state = false := by
  have reset (segment : Segment) : (tcpOutputSegment n segment).1.pcbs = n.pcbs := by
    unfold tcpOutputSegment
    dsimp only
    split <;> rfl
  unfold listenArrives
  split
  · rw [before]
    rfl
  · split
    · rw [resetAck, reset, before]
      rfl
    · split
      · cases made : synBlock n i with
        | none =>
            dsimp only
            rw [before]
            rfl
        | some pair =>
            dsimp only
            by_cases own : i = pair.1
            · rw [← own, Net.setPcb_self]
              rfl
            · have other : (pair.2.pcbs i).state = .listen := by
                unfold synBlock at made
                split at made
                · obtain ⟨⟨k, fresh⟩, alloc, rfl⟩ := Option.map_eq_some_iff.mp made
                  obtain ⟨-, rfl⟩ := tcpPcbAlloc_spec alloc
                  dsimp only at own ⊢
                  rw [Net.setPcb_of_ne _ _ own, Net.setPcb_of_ne _ _ own]
                  exact before
                · rw [← Option.some.inj made]
                  exact before
              rw [Net.setPcb_of_ne _ _ own]
              generalize written : Net.emit _ _ = mid
              obtain ⟨queue, block⟩ := tcpOutput_pcbs { mid with draws := mid.draws + 1 } pair.1 (tcpFlgSyn ||| tcpFlgAck) [] i
              rw [block]
              dsimp only
              rw [← written, Net.emit_pcbs, Net.setPcb_of_ne _ _ own, other]
              rfl
      · rw [before]
        rfl

/-- The eighth step takes a block that is not synchronized nowhere, but for SYN_RECEIVED. -/
theorem checkFin_opening {m : Net} {seg : SegmentInfo} {flags : Flags} (before : synchronized (m.pcbs i).state = false)
    (unopened : (m.pcbs i).state ≠ .synReceived) : synchronized ((checkFin m i seg flags).pcbs i).state = false := by
  unfold checkFin
  dsimp only
  split
  · generalize written : m.setPcb i { m.pcbs i with rcv := { (m.pcbs i).rcv with nxt := seg.seq + 1 } } = mid
    obtain ⟨queue, block⟩ := tcpOutput_pcbs mid i tcpFlgAck [] i
    have state : ((tcpOutput mid i tcpFlgAck []).1.pcbs i).state = (m.pcbs i).state := by
      rw [block, ← written, Net.setPcb_self]
    split
    · rename_i is
      exact absurd is unopened
    · rename_i is
      rw [is] at before
      contradiction
    · rename_i is
      rw [is] at before
      contradiction
    · rename_i is
      rw [is] at before
      contradiction
    · rw [state]
      exact before
  · exact before

/-- An arrival in SYN_SENT leads to ESTABLISHED, or the handshake goes on. -/
theorem synSentArrives_opened {seg : SegmentInfo} {flags : Flags} {localEnd foreignEnd : Endpoint}
    (state : (n.pcbs i).state = .synSent)
    (behind : synchronized ((synSentArrives n i seg flags localEnd foreignEnd).pcbs i).state = true) :
    ((synSentArrives n i seg flags localEnd foreignEnd).pcbs i).state = .established := by
  have reset (segment : Segment) : (tcpOutputSegment n segment).1.pcbs = n.pcbs := by
    unfold tcpOutputSegment
    dsimp only
    split <;> rfl
  have finished (p : Pcb) (behind : synchronized ((finishSynSent n i seg p).pcbs i).state = true) :
      ((finishSynSent n i seg p).pcbs i).state = .established := by
    unfold finishSynSent at behind ⊢
    dsimp only at behind ⊢
    split at behind
    · rename_i above
      rw [if_pos above, Net.setPcb_self]
      obtain ⟨queue, block⟩ := tcpOutput_pcbs (n.setPcb i { p with state := .established }) i tcpFlgAck [] i
      rw [block, Net.setPcb_self]
    · obtain ⟨queue, block⟩ := tcpOutput_pcbs (n.setPcb i { p with state := .synReceived }) i (tcpFlgSyn ||| tcpFlgAck) [] i
      rw [block, Net.setPcb_self] at behind
      contradiction
  unfold synSentArrives at behind ⊢
  dsimp only at behind ⊢
  split at behind
  · rw [resetAck, reset, state] at behind
    contradiction
  · rename_i passes
    rw [if_neg passes]
    split at behind
    · rename_i flagged
      rw [if_pos flagged]
      exact finished _ behind
    · rw [state] at behind
      contradiction

/-- The fifth check in SYN_RECEIVED establishes the connection, or the segment goes no further. -/
theorem checkAck_opened (seg : SegmentInfo) (localEnd foreignEnd : Endpoint) (state : (n.pcbs i).state = .synReceived) :
    ((checkAck n i seg localEnd foreignEnd).1.pcbs i).state = .established ∨
      (checkAck n i seg localEnd foreignEnd).2 = false ∧ (checkAck n i seg localEnd foreignEnd).1.pcbs = n.pcbs := by
  have reset (segment : Segment) : (tcpOutputSegment n segment).1.pcbs = n.pcbs := by
    unfold tcpOutputSegment
    dsimp only
    split <;> rfl
  unfold checkAck
  dsimp only
  rw [state]
  dsimp only
  split
  · left
    obtain ⟨backlog, block⟩ : ∃ backlog, (joinBacklog (n.setState i .established) i).pcbs i =
        { n.pcbs i with state := .established, backlog } := by
      obtain ⟨backlog, same⟩ := joinBacklog_pcbs (n.setState i .established) i i
      exact ⟨backlog, by rw [same, Net.setState, Net.setPcb_self]⟩
    generalize joinBacklog (n.setState i .established) i = mid at *
    have kept := (acknowledge_kept mid i seg).2
    rw [block] at kept
    unfold checkSynchronized
    dsimp only
    split
    · rw [if_neg]
      · exact kept
      · rintro ⟨last, -⟩
        rw [kept] at last
        contradiction
    · exact kept
  · right
    exact ⟨rfl, reset _⟩

/-- A segment that takes its block beyond the handshake brings it into ESTABLISHED. -/
theorem entered_of_synchronized (chosen : Chosen n i action a) (before : synchronized (n.pcbs i).state = false)
    (behind : synchronized ((tcpSegmentArrives n a.seg a.flags a.data a.len a.localEnd a.foreignEnd).pcbs i).state = true) :
    ∃ p, .entered i p ∈ entries n a := by
  have reset (segment : Segment) : (tcpOutputSegment n segment).1.pcbs = n.pcbs := by
    unfold tcpOutputSegment
    dsimp only
    split <;> rfl
  have refused : (resetReply n a.seg a.flags a.localEnd a.foreignEnd).pcbs = n.pcbs := by
    unfold resetReply
    split
    · rfl
    · split
      · exact reset _
      · exact reset _
  have found {p : Pcb} (checked : checkedBlock n i a = some p) (opened : p.state = .established) :
      ∃ p, .entered i p ∈ entries n a := by
    refine ⟨p, ?_⟩
    unfold entries
    rw [chosen.2]
    dsimp only
    rw [checked]
    dsimp only
    rw [if_pos opened]
    exact List.mem_cons_self
  unfold tcpSegmentArrives at behind
  rw [chosen.2] at behind
  dsimp only at behind
  split at behind
  · rw [refused, before] at behind
    contradiction
  · rename_i state
    rw [listenArrives_opening state] at behind
    contradiction
  · rename_i state
    exact found (by rw [checkedBlock, state]) (synSentArrives_opened state behind)
  · split at behind
    · split at behind
      · rw [before] at behind
        contradiction
      · obtain ⟨queue, block⟩ := tcpOutput_pcbs n i tcpFlgAck [] i
        rw [block] at behind
        dsimp only at behind
        rw [before] at behind
        contradiction
    · split at behind
      · rw [before] at behind
        contradiction
      · rename_i unclosed unlistening unsent passes acked
        have reaching : Reaching (n.pcbs i) a.seg a.flags := by
          constructor
          · intro checks
            simpa [checks] using passes
          · simpa using acked
        cases state : (n.pcbs i).state with
        | closed => exact absurd state unclosed
        | listen => exact absurd state unlistening
        | synSent => exact absurd state unsent
        | free =>
            have same : checkAck n i a.seg a.localEnd a.foreignEnd = (n, true) := by
              unfold checkAck
              dsimp only
              rw [state]
            rw [same] at behind
            dsimp only at behind
            rw [if_pos rfl] at behind
            have kept := (processText_kept n i a.seg a.data a.len).1
            rw [checkFin_opening (by rw [kept]; exact before) (by rw [kept, state]; exact fun is => by contradiction)] at behind
            contradiction
        | synReceived =>
            cases checkAck_opened a.seg a.localEnd a.foreignEnd state with
            | inl opened =>
                apply found _ opened
                rw [checkedBlock, state]
                dsimp only
                rw [if_pos reaching]
            | inr stopped =>
                rw [stopped.1] at behind
                rw [if_neg Bool.false_ne_true, stopped.2, before] at behind
                contradiction
        | _ =>
            rw [state] at before
            contradiction

/-- While a block in SYN_RECEIVED gets no acknowledgment of nothing new, each connection is established after both SYNs are
acknowledged, and a connection gets beyond the handshake in no other way. -/
theorem established_after_both_syns (reached : Reaches noticeStep Advancing Initial n trace) :
    (∀ before i p later, trace = before ++ .entered i p :: later →
      p.rcv.nxt = p.irs + 1 ∧ p.snd.una = p.iss + 1 ∧ SynCame before p.foreignEnd p.irs ∧
        AckCame before p.foreignEnd (p.iss + 1)) ∧
    ∀ action after, advance n action = some after → ∀ i, synchronized (n.pcbs i).state = false →
      synchronized (after.pcbs i).state = true → ∃ p, .entered i p ∈ notices n action := by
  constructor
  · intro before i p later split
    have acknowledged := (handshaking_run reached).2 before i p later split
    exact ⟨acknowledged.due, acknowledged.una, acknowledged.syn, acknowledged.ack⟩
  · intro action after advanced i before behind
    obtain ⟨a, chosen⟩ := chosen_of_synchronized before (path_advance advanced i) behind
    rw [advance_of_arrival chosen.1] at advanced
    rw [← Option.some.inj advanced] at behind
    obtain ⟨p, entered⟩ := entered_of_synchronized chosen before behind
    refine ⟨p, ?_⟩
    unfold notices
    rw [chosen.1]
    exact List.mem_cons_of_mem _ entered

/-- The notice of a block in ESTABLISHED whose own SYN is not acknowledged. -/
def Notice.unacknowledged : Notice → Bool
  | .entered _ p => p.snd.una ≠ p.iss + 1
  | .arrived _ => false

def Notice.enters : Notice → Bool
  | .entered _ _ => true
  | .arrived _ => false

/-- A passive open is established by the acknowledgment of its SYN. -/
theorem established_after_both_syns_run : ∃ n before i p, Reaches noticeStep Advancing Initial n (before ++ [.entered i p]) ∧
    p.snd.una = p.iss + 1 := by
  obtain ⟨n, trace, reached, test⟩ := replay_witness noticeStep Advancing Initial handshake firstNet ⟨rfl, rfl, rfl⟩
    (fun _ trace => trace.getLast?.any Notice.enters) (by decide +kernel)
  rw [Option.any_eq_true] at test
  obtain ⟨notice, last, enters⟩ := test
  obtain ⟨before, rfl⟩ := List.getLast?_eq_some_iff.mp last
  cases notice with
  | arrived a => contradiction
  | entered i p =>
      have acknowledged := (established_after_both_syns reached).1 before i p [] rfl
      exact ⟨n, before, i, p, reached, acknowledged.2.1⟩

/-- An acknowledgment of nothing establishes a connection in SYN_RECEIVED. -/
theorem own_syn_unacknowledged : ¬∀ n trace, Reaches noticeStep (fun _ _ _ => True) Initial n trace →
    ∀ before i p later, trace = before ++ .entered i p :: later →
      p.rcv.nxt = p.irs + 1 ∧ p.snd.una = p.iss + 1 ∧ SynCame before p.foreignEnd p.irs ∧
        AckCame before p.foreignEnd (p.iss + 1) := by
  intro claim
  obtain ⟨n, trace, reached, test⟩ := replay_witness noticeStep (fun _ _ _ => True) Initial
    [.openRfc793 ⟨0x0a000001, 80⟩ none false, peerSegment 1000 0 tcpFlgSyn 0 0, peerSegment 1001 0 tcpFlgAck 0 0]
    firstNet ⟨rfl, rfl, rfl⟩ (fun _ trace => trace.any Notice.unacknowledged) (by decide +kernel)
  obtain ⟨notice, member, unacknowledged⟩ := List.any_eq_true.mp test
  obtain ⟨before, later, split⟩ := List.append_of_mem member
  cases notice with
  | arrived a => contradiction
  | entered i p => exact of_decide_eq_true unacknowledged (claim n trace reached before i p later split).2.1

end BtbuOs.Tcp
