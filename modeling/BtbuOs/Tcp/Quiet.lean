import BtbuOs.Tcp.User

namespace BtbuOs.Tcp

open Bytes

/-- The states of a connection that may still have bytes in its buffer. -/
def Receiving : PcbState → Prop
  | .free | .closed | .listen => False
  | _ => True

instance : (state : PcbState) → Decidable (Receiving state)
  | .free | .closed | .listen => inferInstanceAs (Decidable False)
  | .synSent | .synReceived | .established | .finWait1 | .finWait2 | .closing | .timeWait | .closeWait | .lastAck =>
      inferInstanceAs (Decidable True)

/-- The event moves no bytes. -/
def Event.calm : Event → Bool
  | .sent _ | .returned _ => true
  | .opened _ | .stored _ _ _ _ | .received _ _ => false

/-- The number of connections a block has begun, the bytes that the last one put into its buffer, and those received from
it. -/
structure Flow where
  opened : Nat
  stored : List Byte
  delivered : List Byte

/-- An event of the block changes its flow; a new connection starts an empty one. -/
def Flow.account (i : PcbId) (flow : Flow) : Event → Flow
  | .opened j => if j = i then ⟨flow.opened + 1, [], []⟩ else flow
  | .stored j _ _ text => if j = i then { flow with stored := flow.stored ++ text } else flow
  | .received j bytes => if j = i then { flow with delivered := flow.delivered ++ bytes } else flow
  | .sent _ | .returned _ => flow

/-- The flow of the last connection of a block. -/
def flowOf (log : List Event) (i : PcbId) : Flow := log.foldl (Flow.account i) ⟨0, [], []⟩

theorem flowOf_append (log extra : List Event) (i : PcbId) :
    flowOf (log ++ extra) i = extra.foldl (Flow.account i) (flowOf log i) := List.foldl_append

theorem flowOf_calm {log extra : List Event} (calm : ∀ event ∈ extra, event.calm = true) (i : PcbId) :
    flowOf (log ++ extra) i = flowOf log i := by
  rw [flowOf_append]
  induction extra with
  | nil => rfl
  | cons event rest ih =>
      have first := calm event List.mem_cons_self
      have later := ih fun event member => calm event (List.mem_cons_of_mem _ member)
      rw [List.foldl_cons]
      cases event with
      | sent segment => exact later
      | returned value => exact later
      | opened j => simp [Event.calm] at first
      | stored j place wnd text => simp [Event.calm] at first
      | received j bytes => simp [Event.calm] at first

/-- No bytes move, and the connections that remain keep their buffers. -/
structure Quiet (n after : Net) : Prop where
  log : ∃ extra, after.log = n.log ++ extra ∧ ∀ event ∈ extra, event.calm = true
  kept : ∀ i, Receiving (after.pcbs i).state → Receiving (n.pcbs i).state ∧
    (after.pcbs i).rcv.wnd = (n.pcbs i).rcv.wnd ∧ (after.pcbs i).buf = (n.pcbs i).buf

variable {n mid after : Net} {i : PcbId}

theorem Quiet.refl (n : Net) : Quiet n n :=
  ⟨⟨[], (List.append_nil _).symm, by simp⟩, fun _ receiving => ⟨receiving, rfl, rfl⟩⟩

theorem Quiet.trans (first : Quiet n mid) (second : Quiet mid after) : Quiet n after := by
  constructor
  · obtain ⟨early, equal, calm⟩ := first.log
    obtain ⟨late, same, still⟩ := second.log
    refine ⟨early ++ late, by rw [same, equal, List.append_assoc], fun event member => ?_⟩
    rcases List.mem_append.mp member with before | behind
    · exact calm event before
    · exact still event behind
  · intro i receiving
    obtain ⟨was, wnd, buf⟩ := second.kept i receiving
    obtain ⟨earlier, before, same⟩ := first.kept i was
    exact ⟨earlier, wnd.trans before, buf.trans same⟩

theorem Quiet.flow (quiet : Quiet n after) (i : PcbId) : flowOf after.log i = flowOf n.log i := by
  obtain ⟨extra, log, calm⟩ := quiet.log
  rw [log, flowOf_calm calm]

/-- A write to one block that keeps its buffer and begins no connection. -/
theorem quiet_setPcb {p : Pcb} (kept : Receiving p.state → Receiving (n.pcbs i).state ∧
    p.rcv.wnd = (n.pcbs i).rcv.wnd ∧ p.buf = (n.pcbs i).buf) : Quiet n (n.setPcb i p) := by
  constructor
  · exact (Quiet.refl n).log
  · intro j receiving
    by_cases own : j = i
    · subst own
      rw [Net.setPcb_self] at receiving ⊢
      exact kept receiving
    · rw [Net.setPcb_of_ne n p own] at receiving ⊢
      exact ⟨receiving, rfl, rfl⟩

theorem quiet_setState {state : PcbState} (kept : Receiving state → Receiving (n.pcbs i).state) :
    Quiet n (n.setState i state) :=
  quiet_setPcb fun receiving => ⟨kept receiving, rfl, rfl⟩

theorem quiet_close (n : Net) (i : PcbId) : Quiet n (n.setState i .closed) := quiet_setState fun receiving => absurd receiving id

/-- A change of the other parts of the network. -/
theorem quiet_of_same {extra : List Event} (pcbs : after.pcbs = n.pcbs) (log : after.log = n.log ++ extra)
    (calm : ∀ event ∈ extra, event.calm = true) : Quiet n after := by
  constructor
  · exact ⟨extra, log, calm⟩
  · intro i receiving
    rw [pcbs] at receiving ⊢
    exact ⟨receiving, rfl, rfl⟩

theorem quiet_emit {event : Event} (calm : event.calm = true) : Quiet n (n.emit event) := by
  apply quiet_of_same (n.emit_pcbs event) (n.emit_log event)
  intro other member
  rw [List.mem_singleton.mp member]
  exact calm

theorem quiet_foldl {Item : Type} {round : Net → Item → Net} (quiet : ∀ n item, Quiet n (round n item))
    (items : List Item) (n : Net) : Quiet n (items.foldl round n) := by
  induction items generalizing n with
  | nil => exact Quiet.refl n
  | cons item rest ih => exact (quiet n item).trans (ih _)

theorem quiet_release (rounds : Nat) :
    ∀ (n : Net) (i : PcbId), Quiet n (drainBacklog rounds n i) ∧ Quiet n (releaseWithin rounds n i) := by
  induction rounds with
  | zero =>
      intro n i
      simp only [drainBacklog, releaseWithin]
      exact ⟨Quiet.refl n, Quiet.refl n⟩
  | succ rounds ih =>
      intro n i
      constructor
      · simp only [drainBacklog]
        split
        · exact Quiet.refl n
        · rename_i est rest _
          have popped : Quiet n (n.setPcb i { n.pcbs i with backlog := rest }) :=
            quiet_setPcb fun receiving => ⟨receiving, rfl, rfl⟩
          exact (popped.trans (ih _ _).2).trans (ih _ _).1
      · simp only [releaseWithin]
        split
        · exact Quiet.refl n
        · have emptied : Quiet n (n.setPcb i { n.pcbs i with queue := [] }) :=
            quiet_setPcb fun receiving => ⟨receiving, rfl, rfl⟩
          exact (emptied.trans (ih _ _).1).trans (quiet_setPcb fun receiving => absurd receiving id)

theorem quiet_tcpPcbRelease (n : Net) (i : PcbId) : Quiet n (tcpPcbRelease n i) := (quiet_release _ n i).2

theorem quiet_tcpOutputSegment (n : Net) (segment : Segment) : Quiet n (tcpOutputSegment n segment).1 := by
  unfold tcpOutputSegment
  dsimp only
  split
  · exact quiet_of_same rfl rfl (by simp [Event.calm])
  · exact quiet_of_same rfl (List.append_nil _).symm (by simp)

theorem quiet_tcpRetransmitQueueAdd (n : Net) (i : PcbId) (seq : Seq) (flg : Flags) (data : List Byte) :
    Quiet n (tcpRetransmitQueueAdd n i seq flg data) := by
  unfold tcpRetransmitQueueAdd
  split
  · exact quiet_setPcb fun receiving => ⟨receiving, rfl, rfl⟩
  · exact Quiet.refl n

theorem quiet_tcpOutput (n : Net) (i : PcbId) (flg : Flags) (data : List Byte) : Quiet n (tcpOutput n i flg data).1 := by
  unfold tcpOutput
  dsimp only
  split
  · exact (quiet_tcpRetransmitQueueAdd _ _ _ _ _).trans (quiet_tcpOutputSegment _ _)
  · exact quiet_tcpOutputSegment _ _

/-- An output leaves the blocks alone but for the queue of its own. -/
theorem tcpOutput_pcbs (n : Net) (i : PcbId) (flg : Flags) (data : List Byte) (j : PcbId) :
    ∃ queue, (tcpOutput n i flg data).1.pcbs j = { n.pcbs j with queue } := by
  have sent (n : Net) (segment : Segment) : (tcpOutputSegment n segment).1.pcbs = n.pcbs := by
    unfold tcpOutputSegment
    dsimp only
    split <;> rfl
  unfold tcpOutput
  dsimp only
  rw [sent]
  split
  · unfold tcpRetransmitQueueAdd
    split
    · by_cases own : j = i
      · subst own
        exact ⟨_, Function.update_self _ _ _⟩
      · exact ⟨_, Function.update_of_ne own _ _⟩
    · exact ⟨_, rfl⟩
  · exact ⟨_, rfl⟩

theorem quiet_tcpTimer (n : Net) : Quiet n (tcpTimer n) := by
  apply quiet_foldl
  intro n i
  unfold tcpTimerBlock
  split
  · exact Quiet.refl n
  · apply quiet_foldl
    intro n index
    unfold tcpRetransmitQueueEmit
    split
    · exact Quiet.refl n
    · split
      · exact quiet_close n i
      · split
        · exact (quiet_tcpOutputSegment _ _).trans (quiet_setPcb fun receiving => ⟨receiving, rfl, rfl⟩)
        · exact Quiet.refl n

theorem quiet_eventHandler (n : Net) : Quiet n (eventHandler n) := by
  constructor
  · exact (Quiet.refl n).log
  · intro i receiving
    unfold eventHandler at receiving ⊢
    dsimp only at receiving ⊢
    split
    · rename_i free
      rw [if_pos free] at receiving
      exact ⟨receiving, rfl, rfl⟩
    · rename_i used
      rw [if_neg used] at receiving
      exact ⟨receiving, rfl, rfl⟩

theorem quiet_resetReply (n : Net) (seg : SegmentInfo) (flags : Flags) (localEnd foreignEnd : Endpoint) :
    Quiet n (resetReply n seg flags localEnd foreignEnd) := by
  unfold resetReply
  split
  · exact Quiet.refl n
  · split
    · exact quiet_tcpOutputSegment _ _
    · exact quiet_tcpOutputSegment _ _

theorem quiet_resetAck (n : Net) (seg : SegmentInfo) (localEnd foreignEnd : Endpoint) :
    Quiet n (resetAck n seg localEnd foreignEnd) := quiet_tcpOutputSegment _ _

theorem quiet_finishSynSent {seg : SegmentInfo} {p : Pcb} (begun : Receiving (n.pcbs i).state)
    (wnd : p.rcv.wnd = (n.pcbs i).rcv.wnd) (buf : p.buf = (n.pcbs i).buf) : Quiet n (finishSynSent n i seg p) := by
  have reply (state : PcbState) (flg : Flags) : Quiet n (tcpOutput (n.setPcb i { p with state }) i flg []).1 := by
    have written : Quiet n (n.setPcb i { p with state }) := quiet_setPcb fun _ => ⟨begun, wnd, buf⟩
    exact written.trans (quiet_tcpOutput _ _ _ _)
  unfold finishSynSent
  dsimp only
  split
  · apply (reply .established tcpFlgAck).trans
    exact quiet_setPcb fun receiving => ⟨receiving, rfl, rfl⟩
  · exact reply _ _

theorem quiet_synSentArrives {seg : SegmentInfo} {flags : Flags} {localEnd foreignEnd : Endpoint}
    (state : (n.pcbs i).state = .synSent) : Quiet n (synSentArrives n i seg flags localEnd foreignEnd) := by
  unfold synSentArrives
  dsimp only
  split
  · exact quiet_resetAck _ _ _ _
  · split
    · apply quiet_finishSynSent
      · simp [state, Receiving]
      · split <;> rfl
      · split <;> rfl
    · exact Quiet.refl n

/-- The fields that an acknowledgment leaves alone. -/
theorem acknowledge_kept (n : Net) (i : PcbId) (seg : SegmentInfo) :
    Quiet n (acknowledge n i seg).1 ∧ ((acknowledge n i seg).1.pcbs i).state = (n.pcbs i).state := by
  unfold acknowledge
  dsimp only
  split
  · constructor
    · apply quiet_setPcb
      split
      · exact fun receiving => ⟨receiving, rfl, rfl⟩
      · exact fun receiving => ⟨receiving, rfl, rfl⟩
    · rw [Net.setPcb_self]
      split <;> rfl
  · split
    · exact ⟨Quiet.refl n, rfl⟩
    · split
      · obtain ⟨queue, same⟩ := tcpOutput_pcbs n i tcpFlgAck [] i
        exact ⟨quiet_tcpOutput _ _ _ _, by rw [same]⟩
      · exact ⟨Quiet.refl n, rfl⟩

/-- The acknowledgment lets the segment pass unless it is ahead of what was sent. -/
theorem acknowledge_continues (n : Net) (i : PcbId) (seg : SegmentInfo) :
    (acknowledge n i seg).2 = true ↔ seg.ack < (n.pcbs i).snd.una ∨ seg.ack ≤ (n.pcbs i).snd.nxt := by
  unfold acknowledge
  dsimp only
  split
  · rename_i fresh
    simp only [Bool.and_eq_true, decide_eq_true_eq] at fresh
    simp [fresh.2]
  · split
    · rename_i old
      simp [old]
    · rename_i recent
      split
      · rename_i ahead
        simp only [recent, false_or, Bool.false_eq_true, false_iff, BitVec.not_le]
        exact ahead
      · rename_i known
        simp only [recent, false_or, true_iff]
        exact BitVec.not_lt.mp known

/-- The rest of the fifth check keeps whether text is taken. -/
theorem checkSynchronized_kept (n : Net) (i : PcbId) (seg : SegmentInfo) :
    Quiet n (checkSynchronized n i seg).1 ∧
      takesText ((checkSynchronized n i seg).1.pcbs i).state = takesText (n.pcbs i).state ∧
      (checkSynchronized n i seg).2 = (acknowledge n i seg).2 := by
  obtain ⟨quiet, state⟩ := acknowledge_kept n i seg
  unfold checkSynchronized
  dsimp only
  split
  · rename_i continues
    split
    · rename_i last
      refine ⟨quiet.trans (quiet_setState fun _ => by simp [last.1, Receiving]), ?_, continues.symm⟩
      rw [Net.setState, Net.setPcb_self, ← state, last.1]
      rfl
    · exact ⟨quiet, by rw [state], continues.symm⟩
  · rename_i stops
    exact ⟨quiet, by rw [state], (Bool.eq_false_iff.mpr stops).symm⟩

theorem quiet_joinBacklog (n : Net) (i : PcbId) : Quiet n (joinBacklog n i) := by
  unfold joinBacklog
  split
  · exact Quiet.refl n
  · split
    · exact quiet_setPcb fun receiving => ⟨receiving, rfl, rfl⟩
    · exact Quiet.refl n

/-- The backlog of the parent is all that changes. -/
theorem joinBacklog_pcbs (n : Net) (i j : PcbId) : ∃ backlog, (joinBacklog n i).pcbs j = { n.pcbs j with backlog } := by
  unfold joinBacklog
  split
  · exact ⟨_, rfl⟩
  · rename_i parent _
    split
    · by_cases own : j = parent
      · subst own
        exact ⟨_, Net.setPcb_self _ _ _⟩
      · exact ⟨_, Net.setPcb_of_ne _ _ own⟩
    · exact ⟨_, rfl⟩

/-- The acknowledgment lets text pass in a state that takes it. -/
def AckAllows (p : Pcb) (seg : SegmentInfo) : Prop :=
  (p.state = .synReceived ∧ p.snd.una ≤ seg.ack ∧ seg.ack ≤ p.snd.nxt) ∨
    (takesText p.state = true ∧ (seg.ack < p.snd.una ∨ seg.ack ≤ p.snd.nxt))

instance (p : Pcb) (seg : SegmentInfo) : Decidable (AckAllows p seg) := inferInstanceAs (Decidable (_ ∨ _))

/-- The fifth check lets text pass exactly when the acknowledgment allows it. -/
theorem checkAck_kept (n : Net) (i : PcbId) (seg : SegmentInfo) (localEnd foreignEnd : Endpoint) :
    Quiet n (checkAck n i seg localEnd foreignEnd).1 ∧
      ((checkAck n i seg localEnd foreignEnd).2 = true ∧
          takesText ((checkAck n i seg localEnd foreignEnd).1.pcbs i).state = true ↔ AckAllows (n.pcbs i) seg) := by
  have synchronized := checkSynchronized_kept n i seg
  have continues := acknowledge_continues n i seg
  unfold checkAck AckAllows
  dsimp only
  cases state : (n.pcbs i).state with
  | synReceived =>
      dsimp only
      split
      · rename_i inside
        have opened : Quiet n (n.setState i .established) := quiet_setState fun _ => by simp [state, Receiving]
        obtain ⟨backlog, block⟩ := joinBacklog_pcbs (n.setState i .established) i i
        rw [Net.setState, Net.setPcb_self] at block
        obtain ⟨quiet, takes, same⟩ := checkSynchronized_kept (joinBacklog (n.setState i .established) i) i seg
        refine ⟨(opened.trans (quiet_joinBacklog _ _)).trans quiet, ?_⟩
        have passes := acknowledge_continues (joinBacklog (n.setState i .established) i) i seg
        simp only [Net.setState] at takes same passes ⊢
        rw [takes, same, passes, block]
        simp [inside, takesText]
      · rename_i outside
        exact ⟨quiet_resetAck _ _ _ _, by simp [outside, takesText]⟩
  | established | finWait1 | finWait2 =>
      dsimp only
      rw [synchronized.2.1, synchronized.2.2, continues, state]
      exact ⟨synchronized.1, by simp [takesText]⟩
  | closeWait =>
      dsimp only
      rw [synchronized.2.1, state]
      exact ⟨synchronized.1, by simp [takesText]⟩
  | lastAck =>
      dsimp only
      split
      · exact ⟨(quiet_close n _).trans (quiet_tcpPcbRelease _ _), by simp [takesText]⟩
      · exact ⟨Quiet.refl n, by simp [takesText]⟩
  | free | closed | listen | synSent | closing | timeWait =>
      exact ⟨Quiet.refl n, by simp [state, takesText]⟩

theorem quiet_checkFin (n : Net) (i : PcbId) (seg : SegmentInfo) (flags : Flags) : Quiet n (checkFin n i seg flags) := by
  unfold checkFin
  dsimp only
  split
  · have replied := (quiet_setPcb (n := n) (i := i)
      (p := { n.pcbs i with rcv := { (n.pcbs i).rcv with nxt := seg.seq + 1 } })
      fun receiving => ⟨receiving, rfl, rfl⟩).trans (quiet_tcpOutput _ i tcpFlgAck [])
    obtain ⟨queue, block⟩ := tcpOutput_pcbs
      (n.setPcb i { n.pcbs i with rcv := { (n.pcbs i).rcv with nxt := seg.seq + 1 } }) i tcpFlgAck [] i
    rw [Net.setPcb_self] at block
    have still (next : PcbState) (begun : Receiving (n.pcbs i).state) : Quiet n (Net.setState _ i next) :=
      replied.trans (quiet_setState fun _ => by rw [block]; exact begun)
    split
    · rename_i state
      exact still _ (by simp [state, Receiving])
    · rename_i state
      exact still _ (by simp [state, Receiving])
    · rename_i state
      exact still _ (by simp [state, Receiving])
    · rename_i state
      exact still _ (by simp [state, Receiving])
    · exact replied
  · exact Quiet.refl n

theorem quiet_tcpPcbAlloc (alloc : tcpPcbAlloc n = some (i, after)) : Quiet n after := by
  unfold tcpPcbAlloc at alloc
  split at alloc
  · contradiction
  · simp only [Option.some.injEq, Prod.mk.injEq] at alloc
    rw [← alloc.2]
    exact quiet_setPcb fun receiving => absurd receiving id

theorem quiet_synBlock {j : PcbId} (made : synBlock n i = some (j, after)) : Quiet n after := by
  unfold synBlock at made
  split at made
  · obtain ⟨⟨k, fresh⟩, alloc, result⟩ := Option.map_eq_some_iff.mp made
    simp only [Prod.mk.injEq] at result
    rw [← result.2]
    exact (quiet_tcpPcbAlloc alloc).trans (quiet_setPcb fun receiving => ⟨receiving, rfl, rfl⟩)
  · simp only [Option.some.injEq, Prod.mk.injEq] at made
    rw [← made.2]
    exact Quiet.refl n

theorem quiet_giveUp (n : Net) (i : PcbId) : Quiet n (giveUp n i).1 :=
  (quiet_close n _).trans (quiet_tcpPcbRelease _ _)

theorem quiet_awaitOpen (n : Net) (i : PcbId) (state : PcbState) : Quiet n (awaitOpen n i state).1 := by
  unfold awaitOpen
  split
  · exact Quiet.refl n
  · split
    · exact Quiet.refl n
    · exact Quiet.refl n
    · exact quiet_giveUp n i

theorem quiet_sendRounds (i : PcbId) (data : List Byte) (mss rounds : Nat) :
    ∀ (n : Net) (sent : Nat), Quiet n (sendRounds i data mss rounds n sent).1 := by
  induction rounds with
  | zero => exact fun n sent => Quiet.refl n
  | succ rounds ih =>
      intro n sent
      simp only [sendRounds]
      split
      · exact Quiet.refl n
      · split
        · exact Quiet.refl n
        · have output := quiet_tcpOutput n i (tcpFlgAck ||| tcpFlgPsh) ((data.drop sent).take
            (min (min mss (data.length - sent)) ((n.pcbs i).snd.wnd.setWidth 32 - ((n.pcbs i).snd.nxt - (n.pcbs i).snd.una)).toNat))
          split
          · rename_i failed
            rw [failed] at output
            exact output.trans (quiet_giveUp _ _)
          · rename_i done
            rw [done] at output
            apply output.trans
            apply Quiet.trans _ (ih _ _)
            exact quiet_setPcb fun receiving => ⟨receiving, rfl, rfl⟩

theorem quiet_retrySend (n : Net) (i : PcbId) (data : List Byte) (sent : Nat) : Quiet n (retrySend n i data sent).1 := by
  unfold retrySend
  split
  · split
    · exact Quiet.refl n
    · exact quiet_sendRounds _ _ _ _ _ _
  · split
    · exact Quiet.refl n
    · exact quiet_sendRounds _ _ _ _ _ _
  · exact Quiet.refl n

theorem quiet_takeBacklog (n : Net) (i : PcbId) : Quiet n (takeBacklog n i).1 := by
  unfold takeBacklog
  split
  · exact Quiet.refl n
  · exact quiet_setPcb fun receiving => ⟨receiving, rfl, rfl⟩

/-- A sleep or a return moves no bytes. -/
theorem quiet_settle (n : Net) (outcome : Outcome) : Quiet n (settle n outcome) := by
  cases outcome with
  | returns value => exact quiet_emit rfl
  | sleeps i call =>
      unfold settle
      dsimp only
      split
      · cases call with
        | opening j state => exact (quiet_giveUp n j).trans (quiet_emit rfl)
        | accepting j => exact quiet_emit rfl
        | sending j data sent => exact quiet_emit rfl
        | receiving j size => exact quiet_emit rfl
      · have waits : Quiet n (n.setPcb i { n.pcbs i with ctx := { (n.pcbs i).ctx with wc := (n.pcbs i).ctx.wc + 1 } }) :=
          quiet_setPcb fun receiving => ⟨receiving, rfl, rfl⟩
        exact waits.trans (quiet_of_same rfl (List.append_nil _).symm (by simp))

theorem quiet_interruptCall (n : Net) (call : Call) : Quiet n (interruptCall n call).1 := by
  cases call with
  | opening i state => exact quiet_giveUp n i
  | accepting i => exact Quiet.refl n
  | sending i data sent => exact Quiet.refl n
  | receiving i size => exact Quiet.refl n

theorem quiet_tcpClose (n : Net) (id : Int) : Quiet n (tcpClose n id).1 := by
  unfold tcpClose
  split
  · exact Quiet.refl n
  · rename_i i _
    have finished (state : PcbState) (begun : Receiving (n.pcbs i).state) (p : Pcb)
        (rcv : p.rcv = ((tcpOutput n i (tcpFlgAck ||| tcpFlgFin) []).1.pcbs i).rcv)
        (buf : p.buf = ((tcpOutput n i (tcpFlgAck ||| tcpFlgFin) []).1.pcbs i).buf) :
        Quiet n ((tcpOutput n i (tcpFlgAck ||| tcpFlgFin) []).1.setPcb i p) := by
      obtain ⟨queue, block⟩ := tcpOutput_pcbs n i (tcpFlgAck ||| tcpFlgFin) [] i
      apply (quiet_tcpOutput _ _ _ _).trans
      apply quiet_setPcb
      intro _
      rw [rcv, buf]
      exact ⟨by rw [block]; exact begun, rfl, rfl⟩
    dsimp only
    split
    · exact (quiet_close n _).trans (quiet_tcpPcbRelease _ _)
    · rename_i state
      exact finished .finWait1 (by simp [state, Receiving]) _ rfl rfl
    · rename_i state
      exact finished .lastAck (by simp [state, Receiving]) _ rfl rfl
    · exact Quiet.refl n

theorem quiet_tcpOpen (n : Net) : Quiet n (tcpOpen n).1 := by
  unfold tcpOpen
  split
  · exact Quiet.refl n
  · rename_i alloc
    exact (quiet_tcpPcbAlloc alloc).trans (quiet_setPcb fun receiving => ⟨receiving, rfl, rfl⟩)

theorem quiet_tcpBind (n : Net) (id : Int) (localEnd : Endpoint) : Quiet n (tcpBind n id localEnd).1 := by
  unfold tcpBind
  split
  · exact Quiet.refl n
  · split
    · exact Quiet.refl n
    · split
      · exact Quiet.refl n
      · exact quiet_setPcb fun receiving => ⟨receiving, rfl, rfl⟩

theorem quiet_tcpListen (n : Net) (id : Int) : Quiet n (tcpListen n id).1 := by
  unfold tcpListen
  split
  · exact Quiet.refl n
  · split
    · exact Quiet.refl n
    · exact quiet_setState fun receiving => receiving.elim

theorem quiet_tcpAccept (n : Net) (id : Int) : Quiet n (tcpAccept n id).1 := by
  unfold tcpAccept
  split
  · exact Quiet.refl n
  · split
    · exact Quiet.refl n
    · split
      · exact Quiet.refl n
      · exact quiet_takeBacklog _ _

theorem quiet_tcpSend (n : Net) (id : Int) (data : List Byte) : Quiet n (tcpSend n id data).1 := by
  unfold tcpSend
  split
  · exact Quiet.refl n
  · exact quiet_retrySend _ _ _ _

end BtbuOs.Tcp
