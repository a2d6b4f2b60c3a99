import BtbuOs.Tcp.Paths

namespace BtbuOs.Tcp

open Bytes Machine Relation

/-- The states that only a call of the user or the release of another block ends. -/
def trapped : PcbState → Bool
  | .closed | .finWait1 | .finWait2 | .closing | .timeWait => true
  | _ => false

/-- A segment arrives, or the clock goes on. -/
def Outside (_ : Net) (_ : List Event) (action : Action) : Prop := action.user = false

variable {n m mid after : Net} {trace : List Event} {action : Action} {i : PcbId} {l l' : Line}

/-- No turn from outside leads out of a trapped state. -/
theorem trapped_turn (outside : action.user = false) (alone : ¬Waiting n i) (start : trapped (n.pcbs i).state = true)
    (caught : trapped l.state = true) (turn : Turn n i action l l') : trapped l'.state = true := by
  have not_free : (n.pcbs i).state ≠ .free := by
    intro is
    rw [is] at start
    contradiction
  have not_last : (n.pcbs i).state ≠ .lastAck := by
    intro is
    rw [is] at start
    contradiction
  have other {state : PcbState} (is : l.state = state) (free : trapped state = false) : trapped l'.state = true := by
    rw [is, free] at caught
    contradiction
  cases turn with
  | queued => exact caught
  | gone ended opened freed listens =>
      cases state : l'.state with
      | closed => rfl
      | free =>
          rcases freed state with is | user | waits | last
          · rw [is] at caught
            contradiction
          · rw [outside] at user
            contradiction
          · exact absurd waits alone
          · exact absurd last not_last
      | listen =>
          have user := listens state
          rw [outside] at user
          contradiction
      | _ =>
          rw [state] at ended
          exact absurd trivial ended
  | syn user =>
      rw [outside] at user
      contradiction
  | passive arrived idle =>
      cases idle with
      | inl is => exact other is rfl
      | inr is => exact absurd is not_free
  | answered chosen is => exact other is rfl
  | connected chosen is => exact other is rfl
  | stale chosen is => exact other is rfl
  | established chosen is => exact other is rfl
  | acked => exact caught
  | finWait2 => rfl
  | text => exact caught
  | fin chosen due moves =>
      cases is : l.state with
      | finWait1 =>
          rw [is] at moves
          cases moves with
          | inl next => rw [next]; rfl
          | inr next => rw [next]; rfl
      | finWait2 | closed | closing | timeWait =>
          rw [is] at moves
          dsimp only
          rw [show _ = _ from moves]
          rfl
      | _ => exact other is rfl
  | sent is =>
      cases is with
      | inl is => exact other is rfl
      | inr is => exact other is rfl
  | finished is =>
      rcases is with ⟨is, -⟩ | ⟨is, -⟩
      · exact other is rfl
      · exact other is rfl

/-- No block joins a backlog between the two networks, but for one that leaves the handshake. -/
def Apart (i : PcbId) (m after : Net) : Prop := Waiting after i → Waiting m i

theorem Apart.trans (first : Apart i m mid) (second : Apart i mid after) : Apart i m after := fun waits => first (second waits)

theorem apart_of_pcbs (pcbs : after.pcbs = m.pcbs) : Apart i m after := by
  rintro ⟨k, member⟩
  rw [pcbs] at member
  exact ⟨k, member⟩

/-- A write that adds nothing to the backlog of its block. -/
theorem apart_setPcb {j : PcbId} {p : Pcb} (backlog : p.backlog = (m.pcbs j).backlog) : Apart i m (m.setPcb j p) := by
  rintro ⟨k, member⟩
  by_cases own : k = j
  · subst own
    rw [Net.setPcb_self, backlog] at member
    exact ⟨k, member⟩
  · rw [Net.setPcb_of_ne _ _ own] at member
    exact ⟨k, member⟩

theorem apart_foldl {Item : Type} {round : Net → Item → Net} (apart : ∀ m item, Apart i m (round m item))
    (items : List Item) (m : Net) : Apart i m (items.foldl round m) := by
  induction items generalizing m with
  | nil => exact id
  | cons item rest ih => exact (apart m item).trans (ih _)

theorem tcpOutputSegment_pcbs (m : Net) (segment : Segment) : (tcpOutputSegment m segment).1.pcbs = m.pcbs := by
  unfold tcpOutputSegment
  dsimp only
  split <;> rfl

theorem apart_tcpOutput (m : Net) (j : PcbId) (flg : Flags) (data : List Byte) : Apart i m (tcpOutput m j flg data).1 := by
  rintro ⟨k, member⟩
  obtain ⟨queue, block⟩ := tcpOutput_pcbs m j flg data k
  rw [block] at member
  exact ⟨k, member⟩

theorem apart_release (m : Net) (j : PcbId) : Apart i m (tcpPcbRelease m j) :=
  fun waits => (drained_release _ m j).2.waiting waits

theorem apart_timer (m : Net) : Apart i m (tcpTimer m) := by
  unfold tcpTimer
  apply apart_foldl
  intro m j
  unfold tcpTimerBlock
  split
  · exact id
  · apply apart_foldl
    intro m index
    unfold tcpRetransmitQueueEmit
    split
    · exact id
    · split
      · exact apart_setPcb rfl
      · split
        · refine Apart.trans (apart_of_pcbs (tcpOutputSegment_pcbs m _)) (apart_setPcb ?_)
          rfl
        · exact id

theorem apart_resetReply (seg : SegmentInfo) (flags : Flags) (localEnd foreignEnd : Endpoint) :
    Apart i m (resetReply m seg flags localEnd foreignEnd) := by
  unfold resetReply
  split
  · exact id
  · split
    · exact apart_of_pcbs (tcpOutputSegment_pcbs m _)
    · exact apart_of_pcbs (tcpOutputSegment_pcbs m _)

theorem apart_resetAck (seg : SegmentInfo) (localEnd foreignEnd : Endpoint) :
    Apart i m (resetAck m seg localEnd foreignEnd) := apart_of_pcbs (tcpOutputSegment_pcbs m _)

theorem apart_listenArrives {j : PcbId} (seg : SegmentInfo) (flags : Flags) (localEnd foreignEnd : Endpoint) :
    Apart i m (listenArrives m j seg flags localEnd foreignEnd) := by
  unfold listenArrives
  split
  · exact id
  · split
    · exact apart_resetAck _ _ _
    · split
      · cases made : synBlock m j with
        | none => exact id
        | some pair =>
            have begun : Apart i m pair.2 := by
              unfold synBlock at made
              split at made
              · obtain ⟨⟨k, fresh⟩, alloc, rfl⟩ := Option.map_eq_some_iff.mp made
                have used : Apart i m fresh := by
                  rw [(tcpPcbAlloc_spec alloc).2]
                  exact apart_setPcb rfl
                exact used.trans (apart_setPcb rfl)
              · rw [← Option.some.inj made]
                exact id
            dsimp only
            refine begun.trans (Apart.trans (Apart.trans ?_ (apart_tcpOutput _ pair.1 _ _)) (apart_setPcb rfl))
            exact apart_setPcb (m := pair.2) rfl
      · exact id

theorem apart_synSentArrives {j : PcbId} (seg : SegmentInfo) (flags : Flags) (localEnd foreignEnd : Endpoint) :
    Apart i m (synSentArrives m j seg flags localEnd foreignEnd) := by
  have finished (p : Pcb) (backlog : p.backlog = (m.pcbs j).backlog) : Apart i m (finishSynSent m j seg p) := by
    have opened (state : PcbState) : Apart i m (m.setPcb j { p with state }) := apart_setPcb backlog
    unfold finishSynSent
    dsimp only
    split
    · exact ((opened .established).trans (apart_tcpOutput _ _ _ _)).trans (apart_setPcb rfl)
    · exact (opened .synReceived).trans (apart_tcpOutput _ _ _ _)
  unfold synSentArrives
  dsimp only
  split
  · exact apart_resetAck _ _ _
  · split
    · apply finished
      split <;> rfl
    · exact id

theorem apart_checkSynchronized {j : PcbId} (m : Net) (seg : SegmentInfo) : Apart i m (checkSynchronized m j seg).1 := by
  have acknowledged : Apart i m (acknowledge m j seg).1 := by
    unfold acknowledge
    dsimp only
    split
    · apply apart_setPcb
      split <;> rfl
    · split
      · exact id
      · split
        · exact apart_tcpOutput _ _ _ _
        · exact id
  unfold checkSynchronized
  dsimp only
  split
  · split
    · exact acknowledged.trans (apart_setPcb rfl)
    · exact acknowledged
  · exact acknowledged

/-- Only a block that leaves SYN_RECEIVED joins a backlog. -/
theorem apart_checkAck {j : PcbId} (seg : SegmentInfo) (localEnd foreignEnd : Endpoint)
    (other : j = i → (m.pcbs j).state ≠ .synReceived) : Apart i m (checkAck m j seg localEnd foreignEnd).1 := by
  unfold checkAck
  dsimp only
  split
  · rename_i state
    split
    · have opened : Apart i m (m.setState j .established) := apart_setPcb rfl
      refine (opened.trans ?_).trans (apart_checkSynchronized _ _)
      unfold joinBacklog
      split
      · exact id
      · rename_i parent _
        split
        · rintro ⟨k, member⟩
          by_cases own : k = parent
          · subst own
            rw [Net.setPcb_self] at member
            rcases List.mem_append.mp member with old | new
            · exact ⟨k, old⟩
            · exact absurd state (other (List.mem_singleton.mp new).symm)
          · rw [Net.setPcb_of_ne _ _ own] at member
            exact ⟨k, member⟩
        · exact id
    · exact apart_resetAck _ _ _
  · exact apart_checkSynchronized _ _
  · exact apart_checkSynchronized _ _
  · exact apart_checkSynchronized _ _
  · exact apart_checkSynchronized _ _
  · split
    · have closed : Apart i m (m.setState j .closed) := apart_setPcb rfl
      exact closed.trans (apart_release _ _)
    · exact id
  · exact id

theorem apart_processText {j : PcbId} (seg : SegmentInfo) (data : Memory) (len : BitVec 32) :
    Apart i m (processText m j seg data len) := by
  unfold processText
  dsimp only
  split
  · refine Apart.trans ?_ (apart_tcpOutput _ _ _ _)
    exact apart_setPcb (m := m) rfl
  · exact id

theorem apart_checkFin {j : PcbId} (seg : SegmentInfo) (flags : Flags) : Apart i m (checkFin m j seg flags) := by
  unfold checkFin
  dsimp only
  split
  · have written : Apart i m (m.setPcb j { m.pcbs j with rcv := { (m.pcbs j).rcv with nxt := seg.seq + 1 } }) := apart_setPcb rfl
    have output := written.trans (apart_tcpOutput (i := i) _ j tcpFlgAck [])
    split
    · exact output.trans (apart_setPcb rfl)
    · exact output.trans (apart_setPcb rfl)
    · exact output.trans (apart_setPcb rfl)
    · exact output.trans (apart_setPcb rfl)
    · exact output
  · exact id

theorem apart_tcpSegmentArrives {a : Arrival} (settled : (n.pcbs i).state ≠ .synReceived) :
    Apart i n (tcpSegmentArrives n a.seg a.flags a.data a.len a.localEnd a.foreignEnd) := by
  unfold tcpSegmentArrives
  split
  · exact apart_resetReply _ _ _ _
  · rename_i j _
    split
    · exact apart_resetReply _ _ _ _
    · exact apart_listenArrives _ _ _ _
    · exact apart_synSentArrives _ _ _ _
    · split
      · split
        · exact id
        · exact apart_tcpOutput _ _ _ _
      · split
        · exact id
        · have checked : Apart i n (checkAck n j a.seg a.localEnd a.foreignEnd).1 := by
            apply apart_checkAck
            rintro rfl
            exact settled
          dsimp only
          split
          · exact (checked.trans (apart_processText _ _ _)).trans (apart_checkFin _ _)
          · exact checked

/-- Nothing from outside puts a block that is not in a handshake into a backlog. -/
theorem apart_advance (outside : action.user = false) (settled : (n.pcbs i).state ≠ .synReceived)
    (advanced : advance n action = some after) : Apart i n after := by
  cases action with
  | input hdr payload len checksum src dst broadcast =>
      rw [← Option.some.inj advanced]
      cases tcpInputArrival hdr payload len checksum src dst broadcast with
      | none => exact id
      | some a => exact apart_tcpSegmentArrives settled
  | timer =>
      rw [← Option.some.inj advanced]
      exact apart_timer n
  | interrupt =>
      rw [← Option.some.inj advanced]
      rintro ⟨k, member⟩
      refine ⟨k, ?_⟩
      unfold eventHandler at member
      dsimp only at member
      split at member
      · exact member
      · exact member
  | elapse time =>
      rw [← Option.some.inj advanced]
      exact apart_of_pcbs rfl
  | _ => contradiction

/-- A block in a trapped state that waits in no backlog stays in these states over every run from outside. -/
theorem trapped_run (start : trapped (n.pcbs i).state = true) (alone : ¬Waiting n i)
    (reached : Reaches step Outside (fun m => m = n) after trace) :
    trapped (after.pcbs i).state = true ∧ ¬Waiting after i := by
  apply reached.invariant (fun m _ => trapped (m.pcbs i).state = true ∧ ¬Waiting m i)
  · rintro m rfl
    exact ⟨start, alone⟩
  · rintro m trace action last events ⟨caught, apart⟩ outside stepped
    obtain ⟨final, advanced, result⟩ := Option.map_eq_some_iff.mp stepped
    simp only [Prod.mk.injEq] at result
    rw [← result.1]
    constructor
    · have path := path_advance advanced i
      have begun : trapped (line m i).state = true := caught
      change trapped (line final i).state = true
      generalize line final i = last at path ⊢
      induction path with
      | refl => exact begun
      | tail _ turn ih => exact trapped_turn outside apart caught ih turn
    · intro waits
      apply apart
      apply apart_advance outside _ advanced waits
      intro is
      rw [is] at caught
      contradiction

/-- A block without a call that sleeps on it is released at once. -/
theorem tcpPcbRelease_free (alone : (n.pcbs i).ctx.wc = 0) : ((tcpPcbRelease n i).pcbs i).state = .free := by
  unfold tcpPcbRelease
  rw [releaseWithin, if_neg (by rw [alone]; exact fun absurd => absurd rfl), Net.setPcb_self]
  rfl

theorem tcpPcbGet_of_used (used : (n.pcbs i).state ≠ .free) : tcpPcbGet n i.val = some i := by
  unfold tcpPcbGet
  have inside : (0 : Int) ≤ i.val ∧ (i.val : Int) < tcpPcbSize := ⟨by omega, by have := i.isLt; omega⟩
  rw [dif_pos inside]
  exact if_neg used

/-- The acknowledgment of everything that was sent. -/
def lastAcknowledgment (p : Pcb) : Arrival where
  seg := { seq := p.rcv.nxt, ack := p.snd.nxt, len := 0, wnd := 0, up := 0 }
  flags := tcpFlgAck
  data := fun _ => 0
  len := 0
  localEnd := p.localEnd
  foreignEnd := p.foreignEnd

/-- The segment frees a block in LAST_ACK. -/
theorem lastAcknowledgment_frees (state : (n.pcbs i).state = .lastAck) (alone : (n.pcbs i).ctx.wc = 0)
    (selected : tcpPcbSelect n (n.pcbs i).localEnd (some (n.pcbs i).foreignEnd) = some i)
    (window : (n.pcbs i).rcv.nxt.toNat + (n.pcbs i).rcv.wnd.toNat < 2 ^ 32) :
    ((tcpInput n (some (lastAcknowledgment (n.pcbs i)))).pcbs i).state = .free := by
  have fits : acceptable (n.pcbs i) (lastAcknowledgment (n.pcbs i)).seg = true := by
    unfold acceptable lastAcknowledgment inWindow
    dsimp only
    rw [if_pos rfl]
    split
    · exact decide_eq_true rfl
    · rename_i full
      have positive : 0 < (n.pcbs i).rcv.wnd.toNat := by
        by_contra empty
        exact full (BitVec.eq_of_toNat_eq (by rw [Nat.eq_zero_of_not_pos empty]; rfl))
      simp only [BitVec.le_refl, decide_true, Bool.true_and, decide_eq_true_eq, BitVec.lt_def, BitVec.toNat_add,
        BitVec.toNat_setWidth]
      omega
  have released := tcpPcbRelease_free (n := n.setState i .closed) (i := i) (by rw [Net.setState, Net.setPcb_self]; exact alone)
  have acked : tcpFlgIsset (lastAcknowledgment (n.pcbs i)).flags tcpFlgAck = true := show tcpFlgIsset tcpFlgAck tcpFlgAck = true by decide
  unfold tcpInput tcpSegmentArrives
  dsimp only
  rw [show (lastAcknowledgment (n.pcbs i)).localEnd = (n.pcbs i).localEnd from rfl,
    show (lastAcknowledgment (n.pcbs i)).foreignEnd = (n.pcbs i).foreignEnd from rfl, selected]
  dsimp only
  rw [state]
  dsimp only
  rw [if_neg (by rw [fits]; decide), if_neg (by rw [acked]; decide)]
  have checked : checkAck n i (lastAcknowledgment (n.pcbs i)).seg (n.pcbs i).localEnd (n.pcbs i).foreignEnd =
      (tcpPcbRelease (n.setState i .closed) i, false) := by
    unfold checkAck
    dsimp only
    rw [state]
    exact if_pos rfl
  rw [checked]
  exact released

end BtbuOs.Tcp
