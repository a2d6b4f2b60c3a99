import BtbuOs.Tcp.Paths

namespace BtbuOs.Tcp

open Bytes Machine Relation

/-- The states from ESTABLISHED on. -/
def synchronized : PcbState → Bool
  | .free | .closed | .listen | .synSent | .synReceived => false
  | _ => true

/-- An accepted FIN takes one sequence number. -/
def finCount (state : PcbState) : Nat := if finSeen state then 1 else 0

/-- `rcv.nxt` counts the SYN, the stored bytes and the FIN of the peer. -/
structure Truthful (l : Line) : Prop where
  empty : l.state = .synSent ∨ l.state = .synReceived → l.stored = []
  opening : l.state = .synReceived → l.due = l.irs + 1
  told : synchronized l.state = true → l.due = l.irs + 1 + BitVec.ofNat 32 (l.stored.length + finCount l.state)

/-- Accepted text or an accepted FIN begins at `rcv.nxt`, comes without the other one and has the length of its text; an
accepted FIN may come again. -/
def InStep (p : Pcb) (a : Arrival) : Prop :=
  (TextDue p a.seg a.flags → a.len ≠ 0 →
    a.seg.seq = p.rcv.nxt ∧ a.seg.len.toNat = a.len.toNat ∧ tcpFlgIsset a.flags tcpFlgFin = false) ∧
  (FinDue p a.seg a.flags → if finSeen p.state then a.seg.seq + 1 = p.rcv.nxt else a.seg.seq = p.rcv.nxt)

instance (p : Pcb) (a : Arrival) : Decidable (InStep p a) := inferInstanceAs (Decidable (_ ∧ _))

def Orderly (n : Net) (_ : List Event) (action : Action) : Prop :=
  ∀ a ∈ action.arrival, ∀ i, tcpPcbSelect n a.localEnd (some a.foreignEnd) = some i → InStep (n.pcbs i) a

instance (n : Net) (trace : List Event) (action : Action) : Decidable (Orderly n trace action) :=
  inferInstanceAs (Decidable (∀ a ∈ action.arrival, ∀ _, _ → _))

variable {n m mid after : Net} {trace : List Event} {action : Action} {i : PcbId} {l l' : Line} {a : Arrival}

theorem Orderly.inStep (orderly : Orderly n trace action) (chosen : Chosen n i action a) : InStep (n.pcbs i) a :=
  orderly a (by rw [chosen.1]; rfl) i chosen.2

/-- A FIN that is due comes without text that is due. -/
theorem InStep.alone {p : Pcb} (inStep : InStep p a) (due : FinDue p a.seg a.flags) :
    ¬(TextDue p a.seg a.flags ∧ a.len ≠ 0) := by
  rintro ⟨textDue, full⟩
  have plain := (inStep.1 textDue full).2.2
  rw [due.1] at plain
  contradiction

theorem finCount_of_takesText {state : PcbState} (takes : takesText state = true) :
    synchronized state = true ∧ finCount state = 0 := by
  cases state with
  | established | finWait1 | finWait2 => exact ⟨rfl, rfl⟩
  | _ => contradiction

/-- What a FIN that is due does to the states. -/
theorem afterFin_count {state next : PcbState} (moves : afterFin state next) : next = state ∧ (synchronized state = true → finSeen state = true) ∨
    finSeen state = false ∧ finCount next = 1 ∧ (state = .synReceived ∨ synchronized state = true) ∧
      next ≠ .synSent ∧ next ≠ .synReceived := by
  cases state with
  | free | closed | listen | synSent => exact .inl ⟨moves, fun same => (by contradiction)⟩
  | closing | timeWait | closeWait | lastAck => exact .inl ⟨moves, fun _ => rfl⟩
  | synReceived =>
      rw [show next = _ from moves]
      exact .inr ⟨rfl, rfl, .inl rfl, by decide, by decide⟩
  | established | finWait2 =>
      rw [show next = _ from moves]
      exact .inr ⟨rfl, rfl, .inr rfl, by decide, by decide⟩
  | finWait1 =>
      cases moves with
      | inl is =>
          rw [is]
          exact .inr ⟨rfl, rfl, .inr rfl, by decide, by decide⟩
      | inr is =>
          rw [is]
          exact .inr ⟨rfl, rfl, .inr rfl, by decide, by decide⟩

/-- Each turn keeps the count. -/
theorem Truthful.turn (orderly : Orderly n trace action) (truthful : Truthful l) (turn : Turn n i action l l') :
    Truthful l' := by
  cases turn with
  | queued => exact ⟨truthful.empty, truthful.opening, truthful.told⟩
  | gone ended =>
      constructor
      · rintro (state | state)
        · rw [state] at ended
          exact absurd trivial ended
        · rw [state] at ended
          exact absurd trivial ended
      · intro state
        rw [state] at ended
        exact absurd trivial ended
      · intro told
        cases state : l'.state with
        | free | closed | listen =>
            rw [state] at told
            contradiction
        | _ =>
            rw [state] at ended
            exact absurd trivial ended
  | syn => exact ⟨fun _ => rfl, fun state => (by contradiction), fun state => (by contradiction)⟩
  | passive => exact ⟨fun _ => rfl, fun _ => rfl, fun state => (by contradiction)⟩
  | answered chosen state => exact ⟨fun _ => truthful.empty (.inl state), fun _ => rfl, fun state => (by contradiction)⟩
  | connected chosen state =>
      refine ⟨fun state => by simp at state, fun state => (by contradiction), fun _ => ?_⟩
      dsimp only
      rw [truthful.empty (.inl state)]
      simp [finCount, finSeen]
  | stale chosen state =>
      refine ⟨fun state => by simp at state, fun state => (by contradiction), fun _ => ?_⟩
      dsimp only
      rw [truthful.empty (.inl state)]
      simp [finCount, finSeen]
  | established chosen state =>
      refine ⟨fun state => by simp at state, fun state => (by contradiction), fun _ => ?_⟩
      dsimp only
      rw [truthful.empty (.inr state), truthful.opening state]
      simp [finCount, finSeen]
  | acked => exact ⟨truthful.empty, truthful.opening, truthful.told⟩
  | finWait2 state =>
      refine ⟨fun state => by simp at state, fun state => (by contradiction), fun _ => ?_⟩
      have told := truthful.told (by rw [state]; rfl)
      rw [state] at told
      exact told
  | @text a chosen due full takes same =>
      obtain ⟨known, none⟩ := finCount_of_takesText takes
      obtain ⟨first, size, -⟩ := (orderly.inStep chosen).1 due full
      have told := truthful.told known
      rw [none] at told
      constructor
      · rintro (state | state)
        · dsimp only at state
          rw [state] at takes
          contradiction
        · dsimp only at state
          rw [state] at takes
          contradiction
      · intro state
        dsimp only at state
        rw [state] at takes
        contradiction
      · intro _
        dsimp only
        rw [none, List.length_append, length_slice, first, ← same, told]
        have width : a.seg.len.setWidth 32 = BitVec.ofNat 32 a.len.toNat := by
          apply BitVec.eq_of_toNat_eq
          rw [BitVec.toNat_setWidth, BitVec.toNat_ofNat, size]
        rw [width, Nat.add_zero, Nat.add_zero, BitVec.ofNat_add, BitVec.add_assoc]
  | @fin a next chosen due moves seen same =>
      have inStep := orderly.inStep chosen
      have begins := inStep.2 due
      have known : l.due = (n.pcbs i).rcv.nxt := same.resolve_right (inStep.alone due)
      rw [← known, ← seen] at begins
      rcases afterFin_count moves with ⟨rfl, again⟩ | ⟨first, one, was, unsent, unreceived⟩
      · constructor
        · exact truthful.empty
        · intro state
          dsimp only at state
          rw [state] at moves
          simp [afterFin] at moves
        · intro told
          dsimp only at told ⊢
          rw [again told, if_pos rfl] at begins
          rw [begins]
          exact truthful.told told
      · rw [first, if_neg Bool.false_ne_true] at begins
        refine ⟨fun state => ?_, fun state => absurd state unreceived, fun _ => ?_⟩
        · cases state with
          | inl is => exact absurd is unsent
          | inr is => exact absurd is unreceived
        · dsimp only
          rw [one, begins]
          cases was with
          | inl opening =>
              rw [truthful.opening opening, truthful.empty (.inr opening)]
              rfl
          | inr told =>
              have none : finCount l.state = 0 := by rw [finCount, first]; rfl
              rw [truthful.told told, none, Nat.add_zero, BitVec.ofNat_add, BitVec.add_assoc]
              rfl
  | sent => exact ⟨truthful.empty, truthful.opening, truthful.told⟩
  | finished state =>
      rcases state with ⟨is, rfl⟩ | ⟨is, rfl⟩
      · refine ⟨fun state => by simp at state, fun state => (by contradiction), fun _ => ?_⟩
        have told := truthful.told (by rw [is]; rfl)
        rw [is] at told
        exact told
      · refine ⟨fun state => by simp at state, fun state => (by contradiction), fun _ => ?_⟩
        have told := truthful.told (by rw [is]; rfl)
        rw [is] at told
        exact told

/-- Since the start of the step the connection ended, or its number went on by at most half of the numbers. -/
structure Onward (start l : Line) : Prop where
  opened : start.opened ≤ l.opened
  moved : l.opened = start.opened → Receiving l.state →
    synchronized l.state = true ∧ ∃ moved < 2 ^ 31, l.due = start.due + BitVec.ofNat 32 moved

/-- A change of the other parts of a connection. -/
theorem Onward.same {start : Line} (onward : Onward start l) (opened : l.opened ≤ l'.opened)
    (moved : l'.opened = l.opened → Receiving l'.state → Receiving l.state ∧
      (synchronized l.state = true → synchronized l'.state = true) ∧ l'.due = l.due) : Onward start l' := by
  refine ⟨Nat.le_trans onward.opened opened, fun same receiving => ?_⟩
  have first := onward.opened
  obtain ⟨was, kept, due⟩ := moved (by omega) receiving
  obtain ⟨known, earlier⟩ := onward.moved (by omega) was
  rw [due]
  exact ⟨kept known, earlier⟩

theorem receiving_of_synchronized {state : PcbState} (known : synchronized state = true) : Receiving state := by
  cases state with
  | free | closed | listen => contradiction
  | _ => trivial

/-- A connection that is synchronized does not come back to the states before. -/
theorem Onward.opening {start : Line} (onward : Onward start l) (early : synchronized l.state = false)
    (receiving : Receiving l.state) (opened : l'.opened = l.opened) : Onward start l' := by
  refine ⟨opened ▸ onward.opened, fun same _ => ?_⟩
  have known := (onward.moved (by rw [← opened, same]) receiving).1
  rw [early] at known
  contradiction

theorem Onward.turn (orderly : Orderly n trace action) (onward : Onward (line n i) l) (turn : Turn n i action l l') :
    Onward (line n i) l' := by
  cases turn with
  | queued => exact onward.same (le_refl _) fun _ receiving => ⟨receiving, id, rfl⟩
  | gone ended opened => exact onward.same opened fun _ receiving => absurd receiving ended
  | syn => exact onward.same (Nat.le_succ _) fun same => absurd same (Nat.succ_ne_self _)
  | passive => exact onward.same (Nat.le_succ _) fun same => absurd same (Nat.succ_ne_self _)
  | answered chosen state => exact onward.opening (by rw [state]; rfl) (by rw [state]; trivial) rfl
  | connected chosen state => exact onward.opening (by rw [state]; rfl) (by rw [state]; trivial) rfl
  | stale chosen state => exact onward.opening (by rw [state]; rfl) (by rw [state]; trivial) rfl
  | established chosen state => exact onward.opening (by rw [state]; rfl) (by rw [state]; trivial) rfl
  | acked => exact onward.same (le_refl _) fun _ receiving => ⟨receiving, id, rfl⟩
  | finWait2 state => exact onward.same (le_refl _) fun _ _ => ⟨by rw [state]; trivial, fun _ => rfl, rfl⟩
  | @text a chosen due full takes same =>
      obtain ⟨first, size, -⟩ := (orderly.inStep chosen).1 due full
      refine ⟨onward.opened, fun _ _ => ⟨(finCount_of_takesText takes).1, a.seg.len.toNat, ?_, ?_⟩⟩
      · have bound := a.seg.len.isLt
        omega
      · dsimp only
        rw [first, BitVec.ofNat_toNat]
        rfl
  | @fin a next chosen due moves seen same =>
      have inStep := orderly.inStep chosen
      have begins := inStep.2 due
      have known : l.due = (n.pcbs i).rcv.nxt := same.resolve_right (inStep.alone due)
      refine ⟨onward.opened, fun same receiving => ?_⟩
      have earlier := onward.moved same (receiving_of_afterFin moves receiving)
      constructor
      · cases state : l.state with
        | free | closed | listen | synSent | synReceived =>
            rw [state] at earlier
            exact absurd earlier.1 (by decide)
        | established | finWait2 | closing | timeWait | closeWait | lastAck =>
            rw [state] at moves
            dsimp only
            rw [show next = _ from moves]
            rfl
        | finWait1 =>
            rw [state] at moves
            cases moves with
            | inl is => dsimp only; rw [is]; rfl
            | inr is => dsimp only; rw [is]; rfl
      · dsimp only
        by_cases again : finSeen (n.pcbs i).state = true
        · rw [if_pos again] at begins
          exact ⟨0, by decide, by rw [begins]; exact (BitVec.add_zero _).symm⟩
        · rw [if_neg again] at begins
          exact ⟨1, by decide, by rw [begins]; rfl⟩
  | sent => exact onward.same (le_refl _) fun _ receiving => ⟨receiving, id, rfl⟩
  | finished state =>
      refine onward.same (le_refl _) fun _ _ => ?_
      rcases state with ⟨is, rfl⟩ | ⟨is, rfl⟩
      · exact ⟨by rw [is]; trivial, fun _ => rfl, rfl⟩
      · exact ⟨by rw [is]; trivial, fun _ => rfl, rfl⟩

/-- The segment carries the ends and the acknowledgment number of the block. -/
def Speaks (p : Pcb) (segment : Segment) : Prop :=
  segment.localEnd = p.localEnd ∧ segment.foreignEnd = p.foreignEnd ∧ segment.ack = p.rcv.nxt

/-- A reset or the SYN of a connection that is not synchronized. -/
def Opens (segment : Segment) : Prop :=
  tcpFlgIsset segment.flg tcpFlgRst = true ∨ tcpFlgIsset segment.flg tcpFlgSyn = true

/-- The segments sent from `m` to `after` open connections, refuse them or are allowed. -/
def Voices (own : Segment → Prop) (m after : Net) : Prop :=
  ∃ extra, after.log = m.log ++ extra ∧ ∀ segment, .sent segment ∈ extra → Opens segment ∨ own segment

variable {own : Segment → Prop}

theorem Voices.of_log (log : after.log = m.log) : Voices own m after :=
  ⟨[], by rw [log, List.append_nil], fun _ member => absurd member List.not_mem_nil⟩

theorem Voices.trans (first : Voices own m mid) (second : Voices own mid after) : Voices own m after := by
  obtain ⟨early, log, allowed⟩ := first
  obtain ⟨late, same, permitted⟩ := second
  refine ⟨early ++ late, by rw [same, log, List.append_assoc], fun segment member => ?_⟩
  rcases List.mem_append.mp member with before | behind
  · exact allowed segment before
  · exact permitted segment behind

theorem voices_emit {event : Event} (quiet : ∀ segment, event ≠ .sent segment) : Voices own m (m.emit event) := by
  refine ⟨[event], rfl, fun segment member => ?_⟩
  exact absurd (List.mem_singleton.mp member).symm (quiet segment)

theorem voices_segment {segment : Segment} (allowed : Opens segment ∨ own segment) :
    Voices own m (tcpOutputSegment m segment).1 := by
  unfold tcpOutputSegment
  dsimp only
  split
  · refine ⟨[.sent segment], rfl, fun other member => ?_⟩
    rw [Event.sent.inj (List.mem_singleton.mp member)]
    exact allowed
  · exact Voices.of_log rfl

/-- An output of a block speaks for it. -/
theorem voices_tcpOutput {flg : Flags} {data : List Byte}
    (allowed : ∀ segment, segment.flg = flg → Speaks (m.pcbs i) segment → Opens segment ∨ own segment) :
    Voices own m (tcpOutput m i flg data).1 := by
  have queued (seq : Seq) : (tcpRetransmitQueueAdd m i seq flg data).log = m.log := by
    unfold tcpRetransmitQueueAdd
    split <;> rfl
  unfold tcpOutput
  dsimp only
  split
  · exact (Voices.of_log (queued _)).trans (voices_segment (allowed _ rfl ⟨rfl, rfl, rfl⟩))
  · exact voices_segment (allowed _ rfl ⟨rfl, rfl, rfl⟩)

theorem voices_release (m : Net) (i : PcbId) : Voices own m (tcpPcbRelease m i) :=
  Voices.of_log (drained_release _ m i).2.1.2

theorem voices_giveUp (m : Net) (i : PcbId) : Voices own m (giveUp m i).1 :=
  (Voices.of_log rfl).trans (voices_release _ _)

theorem voices_resetReply (seg : SegmentInfo) (flags : Flags) (localEnd foreignEnd : Endpoint) :
    Voices own m (resetReply m seg flags localEnd foreignEnd) := by
  unfold resetReply
  split
  · exact Voices.of_log rfl
  · split
    · exact voices_segment (.inl (.inl (show tcpFlgIsset (tcpFlgRst ||| tcpFlgAck) tcpFlgRst = true by decide)))
    · exact voices_segment (.inl (.inl (show tcpFlgIsset tcpFlgRst tcpFlgRst = true by decide)))

theorem voices_resetAck (seg : SegmentInfo) (localEnd foreignEnd : Endpoint) :
    Voices own m (resetAck m seg localEnd foreignEnd) :=
  voices_segment (.inl (.inl (show tcpFlgIsset tcpFlgRst tcpFlgRst = true by decide)))

/-- The ends and the acknowledgment number are the same. -/
def SameTag (p q : Pcb) : Prop := p.localEnd = q.localEnd ∧ p.foreignEnd = q.foreignEnd ∧ p.rcv.nxt = q.rcv.nxt

theorem SameTag.speaks {p q : Pcb} {segment : Segment} (same : SameTag p q) (speaks : Speaks p segment) : Speaks q segment :=
  ⟨speaks.1.trans same.1, speaks.2.1.trans same.2.1, speaks.2.2.trans same.2.2⟩

theorem SameTag.trans {p q r : Pcb} (first : SameTag p q) (second : SameTag q r) : SameTag p r :=
  ⟨first.1.trans second.1, first.2.1.trans second.2.1, first.2.2.trans second.2.2⟩

theorem tcpOutput_tag (m : Net) (i : PcbId) (flg : Flags) (data : List Byte) (j : PcbId) :
    SameTag (m.pcbs j) ((tcpOutput m i flg data).1.pcbs j) := by
  obtain ⟨queue, same⟩ := tcpOutput_pcbs m i flg data j
  rw [same]
  exact ⟨rfl, rfl, rfl⟩

/-- A block says what it says at the start of the step or behind it. -/
def OneOf (n after : Net) (segment : Segment) : Prop := ∃ i, Speaks (n.pcbs i) segment ∨ Speaks (after.pcbs i) segment

theorem voices_timer (n : Net) : Voices (fun segment => ∃ i, Speaks (n.pcbs i) segment) n (tcpTimer n) ∧
    ∀ i, SameTag ((tcpTimer n).pcbs i) (n.pcbs i) := by
  have emits (m : Net) (i : PcbId) (index : Nat) (tags : ∀ j, SameTag (m.pcbs j) (n.pcbs j)) :
      Voices (fun segment => ∃ i, Speaks (n.pcbs i) segment) m (tcpRetransmitQueueEmit m i index) ∧
        ∀ j, SameTag ((tcpRetransmitQueueEmit m i index).pcbs j) (n.pcbs j) := by
    have pcbs (segment : Segment) : (tcpOutputSegment m segment).1.pcbs = m.pcbs := by
      unfold tcpOutputSegment
      dsimp only
      split <;> rfl
    unfold tcpRetransmitQueueEmit
    split
    · exact ⟨Voices.of_log rfl, tags⟩
    · split
      · refine ⟨Voices.of_log rfl, fun j => ?_⟩
        by_cases own : j = i
        · subst own
          rw [Net.setState, Net.setPcb_self]
          exact tags j
        · rw [Net.setState, Net.setPcb_of_ne _ _ own]
          exact tags j
      · split
        · refine ⟨?_, fun j => ?_⟩
          · refine Voices.trans (voices_segment (.inr ⟨i, ?_⟩)) (Voices.of_log rfl)
            exact (tags i).speaks ⟨rfl, rfl, rfl⟩
          · by_cases own : j = i
            · subst own
              rw [Net.setPcb_self, pcbs]
              exact tags j
            · rw [Net.setPcb_of_ne _ _ own, pcbs]
              exact tags j
        · exact ⟨Voices.of_log rfl, tags⟩
  have loop {Item : Type} (round : Net → Item → Net) (each : ∀ m item, (∀ j, SameTag (m.pcbs j) (n.pcbs j)) →
      Voices (fun segment => ∃ i, Speaks (n.pcbs i) segment) m (round m item) ∧
        ∀ j, SameTag ((round m item).pcbs j) (n.pcbs j)) (items : List Item) :
      ∀ m, (∀ j, SameTag (m.pcbs j) (n.pcbs j)) →
        Voices (fun segment => ∃ i, Speaks (n.pcbs i) segment) m (items.foldl round m) ∧
          ∀ j, SameTag ((items.foldl round m).pcbs j) (n.pcbs j) := by
    induction items with
    | nil => exact fun m tags => ⟨Voices.of_log rfl, tags⟩
    | cons item rest ih =>
        intro m tags
        obtain ⟨first, kept⟩ := each m item tags
        obtain ⟨second, still⟩ := ih _ kept
        exact ⟨first.trans second, still⟩
  unfold tcpTimer
  refine loop tcpTimerBlock (fun m i tags => ?_) _ n fun j => ⟨rfl, rfl, rfl⟩
  unfold tcpTimerBlock
  split
  · exact ⟨Voices.of_log rfl, tags⟩
  · exact loop _ (fun m index tags => emits m i index tags) _ m tags

theorem voices_awaitOpen (m : Net) (i : PcbId) (state : PcbState) : Voices own m (awaitOpen m i state).1 := by
  unfold awaitOpen
  split
  · exact Voices.of_log rfl
  · split
    · exact Voices.of_log rfl
    · exact Voices.of_log rfl
    · exact voices_giveUp m i

/-- A SYN opens a connection. -/
theorem voices_syn {flg : Flags} (flagged : tcpFlgIsset flg tcpFlgSyn = true) : Voices own m (tcpOutput m i flg []).1 :=
  voices_tcpOutput fun segment same _ => .inl (.inr (by rw [same]; exact flagged))

theorem voices_startConnection (m : Net) (i : PcbId) : Voices own m (startConnection m i).1 := by
  unfold startConnection
  dsimp only
  generalize begun : { (m.setPcb i { m.pcbs i with
    rcv := { (m.pcbs i).rcv with wnd := BitVec.ofNat 16 bufSize }, iss := m.random m.draws }).emit (.opened i) with
    draws := m.draws + 1 } = mid
  have first : Voices own m mid := by
    rw [← begun]
    exact ⟨[.opened i], rfl, fun segment member => by simp at member⟩
  have output : Voices own m (tcpOutput mid i tcpFlgSyn []).1 := first.trans (voices_syn (by decide))
  split
  · rename_i failure failed
    have failed : tcpOutput mid i tcpFlgSyn [] = (failure, false) := by rw [← begun]; exact failed
    rw [failed] at output
    exact output.trans (voices_giveUp _ _)
  · rename_i success sent
    have sent : tcpOutput mid i tcpFlgSyn [] = (success, true) := by rw [← begun]; exact sent
    rw [sent] at output
    exact (output.trans (Voices.of_log rfl)).trans (voices_awaitOpen _ _ _)

/-- A send speaks for its block. -/
theorem voices_sendRounds (own : Segment → Prop) (i : PcbId) (data : List Byte) (mss rounds : Nat) : ∀ (m : Net) (sent : Nat),
    (∀ segment, Speaks (m.pcbs i) segment → own segment) → Voices own m (sendRounds i data mss rounds m sent).1 := by
  induction rounds with
  | zero => exact fun m _ _ => Voices.of_log rfl
  | succ rounds ih =>
      intro m sent allowed
      simp only [sendRounds]
      split
      · exact Voices.of_log rfl
      · split
        · exact Voices.of_log rfl
        · generalize (data.drop sent).take (min (min mss (data.length - sent))
            ((m.pcbs i).snd.wnd.setWidth 32 - ((m.pcbs i).snd.nxt - (m.pcbs i).snd.una)).toNat) = text
          have output : Voices own m (tcpOutput m i (tcpFlgAck ||| tcpFlgPsh) text).1 :=
            voices_tcpOutput fun segment _ speaks => .inr (allowed segment speaks)
          have tag := tcpOutput_tag m i (tcpFlgAck ||| tcpFlgPsh) text i
          split
          · rename_i failure failed
            rw [failed] at output
            exact output.trans (voices_giveUp _ _)
          · rename_i success done
            rw [done] at output tag
            refine (output.trans (Voices.of_log rfl)).trans (ih _ _ fun segment speaks => allowed segment ?_)
            rw [Net.setPcb_self] at speaks
            exact SameTag.speaks ⟨tag.1.symm, tag.2.1.symm, tag.2.2.symm⟩ speaks

theorem voices_retrySend (own : Segment → Prop) (data : List Byte) (sent : Nat)
    (allowed : ∀ segment, Speaks (m.pcbs i) segment → own segment) : Voices own m (retrySend m i data sent).1 := by
  unfold retrySend
  split
  · split
    · exact Voices.of_log rfl
    · exact voices_sendRounds own _ _ _ _ _ _ allowed
  · split
    · exact Voices.of_log rfl
    · exact voices_sendRounds own _ _ _ _ _ _ allowed
  · exact Voices.of_log rfl

theorem voices_takeBacklog (m : Net) (i : PcbId) : Voices own m (takeBacklog m i).1 := by
  unfold takeBacklog
  split
  · exact Voices.of_log rfl
  · exact Voices.of_log rfl

theorem voices_retryReceive (m : Net) (i : PcbId) (size : Nat) : Voices own m (retryReceive m i size).1 := by
  have takes : Voices own m (takeBytes m i size).1 := by
    unfold takeBytes
    exact ⟨[.received i _], rfl, fun segment member => by simp at member⟩
  unfold retryReceive
  dsimp only
  split
  · split
    · exact Voices.of_log rfl
    · exact takes
  · split
    · exact Voices.of_log rfl
    · exact takes
  · exact Voices.of_log rfl

theorem voices_interruptCall (m : Net) (call : Call) : Voices own m (interruptCall m call).1 := by
  cases call with
  | opening i state => exact voices_giveUp m i
  | accepting i => exact Voices.of_log rfl
  | sending i data sent => exact Voices.of_log rfl
  | receiving i size => exact Voices.of_log rfl

theorem voices_settle (m : Net) (outcome : Outcome) : Voices own m (settle m outcome) := by
  have returned (m : Net) (value : Int) : Voices own m (m.emit (.returned value)) := voices_emit fun _ same => nomatch same
  cases outcome with
  | returns value => exact returned m value
  | sleeps i call =>
      unfold settle
      dsimp only
      split
      · cases call with
        | opening j state => exact (voices_giveUp m j).trans (returned _ _)
        | accepting j => exact returned _ _
        | sending j data sent => exact returned _ _
        | receiving j size => exact returned _ _
      · exact Voices.of_log rfl

theorem voices_retryCall (own : Segment → Prop) (call : Call)
    (allowed : ∀ segment, Speaks (m.pcbs call.block) segment → own segment) : Voices own m (retryCall m call).1 := by
  cases call with
  | opening i state => exact voices_awaitOpen _ _ _
  | accepting i =>
      simp only [retryCall]
      split
      · exact voices_release _ _
      · exact voices_takeBacklog _ _
  | sending i data sent => exact voices_retrySend own data sent allowed
  | receiving i size => exact voices_retryReceive _ _ _

theorem voices_resume {index : Nat} (own : Segment → Prop) (allowed : ∀ j segment, Speaks (m.pcbs j) segment → own segment)
    (resumed : resume m index = some after) : Voices own m after := by
  unfold resume at resumed
  split at resumed
  · contradiction
  · rename_i call found
    dsimp only at resumed
    generalize woken : { m with calls := m.calls.eraseIdx index } = awake at resumed
    have log : awake.log = m.log := by rw [← woken]
    have counted (ctx : SchedCtx) : Voices own m (awake.setPcb call.block { m.pcbs call.block with ctx }) := Voices.of_log log
    split at resumed
    · rw [← Option.some.inj resumed]
      exact ((counted _).trans (voices_interruptCall _ _)).trans (voices_settle _ _)
    · rw [← Option.some.inj resumed]
      refine ((counted _).trans (voices_retryCall own call fun segment speaks => allowed call.block segment ?_)).trans
        (voices_settle _ _)
      rw [Net.setPcb_self] at speaks
      exact speaks

theorem voices_tcpClose (own : Segment → Prop) (id : Int) (allowed : ∀ j segment, Speaks (m.pcbs j) segment → own segment) :
    Voices own m (tcpClose m id).1 := by
  unfold tcpClose
  split
  · exact Voices.of_log rfl
  · rename_i i _
    have output : Voices own m (tcpOutput m i (tcpFlgAck ||| tcpFlgFin) []).1 :=
      voices_tcpOutput fun segment _ speaks => .inr (allowed i segment speaks)
    have closed : Voices own m (m.setState i .closed) := Voices.of_log rfl
    dsimp only
    split
    · exact closed.trans (voices_release _ _)
    · exact output.trans (Voices.of_log rfl)
    · exact output.trans (Voices.of_log rfl)
    · exact Voices.of_log rfl

theorem voices_listenArrives (seg : SegmentInfo) (flags : Flags) (localEnd foreignEnd : Endpoint) :
    Voices own n (listenArrives n i seg flags localEnd foreignEnd) := by
  unfold listenArrives
  split
  · exact Voices.of_log rfl
  · split
    · exact voices_resetAck _ _ _
    · split
      · cases made : synBlock n i with
        | none => exact Voices.of_log rfl
        | some pair =>
            have log : pair.2.log = n.log := by
              unfold synBlock at made
              split at made
              · obtain ⟨⟨k, fresh⟩, alloc, result⟩ := Option.map_eq_some_iff.mp made
                obtain ⟨_, rfl⟩ := tcpPcbAlloc_spec alloc
                rw [← result]
                rfl
              · rw [← Option.some.inj made]
            have first : Voices own n pair.2 := Voices.of_log log
            dsimp only
            refine Voices.trans (Voices.trans (first.trans ?_) (voices_syn (by decide))) (Voices.of_log rfl)
            exact ⟨[.opened pair.1], rfl, fun segment member => by simp at member⟩
      · exact Voices.of_log rfl

theorem voices_synSentArrives {seg : SegmentInfo} {flags : Flags} {localEnd foreignEnd : Endpoint}
    (final : after = synSentArrives n i seg flags localEnd foreignEnd) : Voices (OneOf n after) n after := by
  have finished (p : Pcb) (final : after = finishSynSent n i seg p) : Voices (OneOf n after) n after := by
    unfold finishSynSent at final
    dsimp only at final
    split at final
    · generalize written : n.setPcb i { p with state := .established } = mid at final
      have log : mid.log = n.log := by
        rw [← written]
        rfl
      have block : SameTag (mid.pcbs i) (after.pcbs i) := by
        rw [final, Net.setPcb_self]
        exact (tcpOutput_tag mid i tcpFlgAck [] i).trans ⟨rfl, rfl, rfl⟩
      have output : Voices (OneOf n after) mid (tcpOutput mid i tcpFlgAck []).1 :=
        voices_tcpOutput fun segment _ speaks => .inr ⟨i, .inr (block.speaks speaks)⟩
      have last : after.log = (tcpOutput mid i tcpFlgAck []).1.log := by
        rw [final]
        rfl
      exact ((Voices.of_log log).trans output).trans (Voices.of_log last)
    · rw [final]
      have first : Voices (OneOf n after) n (n.setPcb i { p with state := .synReceived }) := Voices.of_log rfl
      rw [final] at first
      exact first.trans (voices_syn (by decide))
  unfold synSentArrives at final
  dsimp only at final
  split at final
  · rw [final]
    exact voices_resetAck _ _ _
  · split at final
    · exact finished _ final
    · rw [final]
      exact Voices.of_log rfl

/-- The fifth check speaks for the block as it was, and keeps what it says. -/
theorem voices_checkAck (seg : SegmentInfo) (localEnd foreignEnd : Endpoint)
    (allowed : ∀ segment, Speaks (n.pcbs i) segment → own segment) :
    Voices own n (checkAck n i seg localEnd foreignEnd).1 := by
  have synchronized (m : Net) (tag : SameTag (m.pcbs i) (n.pcbs i)) : Voices own m (checkSynchronized m i seg).1 := by
    have acknowledged : Voices own m (acknowledge m i seg).1 := by
      unfold acknowledge
      dsimp only
      split
      · exact Voices.of_log rfl
      · split
        · exact Voices.of_log rfl
        · split
          · exact voices_tcpOutput fun segment _ speaks => .inr (allowed segment (tag.speaks speaks))
          · exact Voices.of_log rfl
    unfold checkSynchronized
    dsimp only
    split
    · split
      · exact acknowledged.trans (Voices.of_log rfl)
      · exact acknowledged
    · exact acknowledged
  unfold checkAck
  dsimp only
  split
  · split
    · obtain ⟨backlog, block⟩ := joinBacklog_pcbs (n.setState i .established) i i
      have joined : Voices own n (joinBacklog (n.setState i .established) i) := by
        unfold joinBacklog
        split
        · exact Voices.of_log rfl
        · split
          · exact Voices.of_log rfl
          · exact Voices.of_log rfl
      apply joined.trans
      apply synchronized
      rw [block, Net.setState, Net.setPcb_self]
      exact ⟨rfl, rfl, rfl⟩
    · exact voices_resetAck _ _ _
  · exact synchronized n ⟨rfl, rfl, rfl⟩
  · exact synchronized n ⟨rfl, rfl, rfl⟩
  · exact synchronized n ⟨rfl, rfl, rfl⟩
  · exact synchronized n ⟨rfl, rfl, rfl⟩
  · split
    · have closed : Voices own n (n.setState i .closed) := Voices.of_log rfl
      exact closed.trans (voices_release _ _)
    · exact Voices.of_log rfl
  · exact Voices.of_log rfl

/-- The seventh step speaks for the block behind it. -/
theorem voices_processText {seg : SegmentInfo} {data : Memory} {len : BitVec 32}
    (allowed : ∀ segment, Speaks ((processText m i seg data len).pcbs i) segment → own segment) :
    Voices own m (processText m i seg data len) := by
  unfold processText at allowed ⊢
  dsimp only at allowed ⊢
  split
  · rename_i stores
    rw [if_pos stores] at allowed
    refine Voices.trans ?_ (voices_tcpOutput fun segment _ speaks => .inr (allowed segment ?_))
    · exact ⟨[.stored i _ _ _], rfl, fun segment member => by simp at member⟩
    · exact (tcpOutput_tag _ i tcpFlgAck [] i).speaks speaks
  · exact Voices.of_log rfl

/-- The eighth step speaks for the block behind it. -/
theorem voices_checkFin {seg : SegmentInfo} {flags : Flags}
    (allowed : ∀ segment, Speaks ((checkFin m i seg flags).pcbs i) segment → own segment) :
    Voices own m (checkFin m i seg flags) := by
  unfold checkFin at allowed ⊢
  dsimp only at allowed ⊢
  split
  · rename_i flagged
    rw [if_pos flagged] at allowed
    generalize written : m.setPcb i { m.pcbs i with rcv := { (m.pcbs i).rcv with nxt := seg.seq + 1 } } = mid at allowed ⊢
    have log : mid.log = m.log := by
      rw [← written]
      rfl
    have output (spoken : ∀ segment, Speaks ((tcpOutput mid i tcpFlgAck []).1.pcbs i) segment → own segment) :
        Voices own m (tcpOutput mid i tcpFlgAck []).1 :=
      (Voices.of_log log).trans <|
        voices_tcpOutput fun segment _ speaks => .inr (spoken segment ((tcpOutput_tag mid i tcpFlgAck [] i).speaks speaks))
    have changed (state : PcbState)
        (spoken : ∀ segment, Speaks (((tcpOutput mid i tcpFlgAck []).1.setState i state).pcbs i) segment → own segment) :
        Voices own m ((tcpOutput mid i tcpFlgAck []).1.setState i state) := by
      refine (output fun segment speaks => spoken segment ?_).trans (Voices.of_log rfl)
      rw [Net.setState, Net.setPcb_self]
      exact speaks
    split at allowed
    · exact changed _ allowed
    · exact changed _ allowed
    · exact changed _ allowed
    · exact changed _ allowed
    · exact output allowed
  · exact Voices.of_log rfl

/-- A segment in order makes its block say what it says at the start or at the end. -/
theorem voices_tcpSegmentArrives (inStep : ∀ i, tcpPcbSelect n a.localEnd (some a.foreignEnd) = some i → InStep (n.pcbs i) a)
    (final : after = tcpSegmentArrives n a.seg a.flags a.data a.len a.localEnd a.foreignEnd) : Voices (OneOf n after) n after := by
  unfold tcpSegmentArrives at final
  cases selected : tcpPcbSelect n a.localEnd (some a.foreignEnd) with
  | none =>
      rw [selected] at final
      rw [final]
      exact voices_resetReply _ _ _ _
  | some i =>
      rw [selected] at final
      dsimp only at final
      have early (segment : Segment) (speaks : Speaks (n.pcbs i) segment) : OneOf n after segment := ⟨i, .inl speaks⟩
      have late (segment : Segment) (speaks : Speaks (after.pcbs i) segment) : OneOf n after segment := ⟨i, .inr speaks⟩
      split at final
      · rw [final]
        exact voices_resetReply _ _ _ _
      · rw [final]
        exact voices_listenArrives _ _ _ _
      · exact voices_synSentArrives final
      · split at final
        · split at final
          · exact Voices.of_log (congrArg Net.log final)
          · have output : Voices (OneOf n after) n (tcpOutput n i tcpFlgAck []).1 :=
              voices_tcpOutput fun segment _ speaks => .inr (early segment speaks)
            exact output.trans (Voices.of_log (congrArg Net.log final))
        · rename_i passes
          split at final
          · exact Voices.of_log (congrArg Net.log final)
          · rename_i acked
            have reaching : Reaching (n.pcbs i) a.seg a.flags := by
              constructor
              · intro checks
                simpa [checks] using passes
              · simpa using acked
            have checked := voices_checkAck a.seg a.localEnd a.foreignEnd early
            obtain ⟨-, due⟩ := checkAck_kept n i a.seg a.localEnd a.foreignEnd
            split at final
            · rename_i continues
              obtain ⟨ackPasses, -, -⟩ := checkAck_passes continues
              generalize (checkAck n i a.seg a.localEnd a.foreignEnd).1 = mid at *
              have stored : Voices (OneOf n after) mid (processText mid i a.seg a.data a.len) := by
                by_cases flagged : tcpFlgIsset a.flags tcpFlgFin = true
                · -- a FIN that is due comes without text, so that the seventh step sends nothing
                  have silent : processText mid i a.seg a.data a.len = mid := by
                    apply if_neg
                    intro stores
                    apply (inStep i selected).alone ⟨flagged, reaching, ackPasses⟩
                    exact ⟨textDue_of_passes (due.mp ⟨continues, stores.1⟩) passes acked, stores.2⟩
                  rw [silent]
                  exact Voices.of_log rfl
                · have still : after = processText mid i a.seg a.data a.len := by
                    rw [final]
                    exact if_neg fun fin => flagged fin.1
                  rw [← still]
                  rw [still]
                  refine voices_processText fun segment speaks => ?_
                  rw [← still] at speaks ⊢
                  exact late segment speaks
              apply (checked.trans stored).trans
              rw [final]
              refine voices_checkFin fun segment speaks => ?_
              rw [← final] at speaks ⊢
              exact late segment speaks
            · rw [← final] at checked
              exact checked

theorem Voices.weaken {more : Segment → Prop} (voices : Voices own m after) (implied : ∀ segment, own segment → more segment) :
    Voices more m after := by
  obtain ⟨extra, log, allowed⟩ := voices
  exact ⟨extra, log, fun segment member => (allowed segment member).imp_right (implied segment)⟩

theorem voices_advance (orderly : Orderly n trace action) (advanced : advance n action = some after) :
    Voices (OneOf n after) n after := by
  have early (j : PcbId) (segment : Segment) (speaks : Speaks (n.pcbs j) segment) : OneOf n after segment := ⟨j, .inl speaks⟩
  have silent (result : Net × Outcome) (first : Voices (OneOf n after) n result.1)
      (final : finish result = after) : Voices (OneOf n after) n after := by
    rw [← final] at first ⊢
    exact first.trans (voices_settle _ _)
  cases action with
  | resume index => exact voices_resume _ early advanced
  | input hdr payload len checksum src dst broadcast =>
      have final := Option.some.inj advanced
      cases arrived : tcpInputArrival hdr payload len checksum src dst broadcast with
      | none =>
          rw [arrived] at final
          exact Voices.of_log (congrArg Net.log final.symm)
      | some a =>
          rw [arrived] at final
          exact voices_tcpSegmentArrives (fun i selected => orderly a (by rw [Action.arrival, arrived]; rfl) i selected) final.symm
  | timer =>
      rw [← Option.some.inj advanced]
      apply (voices_timer n).1.weaken
      rintro segment ⟨i, speaks⟩
      exact ⟨i, .inl speaks⟩
  | interrupt =>
      rw [← Option.some.inj advanced]
      exact Voices.of_log rfl
  | elapse time =>
      rw [← Option.some.inj advanced]
      exact Voices.of_log rfl
  | openRfc793 localEnd foreignEnd active =>
      apply silent _ _ (Option.some.inj advanced)
      unfold tcpOpenRfc793
      split
      · exact Voices.of_log rfl
      · rename_i alloc
        obtain ⟨-, same⟩ := tcpPcbAlloc_spec alloc
        split
        · refine Voices.trans (Voices.of_log ?_) (voices_startConnection _ _)
          rw [same]
          rfl
        · refine Voices.trans (Voices.of_log ?_) (voices_awaitOpen _ _ _)
          rw [same]
          rfl
  | close id => exact silent _ (voices_tcpClose _ id early) (Option.some.inj advanced)
  | openSocket =>
      apply silent _ _ (Option.some.inj advanced)
      unfold tcpOpen
      split
      · exact Voices.of_log rfl
      · rename_i alloc
        obtain ⟨-, same⟩ := tcpPcbAlloc_spec alloc
        apply Voices.of_log
        rw [same]
        rfl
  | connect id foreignEnd =>
      apply silent _ _ (Option.some.inj advanced)
      unfold tcpConnect
      split
      · exact Voices.of_log rfl
      · split
        · exact Voices.of_log rfl
        · dsimp only
          split
          · exact Voices.of_log rfl
          · refine Voices.trans (Voices.of_log ?_) (voices_startConnection _ _)
            rfl
  | bind id localEnd =>
      apply silent _ _ (Option.some.inj advanced)
      unfold tcpBind
      repeat' split
      all_goals exact Voices.of_log rfl
  | listen id =>
      apply silent _ _ (Option.some.inj advanced)
      unfold tcpListen
      repeat' split
      all_goals exact Voices.of_log rfl
  | accept id =>
      apply silent _ _ (Option.some.inj advanced)
      unfold tcpAccept
      split
      · exact Voices.of_log rfl
      · split
        · exact Voices.of_log rfl
        · split
          · exact Voices.of_log rfl
          · exact voices_takeBacklog _ _
  | send id data =>
      apply silent _ _ (Option.some.inj advanced)
      unfold tcpSend
      split
      · exact Voices.of_log rfl
      · rename_i i _
        exact voices_retrySend _ data 0 (early i)
  | receive id size =>
      apply silent _ _ (Option.some.inj advanced)
      unfold tcpReceive
      split
      · exact Voices.of_log rfl
      · exact voices_retryReceive _ _ _

theorem truthful_run (reached : Reaches step Orderly Initial n trace) (i : PcbId) : Truthful (line n i) := by
  apply reached.invariant (fun n _ => Truthful (line n i))
  · intro n initial
    rw [line_initial initial]
    exact ⟨fun _ => rfl, fun state => (by contradiction), fun state => (by contradiction)⟩
  · intro n trace action after events truthful orderly stepped
    obtain ⟨final, advanced, result⟩ := Option.map_eq_some_iff.mp stepped
    simp only [Prod.mk.injEq] at result
    rw [← result.1]
    have path := path_advance advanced i
    generalize line final i = last at path ⊢
    induction path with
    | refl => exact truthful
    | tail _ turn ih => exact ih.turn orderly turn

/-- While text and FIN arrive in order and apart, `rcv.nxt` counts what was accepted, never goes back, and is what each
segment of a connection acknowledges. -/
theorem acknowledgment_numbers_true (reached : Reaches step Orderly Initial n trace) :
    (∀ i, synchronized (n.pcbs i).state = true → (n.pcbs i).rcv.nxt =
      (n.pcbs i).irs + 1 + BitVec.ofNat 32 ((flowOf n.log i).stored.length + finCount (n.pcbs i).state)) ∧
    ∀ action after, Orderly n trace action → advance n action = some after →
      (∀ i, synchronized (n.pcbs i).state = true → Receiving (after.pcbs i).state →
        (flowOf after.log i).opened = (flowOf n.log i).opened →
          ∃ moved < 2 ^ 31, (after.pcbs i).rcv.nxt = (n.pcbs i).rcv.nxt + BitVec.ofNat 32 moved) ∧
      ∀ segment, .sent segment ∈ after.log.drop n.log.length →
        Opens segment ∨ ∃ i, Speaks (n.pcbs i) segment ∨ Speaks (after.pcbs i) segment := by
  constructor
  · exact fun i known => (truthful_run reached i).told known
  · intro action after orderly advanced
    constructor
    · intro i known receiving same
      have path := path_advance advanced i
      have start : Onward (line n i) (line n i) := ⟨le_refl _, fun _ _ => ⟨known, 0, by decide, (BitVec.add_zero _).symm⟩⟩
      have onward : Onward (line n i) (line after i) := by
        generalize line after i = last at path ⊢
        induction path with
        | refl => exact start
        | tail _ turn ih => exact ih.turn orderly turn
      exact (onward.moved same receiving).2
    · intro segment member
      obtain ⟨extra, log, allowed⟩ := voices_advance orderly advanced
      rw [log, List.drop_left] at member
      exact allowed segment member

/-- Two segments of text and a FIN are acknowledged with the number behind them. -/
theorem acknowledgment_numbers_true_run : ∃ n trace, Reaches step Orderly Initial n trace ∧
    (n.pcbs 0).state = .closeWait ∧ (n.pcbs 0).rcv.nxt =
      (n.pcbs 0).irs + 1 + BitVec.ofNat 32 ((flowOf n.log 0).stored.length + finCount (n.pcbs 0).state) := by
  obtain ⟨n, trace, reached, test⟩ := replay_witness step Orderly Initial
    (handshake ++ [peerSegment 1001 1 tcpFlgAck 97 5, peerSegment 1006 1 tcpFlgAck 102 3,
      peerSegment 1009 1 (tcpFlgAck ||| tcpFlgFin) 0 0]) firstNet ⟨rfl, rfl, rfl⟩
    (fun n _ => decide ((n.pcbs 0).state = .closeWait)) (by decide +kernel)
  have waits := of_decide_eq_true test
  exact ⟨n, trace, reached, waits, (acknowledgment_numbers_true reached).1 0 (by rw [waits]; rfl)⟩

/-- A segment with text and FIN sets `rcv.nxt` back to its second byte. -/
theorem text_with_fin_goes_back : ¬∀ n trace, Reaches step (fun _ _ _ => True) Initial n trace →
    ∀ i, synchronized (n.pcbs i).state = true → (n.pcbs i).rcv.nxt =
      (n.pcbs i).irs + 1 + BitVec.ofNat 32 ((flowOf n.log i).stored.length + finCount (n.pcbs i).state) := by
  intro claim
  obtain ⟨n, trace, reached, test⟩ := replay_witness step (fun _ _ _ => True) Initial
    (handshake ++ [peerSegment 1001 1 (tcpFlgAck ||| tcpFlgFin) 97 5]) firstNet ⟨rfl, rfl, rfl⟩
    (fun n _ => decide (synchronized (n.pcbs 0).state = true ∧ (n.pcbs 0).rcv.nxt ≠
      (n.pcbs 0).irs + 1 + BitVec.ofNat 32 ((flowOf n.log 0).stored.length + finCount (n.pcbs 0).state))) (by decide +kernel)
  obtain ⟨known, differs⟩ := of_decide_eq_true test
  exact differs (claim n trace reached 0 known)

end BtbuOs.Tcp
