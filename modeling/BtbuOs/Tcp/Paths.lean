import BtbuOs.Tcp.Turns

namespace BtbuOs.Tcp

open Bytes Machine Relation

variable {n m after : Net} {action : Action} {i : PcbId} {a : Arrival}

/-- New times of an entry change no chunk. -/
theorem chunks_set {queue : List QueueEntry} {index : Nat} {entry late : QueueEntry} (found : queue[index]? = some entry)
    (same : late.chunk = entry.chunk) : (queue.set index late).map QueueEntry.chunk = queue.map QueueEntry.chunk := by
  rw [List.map_set, same]
  apply List.ext_getElem?
  intro k
  rw [List.getElem?_set]
  split
  · rename_i own
    subst own
    split
    · rw [List.getElem?_map, found]
      rfl
    · rename_i outside
      rw [List.getElem?_eq_none (Nat.le_of_not_lt outside)]
  · rfl

/-- A retransmission keeps the line, and a block past its deadline is closed. -/
theorem goes_tcpRetransmitQueueEmit (m : Net) (index : Nat) : Goes n action m (tcpRetransmitQueueEmit m i index) := by
  have pcbs (segment : Segment) : (tcpOutputSegment m segment).1.pcbs = m.pcbs := by
    unfold tcpOutputSegment
    dsimp only
    split <;> rfl
  unfold tcpRetransmitQueueEmit
  split
  · exact Goes.refl m
  · rename_i entry found
    split
    · exact goes_close
    · split
      · apply (goes_tcpOutputSegment _ _).trans
        apply goes_setPcb_same
        unfold line
        rw [pcbs]
        simp only [Line.of]
        congr 1
        exact chunks_set found rfl
      · exact Goes.refl m

theorem goes_tcpTimer (m : Net) : Goes n action m (tcpTimer m) := by
  apply goes_foldl
  intro m i
  unfold tcpTimerBlock
  split
  · exact Goes.refl m
  · exact goes_foldl goes_tcpRetransmitQueueEmit _ m

theorem goes_eventHandler (m : Net) : Goes n action m (eventHandler m) := by
  refine goes_of_lines ?_ fun j => ?_
  · rfl
  · unfold line eventHandler
    dsimp only
    split <;> rfl

/-- The block that is taken into use was free. -/
theorem tcpPcbAlloc_spec (alloc : tcpPcbAlloc m = some (i, after)) :
    (m.pcbs i).state = .free ∧ after = m.setPcb i { m.pcbs i with state := .closed, ctx := ⟨false, 0⟩ } := by
  unfold tcpPcbAlloc at alloc
  split at alloc
  · contradiction
  · rename_i k found
    simp only [Option.some.injEq, Prod.mk.injEq] at alloc
    obtain ⟨rfl, rfl⟩ := alloc
    exact ⟨by simpa using List.find?_some found, rfl⟩

theorem goes_tcpPcbAlloc (alloc : tcpPcbAlloc m = some (i, after)) : Goes n action m after := by
  obtain ⟨free, rfl⟩ := tcpPcbAlloc_spec alloc
  apply goes_setPcb
  apply ReflTransGen.single
  apply Turn.gone
  · exact id
  · exact le_refl _
  · exact fun free => by contradiction
  · exact fun listens => by contradiction

theorem goes_awaitOpen (user : action.user = true) (state : PcbState) :
    Goes n action m (awaitOpen m i state).1 := by
  unfold awaitOpen
  split
  · exact Goes.refl m
  · split
    · exact Goes.refl m
    · exact Goes.refl m
    · exact goes_giveUp user

/-- The address writes and the SYN of an active open. -/
theorem goes_startConnection {localEnd foreignEnd : Endpoint} (user : action.user = true)
    (whole : (n.pcbs i).queue.map QueueEntry.chunk ⊆ (m.pcbs i).queue.map QueueEntry.chunk) :
    Goes n action m (startConnection (m.setPcb i { m.pcbs i with localEnd, foreignEnd }) i).1 := by
  obtain ⟨p, block⟩ : ∃ p : Pcb, p = { m.pcbs i with
    localEnd, foreignEnd, rcv := { (m.pcbs i).rcv with wnd := BitVec.ofNat 16 bufSize }, iss := m.random m.draws } := ⟨_, rfl⟩
  obtain ⟨mid, begun⟩ : ∃ mid : Net, mid = { (m.setPcb i p).emit (.opened i) with draws := m.draws + 1 } := ⟨_, rfl⟩
  have started : startConnection (m.setPcb i { m.pcbs i with localEnd, foreignEnd }) i =
      let n := (tcpOutput mid i tcpFlgSyn []).1
      if (tcpOutput mid i tcpFlgSyn []).2 then awaitOpen (n.setPcb i { n.pcbs i with
        snd := { (n.pcbs i).snd with una := (n.pcbs i).iss, nxt := (n.pcbs i).iss + 1 }, state := .synSent }) i .synSent
      else giveUp n i := by
    unfold startConnection
    rw [begun, block]
    simp only [Net.setPcb, Net.emit, Function.update_self, Function.update_idem]
    split
    · rename_i refused
      simp only [refused]
      rfl
    · rename_i sent
      simp only [sent]
      rfl
  have own : mid.pcbs i = p := by
    rw [begun]
    exact Net.setPcb_self _ _ _
  have flow (j : PcbId) : flowOf mid.log j = if i = j then ⟨(flowOf m.log j).opened + 1, [], []⟩ else flowOf m.log j := by
    rw [begun]
    exact flowOf_append m.log [.opened i] j
  have others (j : PcbId) (apart : j ≠ i) : line mid j = line m j := by
    unfold line
    rw [flow, if_neg (Ne.symm apart), begun]
    exact congrArg (Line.of · _) (Net.setPcb_of_ne m p apart)
  have fate : mid.fate = m.fate := by rw [begun]; rfl
  rw [started]
  dsimp only
  split
  · refine Goes.trans ?_ (goes_awaitOpen user .synSent)
    apply goes_output (fun p => { p with
      snd := { p.snd with una := p.iss, nxt := p.iss + 1 }, state := .synSent }) fate others
    intro queue kept held
    apply ReflTransGen.single
    rw [own] at kept held ⊢
    rw [flow, if_pos rfl]
    rw [block] at kept held ⊢
    exact Turn.syn (l := line m i) user (List.Subset.trans whole kept) fun granted => held granted (.inl (by decide))
  · refine Goes.trans ?_ (goes_tcpPcbRelease fun _ _ => .inl user)
    apply goes_output (fun p => { p with state := .closed }) fate others
    intro queue kept _
    apply ReflTransGen.single
    apply Turn.gone
    · exact id
    · rw [flow, if_pos rfl]
      exact Nat.le_succ _
    · exact fun free => by contradiction
    · exact fun listens => by contradiction

theorem goes_tcpOpenRfc793 {localEnd : Endpoint} {foreignEnd : Option Endpoint} {active : Bool}
    (user : action.user = true) : Goes n action n (tcpOpenRfc793 n localEnd foreignEnd active).1 := by
  unfold tcpOpenRfc793
  split
  · exact Goes.refl n
  · rename_i alloc
    apply (goes_tcpPcbAlloc alloc).trans
    obtain ⟨free, rfl⟩ := tcpPcbAlloc_spec alloc
    split
    · apply goes_startConnection user
      rw [Net.setPcb_self]
      exact List.Subset.refl _
    · refine Goes.trans ?_ (goes_awaitOpen user .listen)
      apply goes_setPcb
      apply ReflTransGen.single
      apply Turn.gone
      · exact id
      · exact le_refl _
      · exact fun free => by contradiction
      · exact fun _ => user

theorem goes_tcpConnect {id : Int} {foreignEnd : Endpoint} (user : action.user = true) :
    Goes n action n (tcpConnect n id foreignEnd).1 := by
  unfold tcpConnect
  split
  · exact Goes.refl n
  · split
    · exact Goes.refl n
    · dsimp only
      split
      · exact Goes.refl n
      · exact goes_startConnection user (List.Subset.refl _)

/-- The FIN of a close with the writes behind it. -/
theorem goes_finish {next : PcbState} (state : (m.pcbs i).state = .established ∧ next = .finWait1 ∨
    (m.pcbs i).state = .closeWait ∧ next = .lastAck) :
    Goes n action m ((tcpOutput m i (tcpFlgAck ||| tcpFlgFin) []).1.setPcb i
      { (tcpOutput m i (tcpFlgAck ||| tcpFlgFin) []).1.pcbs i with
        snd := { ((tcpOutput m i (tcpFlgAck ||| tcpFlgFin) []).1.pcbs i).snd with
          nxt := ((tcpOutput m i (tcpFlgAck ||| tcpFlgFin) []).1.pcbs i).snd.nxt + 1 }
        state := next }) := by
  apply goes_output (fun p => { p with snd := { p.snd with nxt := p.snd.nxt + 1 }, state := next }) rfl fun _ _ => rfl
  intro queue kept held
  exact .single (Turn.finished (l := line m i) state kept fun granted => held granted (.inl (by decide)))

theorem goes_tcpClose (id : Int) (user : action.user = true) : Goes n action m (tcpClose m id).1 := by
  unfold tcpClose
  split
  · exact Goes.refl m
  · dsimp only
    split
    · exact goes_close.trans (goes_tcpPcbRelease fun _ _ => .inl user)
    · rename_i state
      exact goes_finish (.inl ⟨state, rfl⟩)
    · rename_i state
      exact goes_finish (.inr ⟨state, rfl⟩)
    · exact Goes.refl m

theorem goes_tcpOpen (m : Net) : Goes n action m (tcpOpen m).1 := by
  unfold tcpOpen
  split
  · exact Goes.refl m
  · rename_i alloc
    exact (goes_tcpPcbAlloc alloc).trans (goes_setPcb_same rfl)

theorem goes_tcpBind (id : Int) (localEnd : Endpoint) : Goes n action m (tcpBind m id localEnd).1 := by
  unfold tcpBind
  split
  · exact Goes.refl m
  · split
    · exact Goes.refl m
    · split
      · exact Goes.refl m
      · exact goes_setPcb_same rfl

theorem goes_tcpListen (id : Int) (user : action.user = true) : Goes n action m (tcpListen m id).1 := by
  unfold tcpListen
  split
  · exact Goes.refl m
  · split
    · exact Goes.refl m
    · apply goes_setPcb
      apply ReflTransGen.single
      apply Turn.gone
      · exact fun receiving => receiving
      · exact le_refl _
      · exact fun free => by contradiction
      · exact fun _ => user

theorem goes_takeBacklog (m : Net) (i : PcbId) : Goes n action m (takeBacklog m i).1 := by
  unfold takeBacklog
  split
  · exact Goes.refl m
  · exact goes_setPcb_same rfl

theorem goes_tcpAccept (id : Int) : Goes n action m (tcpAccept m id).1 := by
  unfold tcpAccept
  split
  · exact Goes.refl m
  · split
    · exact Goes.refl m
    · split
      · exact Goes.refl m
      · exact goes_takeBacklog _ _

/-- Every round of a send is a turn of its block. -/
theorem goes_sendRounds (user : action.user = true) (data : List Byte) (mss rounds : Nat) : ∀ (m : Net) (sent : Nat),
    (m.pcbs i).state = .established ∨ (m.pcbs i).state = .closeWait →
    Goes n action m (sendRounds i data mss rounds m sent).1 := by
  induction rounds with
  | zero => exact fun m _ _ => Goes.refl m
  | succ rounds ih =>
      intro m sent state
      simp only [sendRounds]
      split
      · exact Goes.refl m
      · rename_i more
        split
        · exact Goes.refl m
        · generalize size : min (min mss (data.length - sent))
            ((m.pcbs i).snd.wnd.setWidth 32 - ((m.pcbs i).snd.nxt - (m.pcbs i).snd.una)).toNat = slen
          have within : ((data.drop sent).take slen).length = slen := by
            rw [List.length_take, List.length_drop]
            omega
          split
          · rename_i failure failed
            have result : failure = (tcpOutput m i (tcpFlgAck ||| tcpFlgPsh) ((data.drop sent).take slen)).1 := by rw [failed]
            rw [result]
            exact (goes_tcpOutput _ _ _ _).trans (goes_giveUp user)
          · rename_i success done
            have result : success = (tcpOutput m i (tcpFlgAck ||| tcpFlgPsh) ((data.drop sent).take slen)).1 := by rw [done]
            obtain ⟨-, queue, pcbs, -⟩ := tcpOutput_queue m i (tcpFlgAck ||| tcpFlgPsh) ((data.drop sent).take slen)
            rw [result]
            refine Goes.trans ?_ (ih _ _ ?_)
            · apply goes_output (fun p => { p with snd := { p.snd with nxt := p.snd.nxt + BitVec.ofNat 32 slen } }) rfl
                fun _ _ => rfl
              intro queue kept held
              apply ReflTransGen.single
              have turn : Turn n i action (line m i) { line m i with
                  nxt := (m.pcbs i).snd.nxt + BitVec.ofNat 32 ((data.drop sent).take slen).length
                  queue := queue.map QueueEntry.chunk } :=
                .sent state kept fun granted full => held granted (.inr full)
              rw [within] at turn
              exact turn
            · rw [Net.setPcb_self, pcbs, Function.update_self]
              exact state

theorem goes_retrySend (user : action.user = true) (data : List Byte) (sent : Nat) :
    Goes n action m (retrySend m i data sent).1 := by
  unfold retrySend
  split
  · rename_i state
    split
    · exact Goes.refl m
    · exact goes_sendRounds user _ _ _ _ _ (.inl state)
  · rename_i state
    split
    · exact Goes.refl m
    · exact goes_sendRounds user _ _ _ _ _ (.inr state)
  · exact Goes.refl m

theorem goes_tcpSend (user : action.user = true) (id : Int) (data : List Byte) : Goes n action m (tcpSend m id data).1 := by
  unfold tcpSend
  split
  · exact Goes.refl m
  · exact goes_retrySend user _ _

/-- A read keeps what was stored. -/
theorem goes_takeBytes (size : Nat) : Goes n action m (takeBytes m i size).1 := by
  unfold takeBytes
  dsimp only
  refine goes_of_lines ?_ fun j => ?_
  · rfl
  · unfold line
    rw [Net.emit_pcbs, Net.emit_log, Net.setPcb_log, flowOf_append]
    simp only [List.foldl_cons, List.foldl_nil, Flow.account]
    by_cases own : j = i
    · subst own
      rw [Net.setPcb_self, if_pos rfl]
      rfl
    · rw [Net.setPcb_of_ne _ _ own, if_neg (Ne.symm own)]

theorem goes_retryReceive (size : Nat) : Goes n action m (retryReceive m i size).1 := by
  unfold retryReceive
  dsimp only
  split
  · split
    · exact Goes.refl m
    · exact goes_takeBytes size
  · split
    · exact Goes.refl m
    · exact goes_takeBytes size
  · exact Goes.refl m

theorem goes_tcpReceive (id : Int) (size : Nat) : Goes n action m (tcpReceive m id size).1 := by
  unfold tcpReceive
  split
  · exact Goes.refl m
  · exact goes_retryReceive size

theorem goes_interruptCall (user : action.user = true) (call : Call) : Goes n action m (interruptCall m call).1 := by
  cases call with
  | opening i state => exact goes_giveUp user
  | accepting i => exact Goes.refl m
  | sending i data sent => exact Goes.refl m
  | receiving i size => exact Goes.refl m

theorem goes_settle (user : action.user = true) (m : Net) (outcome : Outcome) : Goes n action m (settle m outcome) := by
  cases outcome with
  | returns value => exact goes_emit rfl
  | sleeps i call =>
      unfold settle
      dsimp only
      split
      · cases call with
        | opening j state => exact (goes_giveUp user).trans (goes_emit rfl)
        | accepting j => exact goes_emit rfl
        | sending j data sent => exact goes_emit rfl
        | receiving j size => exact goes_emit rfl
      · have waits : Goes n action m (m.setPcb i { m.pcbs i with ctx := { (m.pcbs i).ctx with wc := (m.pcbs i).ctx.wc + 1 } }) :=
          goes_setPcb_same rfl
        apply waits.trans
        exact goes_of_same rfl rfl (List.append_nil _).symm (by simp)

theorem goes_retryCall (user : action.user = true) (call : Call) : Goes n action m (retryCall m call).1 := by
  cases call with
  | opening i state => exact goes_awaitOpen user state
  | accepting i =>
      simp only [retryCall]
      split
      · exact goes_tcpPcbRelease fun _ _ => .inl user
      · exact goes_takeBacklog _ _
  | sending i data sent => exact goes_retrySend user data sent
  | receiving i size => exact goes_retryReceive size

theorem goes_resume {index : Nat} (user : action.user = true) (resumed : resume m index = some after) :
    Goes n action m after := by
  unfold resume at resumed
  split at resumed
  · contradiction
  · rename_i call found
    dsimp only at resumed
    generalize woken : { m with calls := m.calls.eraseIdx index } = awake at resumed
    have start : Goes n action m awake := by
      rw [← woken]
      exact goes_of_same rfl rfl (List.append_nil _).symm (by simp)
    have same : awake.pcbs = m.pcbs := by rw [← woken]
    have counted (ctx : SchedCtx) : Goes n action m (awake.setPcb call.block { m.pcbs call.block with ctx }) := by
      apply start.trans
      apply goes_setPcb_same
      unfold line
      rw [same]
      rfl
    split at resumed
    · rw [← Option.some.inj resumed]
      exact ((counted _).trans (goes_interruptCall user _)).trans (goes_settle user _ _)
    · rw [← Option.some.inj resumed]
      exact ((counted _).trans (goes_retryCall user _)).trans (goes_settle user _ _)

theorem goes_resetReply (seg : SegmentInfo) (flags : Flags) (localEnd foreignEnd : Endpoint) :
    Goes n action m (resetReply m seg flags localEnd foreignEnd) := by
  unfold resetReply
  split
  · exact Goes.refl m
  · split
    · exact goes_tcpOutputSegment _ _
    · exact goes_tcpOutputSegment _ _

theorem goes_resetAck (seg : SegmentInfo) (localEnd foreignEnd : Endpoint) :
    Goes n action m (resetAck m seg localEnd foreignEnd) := goes_tcpOutputSegment _ _

/-- The block of a SYN listens, or was free. -/
theorem goes_synBlock (action : Action) {j : PcbId} (listens : (n.pcbs i).state = .listen) (made : synBlock n i = some (j, after)) :
    Goes n action n after ∧ ((after.pcbs j).state = .listen ∨ (n.pcbs j).state = .free) ∧
      (after.pcbs j).queue = (n.pcbs j).queue := by
  unfold synBlock at made
  split at made
  · obtain ⟨⟨k, fresh⟩, alloc, result⟩ := Option.map_eq_some_iff.mp made
    simp only [Prod.mk.injEq] at result
    obtain ⟨rfl, rfl⟩ := result
    refine ⟨(goes_tcpPcbAlloc alloc).trans (goes_setPcb_same rfl), ?_⟩
    obtain ⟨free, rfl⟩ := tcpPcbAlloc_spec alloc
    rw [Net.setPcb_self, Net.setPcb_self]
    exact ⟨.inr free, rfl⟩
  · simp only [Option.some.injEq, Prod.mk.injEq] at made
    obtain ⟨rfl, rfl⟩ := made
    exact ⟨Goes.refl n, .inl listens, rfl⟩

/-- A SYN for a block that listens begins a connection. -/
theorem goes_listenArrives (arrived : action.arrival = some a) (listens : (n.pcbs i).state = .listen) :
    Goes n action n (listenArrives n i a.seg a.flags a.localEnd a.foreignEnd) := by
  unfold listenArrives
  split
  · exact Goes.refl n
  · split
    · exact goes_resetAck _ _ _
    · split
      · rename_i flagged
        cases made : synBlock n i with
        | none => exact Goes.refl n
        | some pair =>
            obtain ⟨begun, idle, queue⟩ := goes_synBlock action listens made
            dsimp only
            generalize pair.1 = j at *
            generalize pair.2 = mid at *
            apply begun.trans
            apply goes_output (fun p => { p with snd := { p.snd with nxt := p.iss + 1, una := p.iss }, state := .synReceived })
            · rfl
            · intro k apart
              unfold line
              rw [Net.emit_log, Net.setPcb_log, flowOf_append]
              simp only [List.foldl_cons, List.foldl_nil, Flow.account, if_neg (Ne.symm apart)]
              exact congrArg (Line.of · _) (Net.setPcb_of_ne mid _ apart)
            · intro entries kept held
              apply ReflTransGen.single
              have flow := flowOf_append mid.log [.opened j] j
              simp only [List.foldl_cons, List.foldl_nil, Flow.account, if_true] at flow
              rw [Net.emit_log, Net.setPcb_log, flow]
              rw [Net.emit_pcbs, Net.setPcb_self] at kept held ⊢
              have whole : (n.pcbs j).queue.map QueueEntry.chunk ⊆ entries.map QueueEntry.chunk := by
                rw [← queue]
                exact kept
              exact Turn.passive (l := line mid j) arrived idle flagged whole fun granted => held granted (.inl (by decide))
      · exact Goes.refl n

/-- A block that does not listen is selected by both of its ends. -/
theorem foreignEnd_of_select {localEnd foreignEnd : Endpoint} (selected : tcpPcbSelect n localEnd (some foreignEnd) = some i)
    (state : (n.pcbs i).state ≠ .listen) : (n.pcbs i).foreignEnd = foreignEnd := by
  unfold tcpPcbSelect at selected
  dsimp only at selected
  split at selected
  · rename_i k found
    rw [← Option.some.inj selected]
    have both := List.find?_some found
    simp only [Bool.and_eq_true, decide_eq_true_eq] at both
    exact both.2
  · have member := List.mem_of_getLast? selected
    simp only [List.mem_filter, Bool.and_eq_true, decide_eq_true_eq] at member
    exact absurd member.2.1.2 state

theorem chunks_dropWhile (queue : List QueueEntry) (una : Seq) :
    (queue.dropWhile fun entry => entry.seq < una).map QueueEntry.chunk =
      (queue.map QueueEntry.chunk).dropWhile fun chunk => chunk.seq < una := by
  rw [List.dropWhile_map]
  rfl

theorem goes_finishSynSent {seg : SegmentInfo} {p : Pcb}
    (opens : p.iss < p.snd.una → Path n i action (line m i) (.of { p with state := .established } (flowOf m.log i)))
    (answers : ¬p.iss < p.snd.una → Path n i action (line m i) (.of { p with state := .synReceived } (flowOf m.log i))) :
    Goes n action m (finishSynSent m i seg p) := by
  unfold finishSynSent
  dsimp only
  split
  · rename_i above
    apply (goes_setPcb (opens above)).trans
    apply (goes_tcpOutput _ _ _ _).trans
    exact goes_setPcb_same rfl
  · rename_i below
    exact (goes_setPcb (answers below)).trans (goes_tcpOutput _ _ _ _)

/-- An arrival in SYN_SENT. -/
theorem goes_synSentArrives (chosen : Chosen n i action a) (state : (n.pcbs i).state = .synSent) :
    Goes n action n (synSentArrives n i a.seg a.flags a.localEnd a.foreignEnd) := by
  have peer : (n.pcbs i).foreignEnd = a.foreignEnd := foreignEnd_of_select chosen.2 (by rw [state]; exact fun same => by contradiction)
  unfold synSentArrives
  dsimp only
  split
  · exact goes_resetAck _ _ _
  · rename_i passes
    split
    · rename_i flagged
      split
      · rename_i taken
        simp only [Bool.and_eq_true, decide_eq_true_eq] at taken
        obtain ⟨acked, low, high⟩ := taken
        have above : (n.pcbs i).iss < a.seg.ack := by
          simp only [acked, Bool.true_and, Bool.or_eq_true, decide_eq_true_eq, not_or, BitVec.not_le] at passes
          exact passes.1
        apply goes_finishSynSent
        · intro _
          apply ReflTransGen.single
          unfold tcpRetransmitQueueCleanup Line.of
          dsimp only
          rw [chunks_dropWhile]
          exact Turn.connected (l := line n i) chosen state ⟨rfl, rfl, state, rfl⟩ flagged acked above low high
        · exact fun below => absurd above below
      · apply goes_finishSynSent
        · exact fun above => .single (Turn.stale (l := line n i) chosen state above)
        · exact fun _ => .single (Turn.answered (l := line n i) chosen state flagged peer)
    · exact Goes.refl n

/-- An acknowledgment in a state that takes it. -/
theorem goes_acknowledge (chosen : Chosen n i action a) (taken : takesAck (n.pcbs i).state = true)
    (state : takesText (m.pcbs i).state = true ∨ (m.pcbs i).state = .closeWait) (reaching : Reaching (n.pcbs i) a.seg a.flags) (snd : (m.pcbs i).snd = (n.pcbs i).snd)
    (queue : (m.pcbs i).queue = (n.pcbs i).queue) : Goes n action m (acknowledge m i a.seg).1 := by
  unfold acknowledge
  dsimp only
  split
  · rename_i moves
    simp only [Bool.and_eq_true, decide_eq_true_eq] at moves
    rw [snd] at moves
    have turn := Turn.acked (l := line m i) chosen state ⟨.inr ⟨taken, reaching⟩, moves⟩
      ⟨congrArg Snd.una snd, congrArg Snd.nxt snd, congrArg (List.map QueueEntry.chunk) queue⟩
    apply goes_setPcb
    apply ReflTransGen.single
    split
    · unfold tcpRetransmitQueueCleanup Line.of
      dsimp only
      rw [chunks_dropWhile]
      exact turn
    · unfold tcpRetransmitQueueCleanup Line.of
      dsimp only
      rw [chunks_dropWhile]
      exact turn
  · split
    · exact Goes.refl m
    · split
      · exact goes_tcpOutput _ _ _ _
      · exact Goes.refl m

theorem goes_checkSynchronized (chosen : Chosen n i action a) (taken : takesAck (n.pcbs i).state = true)
    (state : takesText (m.pcbs i).state = true ∨ (m.pcbs i).state = .closeWait) (reaching : Reaching (n.pcbs i) a.seg a.flags) (snd : (m.pcbs i).snd = (n.pcbs i).snd)
    (queue : (m.pcbs i).queue = (n.pcbs i).queue) : Goes n action m (checkSynchronized m i a.seg).1 := by
  have goes := goes_acknowledge chosen taken state reaching snd queue
  unfold checkSynchronized
  dsimp only
  split
  · split
    · rename_i last
      exact goes.trans (goes_setPcb (.single (Turn.finWait2 (l := line _ i) last.1)))
    · exact goes
  · exact goes

theorem goes_joinBacklog (m : Net) (i : PcbId) : Goes n action m (joinBacklog m i) := by
  unfold joinBacklog
  split
  · exact Goes.refl m
  · split
    · exact goes_setPcb_same rfl
    · exact Goes.refl m

/-- The fifth check. -/
theorem goes_checkAck (chosen : Chosen n i action a) (reaching : Reaching (n.pcbs i) a.seg a.flags) :
    Goes n action n (checkAck n i a.seg a.localEnd a.foreignEnd).1 := by
  unfold checkAck
  dsimp only
  cases state : (n.pcbs i).state with
  | synReceived =>
      dsimp only
      split
      · rename_i inside
        have opened : Goes n action n (n.setState i .established) :=
          goes_setPcb (.single (Turn.established (l := line n i) chosen state inside.1 inside.2))
        apply (opened.trans (goes_joinBacklog _ i)).trans
        obtain ⟨backlog, block⟩ := joinBacklog_pcbs (n.setState i .established) i i
        rw [Net.setState, Net.setPcb_self] at block
        apply goes_checkSynchronized chosen (by rw [state]; rfl) _ reaching
        · rw [Net.setState, block]
        · rw [Net.setState, block]
        · rw [Net.setState, block]
          exact .inl rfl
      · exact goes_resetAck _ _ _
  | established | finWait1 | finWait2 =>
      exact goes_checkSynchronized chosen (by rw [state]; rfl) (.inl (by rw [state]; rfl)) reaching rfl rfl
  | closeWait => exact goes_checkSynchronized chosen (by rw [state]; rfl) (.inr state) reaching rfl rfl
  | lastAck =>
      dsimp only
      split
      · apply goes_close.trans
        apply goes_tcpPcbRelease
        rintro j (rfl | ⟨k, member⟩)
        · exact .inr (.inr state)
        · refine .inr (.inl ⟨k, ?_⟩)
          by_cases own : k = i
          · subst own
            rwa [Net.setState, Net.setPcb_self] at member
          · rwa [Net.setState, Net.setPcb_of_ne _ _ own] at member
      · exact Goes.refl n
  | free | closed | listen | synSent | closing | timeWait => exact Goes.refl n

/-- The seventh step. -/
theorem goes_processText (chosen : Chosen n i action a)
    (due : takesText (m.pcbs i).state = true → TextDue (n.pcbs i) a.seg a.flags)
    (same : (m.pcbs i).rcv.nxt = (n.pcbs i).rcv.nxt) : Goes n action m (processText m i a.seg a.data a.len) := by
  unfold processText
  dsimp only
  split
  · rename_i stores
    refine Goes.trans ?_ (goes_tcpOutput _ _ _ _)
    intro begun
    refine ⟨begun, fun j => ?_⟩
    unfold line
    rw [Net.emit_pcbs, Net.emit_log, Net.setPcb_log, flowOf_append]
    simp only [List.foldl_cons, List.foldl_nil, Flow.account]
    by_cases own : j = i
    · subst own
      rw [Net.setPcb_self, if_pos rfl]
      exact .single (Turn.text (l := line m j) chosen (due stores.1) stores.2 stores.1 same)
    · rw [Net.setPcb_of_ne _ _ own, if_neg (Ne.symm own)]
  · exact Goes.refl m

/-- The eighth step. -/
theorem goes_checkFin (chosen : Chosen n i action a)
    (due : tcpFlgIsset a.flags tcpFlgFin = true → FinDue (n.pcbs i) a.seg a.flags)
    (seen : finSeen (m.pcbs i).state = finSeen (n.pcbs i).state)
    (same : (m.pcbs i).rcv.nxt = (n.pcbs i).rcv.nxt ∨ TextDue (n.pcbs i) a.seg a.flags ∧ a.len ≠ 0) :
    Goes n action m (checkFin m i a.seg a.flags) := by
  unfold checkFin
  dsimp only
  split
  · rename_i flagged
    generalize written : m.setPcb i { m.pcbs i with rcv := { (m.pcbs i).rcv with nxt := a.seg.seq + 1 } } = mid
    have moves (next : PcbState) (step : afterFin (m.pcbs i).state next) (write : Pcb → Pcb)
        (moved : ∀ queue, Line.of (write { mid.pcbs i with queue }) (flowOf mid.log i) =
          { line m i with due := a.seg.seq + 1, state := next, queue := queue.map QueueEntry.chunk }) :
        Goes n action m ((tcpOutput mid i tcpFlgAck []).1.setPcb i (write ((tcpOutput mid i tcpFlgAck []).1.pcbs i))) := by
      apply goes_output write
      · rw [← written]
        rfl
      · intro j apart
        rw [← written]
        exact congrArg (Line.of · _) (Net.setPcb_of_ne m _ apart)
      · intro queue kept _
        have before : (mid.pcbs i).queue = (m.pcbs i).queue := by rw [← written, Net.setPcb_self]
        rw [before] at kept
        rw [moved queue]
        have first := Turn.fin (l := line m i) chosen (due flagged.1) step seen same
        exact (ReflTransGen.single first).tail (.queued kept)
    have changed (next : PcbState) (step : afterFin (m.pcbs i).state next) :
        Goes n action m ((tcpOutput mid i tcpFlgAck []).1.setState i next) := by
      apply moves next step fun p => { p with state := next }
      intro queue
      rw [← written, Net.setPcb_self]
      rfl
    split
    · rename_i state
      exact changed _ (by rw [state]; rfl)
    · rename_i state
      exact changed _ (by rw [state]; rfl)
    · rename_i state
      apply changed
      rw [state]
      split
      · exact .inl rfl
      · exact .inr rfl
    · rename_i state
      exact changed _ (by rw [state]; rfl)
    · rename_i unopened opened waits half
      have plain : (tcpOutput mid i tcpFlgAck []).1.setPcb i ((tcpOutput mid i tcpFlgAck []).1.pcbs i) =
          (tcpOutput mid i tcpFlgAck []).1 := by
        unfold Net.setPcb
        rw [Function.update_eq_self]
      have goes := moves (m.pcbs i).state
      rw [← plain]
      apply goes _ id
      · intro queue
        rw [← written, Net.setPcb_self]
        rfl
      · cases state : (m.pcbs i).state with
        | synReceived => exact absurd state unopened
        | established => exact absurd state opened
        | finWait1 => exact absurd state waits
        | finWait2 => exact absurd state half
        | free | closed | listen | synSent | closing | timeWait | closeWait | lastAck => rfl
  · exact Goes.refl m

theorem acknowledge_rcv (m : Net) (i : PcbId) (seg : SegmentInfo) :
    ((acknowledge m i seg).1.pcbs i).rcv = (m.pcbs i).rcv := by
  unfold acknowledge
  dsimp only
  split
  · rw [Net.setPcb_self]
    split <;> rfl
  · split
    · rfl
    · split
      · obtain ⟨queue, same⟩ := tcpOutput_pcbs m i tcpFlgAck [] i
        rw [same]
      · rfl

/-- The rest of the fifth check moves no number of the peer. -/
theorem checkSynchronized_passes (m : Net) (i : PcbId) (seg : SegmentInfo) :
    ((checkSynchronized m i seg).1.pcbs i).rcv = (m.pcbs i).rcv ∧
    finSeen ((checkSynchronized m i seg).1.pcbs i).state = finSeen (m.pcbs i).state := by
  have rcv := acknowledge_rcv m i seg
  have state := (acknowledge_kept m i seg).2
  unfold checkSynchronized
  dsimp only
  split
  · split
    · rename_i last
      rw [Net.setState, Net.setPcb_self, rcv, ← state, last.1]
      exact ⟨rfl, rfl⟩
    · exact ⟨rcv, by rw [state]⟩
  · exact ⟨rcv, by rw [state]⟩

/-- What a segment finds that passes the fifth check. -/
theorem checkAck_passes {seg : SegmentInfo} {localEnd foreignEnd : Endpoint}
    (continues : (checkAck n i seg localEnd foreignEnd).2 = true) : AckPasses (n.pcbs i) seg ∧
      finSeen ((checkAck n i seg localEnd foreignEnd).1.pcbs i).state = finSeen (n.pcbs i).state ∧
      ((checkAck n i seg localEnd foreignEnd).1.pcbs i).rcv = (n.pcbs i).rcv := by
  have synchronized := checkSynchronized_passes n i seg
  have recent := (acknowledge_continues n i seg).mp
  unfold AckPasses
  unfold checkAck at continues ⊢
  dsimp only at continues ⊢
  cases state : (n.pcbs i).state with
  | synReceived =>
      rw [state] at continues
      dsimp only at continues ⊢
      split
      · rename_i inside
        obtain ⟨backlog, block⟩ := joinBacklog_pcbs (n.setState i .established) i i
        rw [Net.setState, Net.setPcb_self] at block
        have later := checkSynchronized_passes (joinBacklog (n.setState i .established) i) i seg
        rw [Net.setState, block] at later
        exact ⟨⟨fun _ => inside, fun taking => by simp [takesText] at taking, by simp⟩, later.2, later.1⟩
      · rename_i outside
        rw [if_neg outside] at continues
        exact absurd continues Bool.false_ne_true
  | established | finWait1 | finWait2 | closeWait =>
      rw [state] at continues synchronized
      dsimp only at continues ⊢
      rw [(checkSynchronized_kept n i seg).2.2] at continues
      exact ⟨⟨fun same => (by contradiction), fun _ => recent continues, by simp⟩, synchronized.2, synchronized.1⟩
  | lastAck =>
      rw [state] at continues
      dsimp only at continues
      split at continues
      · exact absurd continues Bool.false_ne_true
      · exact absurd continues Bool.false_ne_true
  | free | closed | listen | synSent | closing | timeWait =>
      exact ⟨⟨fun same => (by contradiction), fun taking => by simp [takesText] at taking, by simp⟩, by rw [state], rfl⟩

/-- The seventh step keeps the state, and moves the numbers of the peer only with text. -/
theorem processText_kept (m : Net) (i : PcbId) (seg : SegmentInfo) (data : Memory) (len : BitVec 32) :
    ((processText m i seg data len).pcbs i).state = (m.pcbs i).state ∧
      (((processText m i seg data len).pcbs i).rcv = (m.pcbs i).rcv ∨ takesText (m.pcbs i).state = true ∧ len ≠ 0) := by
  unfold processText
  dsimp only
  split
  · rename_i stores
    obtain ⟨queue, same⟩ := tcpOutput_pcbs (((m.setPcb i _).emit _)) i tcpFlgAck [] i
    rw [same, Net.emit_pcbs, Net.setPcb_self]
    exact ⟨rfl, .inr stores⟩
  · exact ⟨rfl, .inl rfl⟩

/-- A segment changes each block by turns. -/
theorem goes_tcpSegmentArrives (arrived : action.arrival = some a) :
    Goes n action n (tcpSegmentArrives n a.seg a.flags a.data a.len a.localEnd a.foreignEnd) := by
  unfold tcpSegmentArrives
  cases selected : tcpPcbSelect n a.localEnd (some a.foreignEnd) with
  | none => exact goes_resetReply _ _ _ _
  | some i =>
      have chosen : Chosen n i action a := ⟨arrived, selected⟩
      dsimp only
      split
      · exact goes_resetReply _ _ _ _
      · rename_i state
        exact goes_listenArrives arrived state
      · rename_i state
        exact goes_synSentArrives chosen state
      · split
        · split
          · exact Goes.refl n
          · exact goes_tcpOutput _ _ _ _
        · rename_i passes
          split
          · exact Goes.refl n
          · rename_i acked
            have reaching : Reaching (n.pcbs i) a.seg a.flags := by
              constructor
              · intro checks
                simpa [checks] using passes
              · simpa using acked
            have checked := goes_checkAck chosen reaching
            obtain ⟨-, due⟩ := checkAck_kept n i a.seg a.localEnd a.foreignEnd
            split
            · rename_i continues
              obtain ⟨ackPasses, seen, rcv⟩ := checkAck_passes continues
              obtain ⟨state, moved⟩ := processText_kept (checkAck n i a.seg a.localEnd a.foreignEnd).1 i a.seg a.data a.len
              have textDue (takes : takesText ((checkAck n i a.seg a.localEnd a.foreignEnd).1.pcbs i).state = true) :
                  TextDue (n.pcbs i) a.seg a.flags :=
                textDue_of_passes (due.mp ⟨continues, takes⟩) passes acked
              apply checked.trans
              apply (goes_processText chosen textDue (by rw [rcv])).trans
              apply goes_checkFin chosen
              · exact fun flagged => ⟨flagged, reaching, ackPasses⟩
              · rw [state, seen]
              · cases moved with
                | inl same => exact .inl (by rw [same, rcv])
                | inr stores => exact .inr ⟨textDue stores.1, stores.2⟩
            · exact checked

/-- Each step changes each block by turns. -/
theorem goes_advance (advanced : advance n action = some after) : Goes n action n after := by
  cases action with
  | resume index => exact goes_resume rfl advanced
  | input hdr payload len checksum src dst broadcast =>
      rw [← Option.some.inj advanced]
      cases arrived : tcpInputArrival hdr payload len checksum src dst broadcast with
      | none => exact Goes.refl n
      | some a => exact goes_tcpSegmentArrives arrived
  | timer =>
      rw [← Option.some.inj advanced]
      exact goes_tcpTimer n
  | interrupt =>
      rw [← Option.some.inj advanced]
      exact goes_eventHandler n
  | elapse time =>
      rw [← Option.some.inj advanced]
      exact goes_of_same rfl rfl (List.append_nil _).symm (by simp)
  | openRfc793 localEnd foreignEnd active =>
      rw [← Option.some.inj advanced]
      exact (goes_tcpOpenRfc793 rfl).trans (goes_settle rfl _ _)
  | close id =>
      rw [← Option.some.inj advanced]
      exact (goes_tcpClose id rfl).trans (goes_settle rfl _ _)
  | openSocket =>
      rw [← Option.some.inj advanced]
      exact (goes_tcpOpen n).trans (goes_settle rfl _ _)
  | connect id foreignEnd =>
      rw [← Option.some.inj advanced]
      exact (goes_tcpConnect rfl).trans (goes_settle rfl _ _)
  | bind id localEnd =>
      rw [← Option.some.inj advanced]
      exact (goes_tcpBind id localEnd).trans (goes_settle rfl _ _)
  | listen id =>
      rw [← Option.some.inj advanced]
      exact (goes_tcpListen id rfl).trans (goes_settle rfl _ _)
  | accept id =>
      rw [← Option.some.inj advanced]
      exact (goes_tcpAccept id).trans (goes_settle rfl _ _)
  | send id data =>
      rw [← Option.some.inj advanced]
      exact (goes_tcpSend rfl id data).trans (goes_settle rfl _ _)
  | receive id size =>
      rw [← Option.some.inj advanced]
      exact (goes_tcpReceive id size).trans (goes_settle rfl _ _)

theorem path_advance (advanced : advance n action = some after) (i : PcbId) : Path n i action (line n i) (line after i) :=
  (goes_advance advanced rfl).2 i

theorem advance_fate (advanced : advance n action = some after) : after.fate = n.fate := (goes_advance advanced rfl).1

/-- No connection is open at the start. -/
theorem line_initial (initial : Initial n) (i : PcbId) : line n i = .of Pcb.zero ⟨0, [], []⟩ := by
  unfold line
  rw [initial.1, initial.2.2]
  rfl

end BtbuOs.Tcp
