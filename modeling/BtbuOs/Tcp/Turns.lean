import BtbuOs.Tcp.Receive
import Mathlib.Logic.Relation

namespace BtbuOs.Tcp

open Bytes Machine Relation

/-- What an entry of the retransmission queue sends again, without its times. -/
structure Chunk where
  seq : Seq
  flg : Flags
  data : List Byte
  deriving DecidableEq

def QueueEntry.chunk (entry : QueueEntry) : Chunk := ⟨entry.seq, entry.flg, entry.data⟩

/-- What counts about the connection of a block. -/
structure Line where
  state : PcbState
  foreignEnd : Endpoint
  nxt : Seq
  una : Seq
  iss : Seq
  irs : Seq
  due : Seq
  queue : List Chunk
  opened : Nat
  stored : List Byte

def Line.of (p : Pcb) (flow : Flow) : Line where
  state := p.state
  foreignEnd := p.foreignEnd
  nxt := p.snd.nxt
  una := p.snd.una
  iss := p.iss
  irs := p.irs
  due := p.rcv.nxt
  queue := p.queue.map QueueEntry.chunk
  opened := flow.opened
  stored := flow.stored

def line (n : Net) (i : PcbId) : Line := .of (n.pcbs i) (flowOf n.log i)

/-- The user makes the step, not the network or the clock. -/
def Action.user : Action → Bool
  | .input _ _ _ _ _ _ _ | .timer | .interrupt | .elapse _ => false
  | _ => true

/-- There is memory for every entry of a queue. -/
def Granted (n : Net) : Prop := ∀ attempt, (n.fate attempt).queued = true

/-- The block waits in the backlog of another one. -/
def Waiting (n : Net) (i : PcbId) : Prop := ∃ k, i ∈ (n.pcbs k).backlog

/-- The peer's FIN was accepted before. -/
def finSeen : PcbState → Bool
  | .closeWait | .lastAck | .closing | .timeWait => true
  | _ => false

/-- The fifth check lets the segment pass. -/
def AckPasses (p : Pcb) (seg : SegmentInfo) : Prop :=
  (p.state = .synReceived → p.snd.una ≤ seg.ack ∧ seg.ack ≤ p.snd.nxt) ∧
    (takesText p.state = true ∨ p.state = .closeWait → seg.ack < p.snd.una ∨ seg.ack ≤ p.snd.nxt) ∧ p.state ≠ .lastAck

instance (p : Pcb) (seg : SegmentInfo) : Decidable (AckPasses p seg) := inferInstanceAs (Decidable (_ ∧ _))

/-- The segment reaches the fifth check. -/
def Reaching (p : Pcb) (seg : SegmentInfo) (flags : Flags) : Prop :=
  (checksSequence p.state = true → acceptable p seg = true) ∧ tcpFlgIsset flags tcpFlgAck = true

instance (p : Pcb) (seg : SegmentInfo) (flags : Flags) : Decidable (Reaching p seg flags) :=
  inferInstanceAs (Decidable (_ ∧ _))

/-- The FIN of the segment reaches the eighth step. -/
def FinDue (p : Pcb) (seg : SegmentInfo) (flags : Flags) : Prop :=
  tcpFlgIsset flags tcpFlgFin = true ∧ Reaching p seg flags ∧ AckPasses p seg

instance (p : Pcb) (seg : SegmentInfo) (flags : Flags) : Decidable (FinDue p seg flags) :=
  inferInstanceAs (Decidable (_ ∧ _))

/-- The states in which an acknowledgment of new data is taken. -/
def takesAck : PcbState → Bool
  | .synReceived | .established | .finWait1 | .finWait2 | .closeWait => true
  | _ => false

/-- The segment moves `snd.una`. -/
def AckMoves (p : Pcb) (seg : SegmentInfo) (flags : Flags) : Prop :=
  (p.state = .synSent ∧ tcpFlgIsset flags tcpFlgAck = true ∧ tcpFlgIsset flags tcpFlgSyn = true ∨
    takesAck p.state = true ∧ Reaching p seg flags) ∧ p.snd.una < seg.ack ∧ seg.ack ≤ p.snd.nxt

instance (p : Pcb) (seg : SegmentInfo) (flags : Flags) : Decidable (AckMoves p seg flags) :=
  inferInstanceAs (Decidable (_ ∧ _))

/-- The move of the state by an accepted FIN. -/
def afterFin : PcbState → PcbState → Prop
  | .synReceived, next | .established, next => next = .closeWait
  | .finWait1, next => next = .timeWait ∨ next = .closing
  | .finWait2, next => next = .timeWait
  | state, next => next = state

/-- The segment arrives at the block. -/
def Chosen (n : Net) (i : PcbId) (action : Action) (a : Arrival) : Prop :=
  action.arrival = some a ∧ tcpPcbSelect n a.localEnd (some a.foreignEnd) = some i

/-- This relation lists all that one part of a step from the network `n` can do to the connection of a block. -/
inductive Turn (n : Net) (i : PcbId) (action : Action) : Line → Line → Prop where
  | queued {l : Line} {queue : List Chunk} (kept : l.queue ⊆ queue) : Turn n i action l { l with queue }
  | gone {l after : Line} (ended : ¬Receiving after.state) (opened : l.opened ≤ after.opened)
      (freed : after.state = .free → l.state = .free ∨
        (action.user = true ∨ Waiting n i ∨ (n.pcbs i).state = .lastAck))
      (listens : after.state = .listen → action.user = true) : Turn n i action l after
  | syn {l : Line} {foreignEnd : Endpoint} {iss : Seq} {queue : List Chunk} (user : action.user = true)
      (kept : (n.pcbs i).queue.map QueueEntry.chunk ⊆ queue) (held : Granted n → ⟨iss, tcpFlgSyn, []⟩ ∈ queue) :
      Turn n i action l { l with
        state := .synSent, foreignEnd, iss, una := iss, nxt := iss + 1, queue, opened := l.opened + 1, stored := [] }
  | passive {l : Line} {a : Arrival} {iss : Seq} {queue : List Chunk} (arrived : action.arrival = some a)
      (idle : l.state = .listen ∨ (n.pcbs i).state = .free) (flagged : tcpFlgIsset a.flags tcpFlgSyn = true)
      (kept : (n.pcbs i).queue.map QueueEntry.chunk ⊆ queue)
      (held : Granted n → ⟨iss, tcpFlgSyn ||| tcpFlgAck, []⟩ ∈ queue) :
      Turn n i action l {
        state := .synReceived, foreignEnd := a.foreignEnd, iss, una := iss, nxt := iss + 1, irs := a.seg.seq
        due := a.seg.seq + 1, queue, opened := l.opened + 1, stored := [] }
  | answered {l : Line} {a : Arrival} (chosen : Chosen n i action a) (state : l.state = .synSent)
      (flagged : tcpFlgIsset a.flags tcpFlgSyn = true) (peer : l.foreignEnd = a.foreignEnd) :
      Turn n i action l { l with state := .synReceived, irs := a.seg.seq, due := a.seg.seq + 1 }
  | connected {l : Line} {a : Arrival} (chosen : Chosen n i action a) (state : l.state = .synSent)
      (same : l.una = (n.pcbs i).snd.una ∧ l.nxt = (n.pcbs i).snd.nxt ∧ (n.pcbs i).state = .synSent ∧
        l.queue = (n.pcbs i).queue.map QueueEntry.chunk)
      (flagged : tcpFlgIsset a.flags tcpFlgSyn = true) (acked : tcpFlgIsset a.flags tcpFlgAck = true)
      (above : l.iss < a.seg.ack) (low : l.una ≤ a.seg.ack) (high : a.seg.ack ≤ l.nxt) :
      Turn n i action l { l with
        state := .established, irs := a.seg.seq, due := a.seg.seq + 1, una := a.seg.ack
        queue := l.queue.dropWhile fun chunk => chunk.seq < a.seg.ack }
  | stale {l : Line} {a : Arrival} (chosen : Chosen n i action a) (state : l.state = .synSent) (above : l.iss < l.una) :
      Turn n i action l { l with state := .established, irs := a.seg.seq, due := a.seg.seq + 1 }
  | established {l : Line} {a : Arrival} (chosen : Chosen n i action a) (state : l.state = .synReceived)
      (low : l.una ≤ a.seg.ack) (high : a.seg.ack ≤ l.nxt) : Turn n i action l { l with state := .established }
  | acked {l : Line} {a : Arrival} (chosen : Chosen n i action a)
      (state : takesText l.state = true ∨ l.state = .closeWait) (taken : AckMoves (n.pcbs i) a.seg a.flags)
      (same : l.una = (n.pcbs i).snd.una ∧ l.nxt = (n.pcbs i).snd.nxt ∧
        l.queue = (n.pcbs i).queue.map QueueEntry.chunk) :
      Turn n i action l { l with una := a.seg.ack, queue := l.queue.dropWhile fun chunk => chunk.seq < a.seg.ack }
  | finWait2 {l : Line} (state : l.state = .finWait1) : Turn n i action l { l with state := .finWait2 }
  | text {l : Line} {a : Arrival} (chosen : Chosen n i action a) (due : TextDue (n.pcbs i) a.seg a.flags)
      (full : a.len ≠ 0) (takes : takesText l.state = true) (same : l.due = (n.pcbs i).rcv.nxt) :
      Turn n i action l { l with
        due := a.seg.seq + a.seg.len.setWidth 32, stored := l.stored ++ slice a.data 0 a.len.toNat }
  | fin {l : Line} {a : Arrival} {next : PcbState} (chosen : Chosen n i action a)
      (due : FinDue (n.pcbs i) a.seg a.flags) (moves : afterFin l.state next)
      (seen : finSeen l.state = finSeen (n.pcbs i).state)
      (same : l.due = (n.pcbs i).rcv.nxt ∨ TextDue (n.pcbs i) a.seg a.flags ∧ a.len ≠ 0) :
      Turn n i action l { l with due := a.seg.seq + 1, state := next }
  | sent {l : Line} {data : List Byte} {queue : List Chunk} (state : l.state = .established ∨ l.state = .closeWait)
      (kept : l.queue ⊆ queue) (held : Granted n → data ≠ [] → ⟨l.nxt, tcpFlgAck ||| tcpFlgPsh, data⟩ ∈ queue) :
      Turn n i action l { l with nxt := l.nxt + BitVec.ofNat 32 data.length, queue }
  | finished {l : Line} {next : PcbState} {queue : List Chunk}
      (state : l.state = .established ∧ next = .finWait1 ∨ l.state = .closeWait ∧ next = .lastAck)
      (kept : l.queue ⊆ queue) (held : Granted n → ⟨l.nxt, tcpFlgAck ||| tcpFlgFin, []⟩ ∈ queue) :
      Turn n i action l { l with nxt := l.nxt + 1, state := next, queue }

abbrev Path (n : Net) (i : PcbId) (action : Action) : Line → Line → Prop := ReflTransGen (Turn n i action)

/-- The part of the step from `n` that leads from `m` to `after` changes each block by turns. -/
def Goes (n : Net) (action : Action) (m after : Net) : Prop :=
  m.fate = n.fate → after.fate = n.fate ∧ ∀ j, Path n j action (line m j) (line after j)

variable {n m mid after : Net} {action : Action} {i : PcbId} {a : Arrival}

theorem Goes.refl (m : Net) : Goes n action m m := fun fate => ⟨fate, fun _ => .refl⟩

theorem Goes.trans (first : Goes n action m mid) (second : Goes n action mid after) : Goes n action m after := by
  intro fate
  obtain ⟨same, turns⟩ := first fate
  obtain ⟨last, more⟩ := second same
  exact ⟨last, fun j => (turns j).trans (more j)⟩

/-- The lines of the blocks stay the same. -/
theorem goes_of_lines (fate : after.fate = m.fate) (lines : ∀ j, line after j = line m j) : Goes n action m after := by
  intro begun
  refine ⟨fate.trans begun, fun j => ?_⟩
  rw [lines]

theorem goes_of_same {extra : List Event} (fate : after.fate = m.fate) (pcbs : after.pcbs = m.pcbs)
    (log : after.log = m.log ++ extra) (calm : ∀ event ∈ extra, event.calm = true) : Goes n action m after := by
  apply goes_of_lines fate
  intro j
  unfold line
  rw [pcbs, log, flowOf_calm calm]

theorem goes_emit {event : Event} (calm : event.calm = true) : Goes n action m (m.emit event) := by
  refine goes_of_same ?_ (m.emit_pcbs event) (m.emit_log event) ?_
  · rfl
  · intro other member
    rw [List.mem_singleton.mp member]
    exact calm

/-- A write to one block. -/
theorem goes_setPcb {p : Pcb} (own : Path n i action (line m i) (.of p (flowOf m.log i))) :
    Goes n action m (m.setPcb i p) := by
  intro begun
  refine ⟨begun, fun j => ?_⟩
  unfold line
  rw [Net.setPcb_log]
  by_cases same : j = i
  · subst same
    rw [Net.setPcb_self]
    exact own
  · rw [Net.setPcb_of_ne m p same]

/-- A write that changes nothing that counts. -/
theorem goes_setPcb_same {p : Pcb} (same : Line.of p (flowOf m.log i) = line m i) : Goes n action m (m.setPcb i p) := by
  apply goes_setPcb
  rw [same]

theorem goes_foldl {Item : Type} {round : Net → Item → Net} (goes : ∀ m item, Goes n action m (round m item))
    (items : List Item) (m : Net) : Goes n action m (items.foldl round m) := by
  induction items generalizing m with
  | nil => exact Goes.refl m
  | cons item rest ih => exact (goes m item).trans (ih _)

theorem goes_close : Goes n action m (m.setState i .closed) := by
  apply goes_setPcb
  apply ReflTransGen.single
  apply Turn.gone
  · exact id
  · exact le_refl _
  · exact fun free => by contradiction
  · exact fun listens => by contradiction

/-- A release frees some blocks and takes entries out of the backlogs of the others. -/
def Drained (freed : PcbId → Prop) (m after : Net) : Prop :=
  (after.fate = m.fate ∧ after.log = m.log) ∧ ∀ j, after.pcbs j = Pcb.zero ∧ freed j ∨
    ∃ backlog ⊆ (m.pcbs j).backlog, after.pcbs j = { m.pcbs j with backlog }

theorem Drained.refl (freed : PcbId → Prop) (m : Net) : Drained freed m m :=
  ⟨⟨rfl, rfl⟩, fun _ => .inr ⟨_, List.Subset.refl _, rfl⟩⟩

/-- The blocks that wait in a backlog after a release waited before. -/
theorem Drained.waiting {freed : PcbId → Prop} {j : PcbId} (drained : Drained freed m after) (waits : Waiting after j) :
    Waiting m j := by
  obtain ⟨k, member⟩ := waits
  obtain ⟨zero, -⟩ | ⟨backlog, part, same⟩ := drained.2 k
  · rw [zero] at member
    exact absurd member List.not_mem_nil
  · rw [same] at member
    exact ⟨k, part member⟩

theorem Drained.trans {freed : PcbId → Prop} (first : Drained freed m mid) (second : Drained freed mid after) :
    Drained freed m after := by
  refine ⟨⟨second.1.1.trans first.1.1, second.1.2.trans first.1.2⟩, fun j => ?_⟩
  obtain ⟨zero, free⟩ | ⟨backlog, part, same⟩ := second.2 j
  · exact .inl ⟨zero, free⟩
  · obtain ⟨zero, free⟩ | ⟨earlier, whole, before⟩ := first.2 j
    · left
      rw [zero] at part same
      rw [List.subset_nil.mp part] at same
      exact ⟨same, free⟩
    · right
      rw [before] at part same
      exact ⟨backlog, List.Subset.trans part whole, same⟩

theorem Drained.weaken {freed more : PcbId → Prop} (drained : Drained freed m after) (implied : ∀ j, freed j → more j) :
    Drained more m after :=
  ⟨drained.1, fun j => (drained.2 j).imp_left fun zero => ⟨zero.1, implied j zero.2⟩⟩

/-- The release of a block frees it and blocks that wait in a backlog. -/
theorem drained_release (rounds : Nat) : ∀ (m : Net) (i : PcbId),
    Drained (Waiting m) m (drainBacklog rounds m i) ∧ Drained (fun j => j = i ∨ Waiting m j) m (releaseWithin rounds m i) := by
  induction rounds with
  | zero =>
      intro m i
      simp only [drainBacklog, releaseWithin]
      exact ⟨Drained.refl _ m, Drained.refl _ m⟩
  | succ rounds ih =>
      intro m i
      constructor
      · simp only [drainBacklog]
        split
        · exact Drained.refl _ m
        · rename_i est rest backlog
          have popped : Drained (Waiting m) m (m.setPcb i { m.pcbs i with backlog := rest }) := by
            refine ⟨⟨rfl, rfl⟩, fun j => .inr ?_⟩
            by_cases own : j = i
            · subst own
              refine ⟨rest, ?_, Net.setPcb_self _ _ _⟩
              rw [backlog]
              exact List.subset_cons_self est rest
            · exact ⟨_, List.Subset.refl _, Net.setPcb_of_ne _ _ own⟩
          have released : Drained (Waiting m) _ _ := (ih (m.setPcb i { m.pcbs i with backlog := rest }) est).2.weaken <| by
            rintro j (rfl | waits)
            · exact ⟨i, by rw [backlog]; exact List.mem_cons_self⟩
            · exact popped.waiting waits
          have both := popped.trans released
          exact both.trans ((ih _ i).1.weaken fun j waits => both.waiting waits)
      · simp only [releaseWithin]
        split
        · exact Drained.refl _ m
        · have emptied := (ih (m.setPcb i { m.pcbs i with queue := [] }) i).1
          refine ⟨emptied.1, fun j => ?_⟩
          by_cases own : j = i
          · exact .inl ⟨by rw [own, Net.setPcb_self], .inl own⟩
          · rw [Net.setPcb_of_ne _ _ own]
            have drained := emptied.2 j
            rw [Net.setPcb_of_ne _ _ own] at drained
            refine drained.imp_left fun zero => ⟨zero.1, .inr ?_⟩
            obtain ⟨k, member⟩ := zero.2
            refine ⟨k, ?_⟩
            by_cases first : k = i
            · subst first
              rwa [Net.setPcb_self] at member
            · rwa [Net.setPcb_of_ne _ _ first] at member

/-- A release that the step may make. -/
theorem goes_tcpPcbRelease (may : ∀ j, j = i ∨ Waiting m j →
    action.user = true ∨ Waiting n j ∨ (n.pcbs j).state = .lastAck) : Goes n action m (tcpPcbRelease m i) := by
  intro begun
  obtain ⟨⟨fate, log⟩, blocks⟩ := (drained_release _ m i).2
  refine ⟨fate.trans begun, fun j => ?_⟩
  have flow : flowOf (tcpPcbRelease m i).log j = flowOf m.log j := congrArg (flowOf · j) log
  unfold line
  rw [flow]
  obtain ⟨zero, free⟩ | ⟨backlog, -, same⟩ := blocks j
  · apply ReflTransGen.single
    unfold tcpPcbRelease
    rw [zero]
    apply Turn.gone
    · exact id
    · exact le_refl _
    · exact fun _ => .inr (may j free)
    · exact fun listens => by contradiction
  · unfold tcpPcbRelease
    rw [same]
    exact .refl

theorem goes_giveUp (user : action.user = true) : Goes n action m (giveUp m i).1 :=
  goes_close.trans (goes_tcpPcbRelease fun _ _ => .inl user)

/-- The flags or the text ask for an entry in the queue. -/
def asksEntry (flg : Flags) (data : List Byte) : Prop := tcpFlgIsset flg (tcpFlgSyn ||| tcpFlgFin) = true ∨ data ≠ []

/-- The sequence number of an output. -/
def outputSeq (p : Pcb) (flg : Flags) : Seq := if tcpFlgIsset flg tcpFlgSyn then p.iss else p.snd.nxt

/-- An output changes the queue of its block alone, and keeps the entries. -/
theorem tcpOutput_queue (m : Net) (i : PcbId) (flg : Flags) (data : List Byte) :
    (tcpOutput m i flg data).1.fate = m.fate ∧ ∃ queue, (tcpOutput m i flg data).1.pcbs =
        Function.update m.pcbs i { m.pcbs i with queue } ∧
      (m.pcbs i).queue.map QueueEntry.chunk ⊆ queue.map QueueEntry.chunk ∧
      (Granted m → asksEntry flg data →
        (⟨outputSeq (m.pcbs i) flg, flg, data⟩ : Chunk) ∈ queue.map QueueEntry.chunk) := by
  have sent (m : Net) (segment : Segment) : (tcpOutputSegment m segment).1.fate = m.fate ∧
      (tcpOutputSegment m segment).1.pcbs = m.pcbs := by
    unfold tcpOutputSegment
    dsimp only
    split <;> exact ⟨rfl, rfl⟩
  unfold tcpOutput
  dsimp only
  rw [(sent _ _).1, (sent _ _).2]
  split
  · unfold tcpRetransmitQueueAdd
    split
    · refine ⟨rfl, _, rfl, ?_, fun _ _ => ?_⟩
      · rw [List.map_append]
        exact List.subset_append_left _ _
      · rw [List.map_append]
        exact List.mem_append_right _ List.mem_cons_self
    · rename_i denied
      refine ⟨rfl, _, (Function.update_eq_self i m.pcbs).symm, List.Subset.refl _, fun granted => ?_⟩
      exact absurd (granted m.attempts) denied
  · rename_i plain
    refine ⟨rfl, _, (Function.update_eq_self i m.pcbs).symm, List.Subset.refl _, fun _ asks => ?_⟩
    exact absurd (by simpa [asksEntry] using asks) plain

/-- An output with the writes to the block around it, which only together make a turn. -/
theorem goes_output {start : Net} {flg : Flags} {data : List Byte} (write : Pcb → Pcb) (fate : m.fate = start.fate)
    (others : ∀ j, j ≠ i → line m j = line start j)
    (own : ∀ queue, (m.pcbs i).queue.map QueueEntry.chunk ⊆ queue.map QueueEntry.chunk →
      (Granted n → asksEntry flg data →
        (⟨outputSeq (m.pcbs i) flg, flg, data⟩ : Chunk) ∈ queue.map QueueEntry.chunk) →
      Path n i action (line start i) (.of (write { m.pcbs i with queue }) (flowOf m.log i))) :
    Goes n action start ((tcpOutput m i flg data).1.setPcb i (write ((tcpOutput m i flg data).1.pcbs i))) := by
  intro begun
  obtain ⟨same, queue, pcbs, kept, held⟩ := tcpOutput_queue m i flg data
  refine ⟨(same.trans fate).trans begun, fun j => ?_⟩
  have flow : flowOf (tcpOutput m i flg data).1.log j = flowOf m.log j := (quiet_tcpOutput m i flg data).flow j
  unfold line
  rw [Net.setPcb_log, flow]
  by_cases this : j = i
  · subst this
    rw [Net.setPcb_self, pcbs, Function.update_self]
    refine own queue kept fun granted => held ?_
    intro attempt
    rw [fate, begun]
    exact granted attempt
  · rw [Net.setPcb_of_ne _ _ this, pcbs, Function.update_of_ne this]
    have rest := others j this
    unfold line at rest
    rw [rest]

/-- An output alone adds entries at most. -/
theorem goes_tcpOutput (m : Net) (i : PcbId) (flg : Flags) (data : List Byte) :
    Goes n action m (tcpOutput m i flg data).1 := by
  have plain : (tcpOutput m i flg data).1.setPcb i ((tcpOutput m i flg data).1.pcbs i) = (tcpOutput m i flg data).1 := by
    unfold Net.setPcb
    rw [Function.update_eq_self]
  rw [← plain]
  apply goes_output id rfl fun _ _ => rfl
  intro queue kept _
  exact .single (.queued kept)

theorem goes_tcpOutputSegment (m : Net) (segment : Segment) : Goes n action m (tcpOutputSegment m segment).1 := by
  unfold tcpOutputSegment
  dsimp only
  split
  · exact goes_of_same rfl rfl rfl (by simp [Event.calm])
  · exact goes_of_same rfl rfl (List.append_nil _).symm (by simp)

/-- A FIN is accepted in a state of a connection only. -/
theorem receiving_of_afterFin {state next : PcbState} (moves : afterFin state next) (receiving : Receiving next) :
    Receiving state := by
  cases state with
  | free | closed | listen =>
      rw [show next = _ from moves] at receiving
      exact receiving
  | _ => trivial

end BtbuOs.Tcp
