import BtbuOs.Tcp.Quiet

namespace BtbuOs.Tcp

open Bytes Machine

/-- The text of the segment reaches the seventh step in a state that takes it. -/
def TextDue (p : Pcb) (seg : SegmentInfo) (flags : Flags) : Prop :=
  acceptable p seg = true ∧ tcpFlgIsset flags tcpFlgAck = true ∧ AckAllows p seg

/-- The bytes that the connections of a block may store, by their number. -/
abbrev Allowed := PcbId → Nat → List Byte → Prop

/-- The buffer of each connection holds what was stored and not received, no copy left it, and the bytes are allowed. -/
structure Good (allowed : Allowed) (n : Net) : Prop where
  held : ∀ i, Receiving (n.pcbs i).state → (flowOf n.log i).stored =
    (flowOf n.log i).delivered ++ slice (n.pcbs i).buf 0 (bufSize - (n.pcbs i).rcv.wnd.toNat)
  ordered : ∀ i, (flowOf n.log i).delivered <+: (flowOf n.log i).stored
  inside : ∀ i place wnd text, .stored i place wnd text ∈ n.log →
    place + text.length ≤ bufSize ∧ text.length ≤ wnd.toNat
  told : ∀ i, allowed i (flowOf n.log i).opened (flowOf n.log i).stored

variable {allowed : Allowed} {n mid after : Net} {i : PcbId}

theorem Good.quiet (good : Good allowed n) (quiet : Quiet n after) : Good allowed after := by
  obtain ⟨extra, log, calm⟩ := quiet.log
  have flow := quiet.flow
  constructor
  · intro i receiving
    obtain ⟨was, wnd, buf⟩ := quiet.kept i receiving
    rw [flow, wnd, buf]
    exact good.held i was
  · intro i
    rw [flow]
    exact good.ordered i
  · intro i place wnd text member
    rw [log] at member
    rcases List.mem_append.mp member with old | new
    · exact good.inside i place wnd text old
    · have still := calm _ new
      simp [Event.calm] at still
  · intro i
    rw [flow]
    exact good.told i

theorem wnd_le (wnd : BitVec 16) : wnd.toNat ≤ bufSize := by
  have bound := wnd.isLt
  unfold bufSize
  omega

/-- A new connection has an empty buffer, whatever its state. -/
theorem Good.connected (good : Good allowed n) (empty : ∀ i opened, allowed i opened []) {extra : List Event} (log : after.log = n.log ++ .opened i :: extra)
    (calm : ∀ event ∈ extra, event.calm = true) (wnd : (after.pcbs i).rcv.wnd = BitVec.ofNat 16 bufSize)
    (others : ∀ j, j ≠ i → Receiving (after.pcbs j).state → Receiving (n.pcbs j).state ∧
      (after.pcbs j).rcv.wnd = (n.pcbs j).rcv.wnd ∧ (after.pcbs j).buf = (n.pcbs j).buf) : Good allowed after := by
  have flow (j : PcbId) :
      flowOf after.log j = if i = j then ⟨(flowOf n.log j).opened + 1, [], []⟩ else flowOf n.log j := by
    rw [log, ← List.singleton_append, ← List.append_assoc, flowOf_calm calm, flowOf_append]
    rfl
  constructor
  · intro j receiving
    rw [flow]
    by_cases own : i = j
    · subst own
      rw [if_pos rfl, wnd]
      rfl
    · obtain ⟨was, same, buf⟩ := others j (Ne.symm own) receiving
      rw [if_neg own, same, buf]
      exact good.held j was
  · intro j
    rw [flow]
    split
    · exact List.prefix_rfl
    · exact good.ordered j
  · intro j place wnd text member
    rw [log] at member
    rcases List.mem_append.mp member with old | new
    · exact good.inside j place wnd text old
    · rcases List.mem_cons.mp new with first | later
      · simp at first
      · have still := calm _ later
        simp [Event.calm] at still
  · intro j
    rw [flow]
    split
    · exact empty _ _
    · exact good.told j

/-- The writes of a new connection around its first output. -/
theorem Good.launched (good : Good allowed n) (empty : ∀ i opened, allowed i opened []) {p : Pcb} {flg : Flags} {draws : Nat} {done : Bool}
    (out : tcpOutput mid i flg [] = (after, done)) (wnd : p.rcv.wnd = BitVec.ofNat 16 bufSize)
    (sent : mid = { (n.setPcb i p).emit (.opened i) with draws }) :
    Good allowed after ∧ ∀ q : Pcb, q.rcv = (after.pcbs i).rcv → Good allowed (after.setPcb i q) := by
  have result : after = (tcpOutput mid i flg []).1 := by rw [out]
  obtain ⟨extra, log, calm⟩ := (quiet_tcpOutput mid i flg []).log
  have logged : after.log = n.log ++ .opened i :: extra := by
    rw [result, log, sent]
    exact List.append_assoc _ _ _
  have block (j : PcbId) : ∃ queue, after.pcbs j = { mid.pcbs j with queue } := by
    rw [result]
    exact tcpOutput_pcbs mid i flg [] j
  have own : (after.pcbs i).rcv.wnd = BitVec.ofNat 16 bufSize := by
    obtain ⟨queue, equal⟩ := block i
    rw [equal, sent]
    simp [wnd]
  have others (j : PcbId) (apart : j ≠ i) (receiving : Receiving (after.pcbs j).state) :
      Receiving (n.pcbs j).state ∧ (after.pcbs j).rcv.wnd = (n.pcbs j).rcv.wnd ∧
        (after.pcbs j).buf = (n.pcbs j).buf := by
    obtain ⟨queue, equal⟩ := block j
    have before : mid.pcbs j = n.pcbs j := by
      rw [sent]
      exact Net.setPcb_of_ne n p apart
    rw [equal, before] at receiving ⊢
    exact ⟨receiving, rfl, rfl⟩
  constructor
  · exact good.connected empty logged calm own others
  · intro q same
    have relogged : (after.setPcb i q).log = n.log ++ .opened i :: extra := logged
    apply good.connected empty relogged calm
    · rw [Net.setPcb_self, same]
      exact own
    · intro j apart
      rw [Net.setPcb_of_ne _ q apart]
      exact others j apart

theorem good_listenArrives {seg : SegmentInfo} {flags : Flags} {localEnd foreignEnd : Endpoint} (good : Good allowed n)
    (empty : ∀ i opened, allowed i opened []) : Good allowed (listenArrives n i seg flags localEnd foreignEnd) := by
  unfold listenArrives
  split
  · exact good
  · split
    · exact good.quiet (quiet_resetAck _ _ _ _)
    · split
      · cases made : synBlock n i with
        | none => exact good
        | some pair =>
            have begun := good.quiet (quiet_synBlock made)
            apply (Good.launched begun empty rfl ?_ rfl).2
            · rfl
            · rfl
      · exact good

/-- The write of text behind the bytes in the buffer. -/
theorem Good.stored (good : Good allowed n) {p : Pcb} {data : Memory} {len : Nat} (state : p.state = (n.pcbs i).state)
    (fits : len ≤ (n.pcbs i).rcv.wnd.toNat) (wnd : p.rcv.wnd.toNat = (n.pcbs i).rcv.wnd.toNat - len)
    (buf : p.buf = splice (n.pcbs i).buf (bufSize - (n.pcbs i).rcv.wnd.toNat) len data)
    (told : allowed i (flowOf n.log i).opened ((flowOf n.log i).stored ++ slice data 0 len)) :
    Good allowed ((n.setPcb i p).emit (.stored i (bufSize - (n.pcbs i).rcv.wnd.toNat) (n.pcbs i).rcv.wnd (slice data 0 len))) := by
  have bound := wnd_le (n.pcbs i).rcv.wnd
  have flow (j : PcbId) := flowOf_append n.log [.stored i (bufSize - (n.pcbs i).rcv.wnd.toNat) (n.pcbs i).rcv.wnd (slice data 0 len)] j
  constructor
  · intro j receiving
    rw [Net.emit_pcbs] at receiving ⊢
    rw [Net.emit_log, Net.setPcb_log, flow]
    by_cases own : j = i
    · subst own
      rw [Net.setPcb_self] at receiving ⊢
      have held := good.held j (by rwa [← state])
      have grown : bufSize - p.rcv.wnd.toNat = bufSize - (n.pcbs j).rcv.wnd.toNat + len := by omega
      have kept : slice (splice (n.pcbs j).buf (bufSize - (n.pcbs j).rcv.wnd.toNat) len data) 0
          (bufSize - (n.pcbs j).rcv.wnd.toNat) = slice (n.pcbs j).buf 0 (bufSize - (n.pcbs j).rcv.wnd.toNat) :=
        slice_splice_of_disjoint _ _ (by omega)
      simp only [List.foldl_cons, List.foldl_nil, Flow.account, if_true]
      rw [grown, buf, slice_add, kept, Nat.zero_add, slice_splice, held, List.append_assoc]
    · rw [Net.setPcb_of_ne n p own] at receiving ⊢
      simp only [List.foldl_cons, List.foldl_nil, Flow.account, if_neg (Ne.symm own)]
      exact good.held j receiving
  · intro j
    rw [Net.emit_log, Net.setPcb_log, flow]
    simp only [List.foldl_cons, List.foldl_nil, Flow.account]
    split
    · exact (good.ordered j).trans (List.prefix_append _ _)
    · exact good.ordered j
  · intro j place wnd text member
    rw [Net.emit_log, Net.setPcb_log] at member
    rcases List.mem_append.mp member with old | new
    · exact good.inside j place wnd text old
    · simp only [List.mem_singleton, Event.stored.injEq] at new
      obtain ⟨-, rfl, rfl, rfl⟩ := new
      rw [length_slice]
      omega
  · intro j
    rw [Net.emit_log, Net.setPcb_log, flow]
    simp only [List.foldl_cons, List.foldl_nil, Flow.account]
    split
    · rename_i own
      rw [← own]
      exact told
    · exact good.told j

/-- A segment whose text fits the window keeps the buffers. -/
theorem good_processText {seg : SegmentInfo} {data : Memory} {len : BitVec 32} (good : Good allowed n)
    (fits : takesText (n.pcbs i).state = true → len.toNat ≤ (n.pcbs i).rcv.wnd.toNat)
    (told : takesText (n.pcbs i).state = true →
      allowed i (flowOf n.log i).opened ((flowOf n.log i).stored ++ slice data 0 len.toNat)) :
    Good allowed (processText n i seg data len) := by
  unfold processText
  dsimp only
  split
  · rename_i stores
    have room := fits stores.1
    have short := (n.pcbs i).rcv.wnd.isLt
    apply Good.quiet _ (quiet_tcpOutput _ _ _ _)
    apply good.stored _ room
    · show ((n.pcbs i).rcv.wnd - len.setWidth 16).toNat = _
      bv_omega
    · rfl
    · exact told stores.1
    · rfl
  · exact good

/-- The bytes read leave the buffer, and those behind them move to its start. -/
theorem good_takeBytes {size : Nat} (good : Good allowed n) (begun : Receiving (n.pcbs i).state) :
    Good allowed (takeBytes n i size).1 := by
  have bound := wnd_le (n.pcbs i).rcv.wnd
  unfold takeBytes
  dsimp only
  generalize taken : min size (bufSize - (n.pcbs i).rcv.wnd.toNat) = len
  have inside : len ≤ bufSize - (n.pcbs i).rcv.wnd.toNat := by omega
  have grown : ((n.pcbs i).rcv.wnd + BitVec.ofNat 16 len).toNat = (n.pcbs i).rcv.wnd.toNat + len := by
    rw [BitVec.toNat_add, BitVec.toNat_ofNat]
    unfold bufSize at bound inside
    omega
  have split : slice (n.pcbs i).buf 0 (bufSize - (n.pcbs i).rcv.wnd.toNat) = slice (n.pcbs i).buf 0 len ++
      slice (n.pcbs i).buf len (bufSize - (n.pcbs i).rcv.wnd.toNat - len) := by
    have whole := slice_add (n.pcbs i).buf 0 len (bufSize - (n.pcbs i).rcv.wnd.toNat - len)
    rwa [Nat.add_sub_cancel' inside, Nat.zero_add] at whole
  have held := good.held i begun
  rw [split, ← List.append_assoc] at held
  constructor
  · intro j receiving
    rw [Net.emit_pcbs] at receiving ⊢
    rw [Net.emit_log, Net.setPcb_log, flowOf_append]
    by_cases own : j = i
    · subst own
      rw [Net.setPcb_self]
      simp only [List.foldl_cons, List.foldl_nil, Flow.account, if_true]
      have rest : bufSize - ((n.pcbs j).rcv.wnd.toNat + len) = bufSize - (n.pcbs j).rcv.wnd.toNat - len := by omega
      rw [grown, rest, slice_splice, held]
      congr 1
      apply slice_congr
      intro k _
      rw [Nat.zero_add]
    · rw [Net.setPcb_of_ne _ _ own] at receiving ⊢
      simp only [List.foldl_cons, List.foldl_nil, Flow.account, if_neg (Ne.symm own)]
      exact good.held j receiving
  · intro j
    rw [Net.emit_log, Net.setPcb_log, flowOf_append]
    simp only [List.foldl_cons, List.foldl_nil, Flow.account]
    split
    · rename_i own
      subst own
      rw [held]
      exact List.prefix_append _ _
    · exact good.ordered j
  · intro j place wnd text member
    rw [Net.emit_log, Net.setPcb_log] at member
    rcases List.mem_append.mp member with old | new
    · exact good.inside j place wnd text old
    · simp at new
  · intro j
    rw [Net.emit_log, Net.setPcb_log, flowOf_append]
    simp only [List.foldl_cons, List.foldl_nil, Flow.account]
    split
    · exact good.told j
    · exact good.told j

theorem good_retryReceive {size : Nat} (good : Good allowed n) : Good allowed (retryReceive n i size).1 := by
  unfold retryReceive
  dsimp only
  split
  · rename_i state
    split
    · exact good
    · exact good_takeBytes good (by simp [state, Receiving])
  · rename_i state
    split
    · exact good
    · exact good_takeBytes good (by simp [state, Receiving])
  · exact good

/-- The text of a segment that is due fits the window. -/
def Fits (n : Net) (a : Arrival) : Prop :=
  ∀ i, tcpPcbSelect n a.localEnd (some a.foreignEnd) = some i → TextDue (n.pcbs i) a.seg a.flags →
    a.len.toNat ≤ (n.pcbs i).rcv.wnd.toNat

/-- The text of a segment that is due leaves the bytes allowed. -/
def Extends (allowed : Allowed) (n : Net) (a : Arrival) : Prop :=
  ∀ i, tcpPcbSelect n a.localEnd (some a.foreignEnd) = some i → TextDue (n.pcbs i) a.seg a.flags →
    allowed i (flowOf n.log i).opened ((flowOf n.log i).stored ++ slice a.data 0 a.len.toNat)

theorem receiving_of_takesText {state : PcbState} (takes : takesText state = true) : Receiving state := by
  cases state with
  | established | finWait1 | finWait2 => trivial
  | _ => contradiction

theorem checksSequence_of_takesText {state : PcbState} (takes : takesText state = true) : checksSequence state = true := by
  cases state with
  | established | finWait1 | finWait2 => rfl
  | _ => contradiction

/-- The past that leads to the seventh step with text. -/
theorem textDue_of_passes {seg : SegmentInfo} {flags : Flags} {p : Pcb} (allowed : AckAllows p seg)
    (passes : ¬(checksSequence p.state && !acceptable p seg) = true) (acked : ¬(!tcpFlgIsset flags tcpFlgAck) = true) :
    TextDue p seg flags := by
  have checks : checksSequence p.state = true := by
    cases allowed with
    | inl opening => rw [opening.1]; rfl
    | inr taking => exact checksSequence_of_takesText taking.1
  refine ⟨?_, by simpa using acked, allowed⟩
  simpa [checks] using passes

theorem good_tcpSegmentArrives {a : Arrival} (good : Good allowed n) (empty : ∀ i opened, allowed i opened [])
    (fits : Fits n a) (told : Extends allowed n a) :
    Good allowed (tcpSegmentArrives n a.seg a.flags a.data a.len a.localEnd a.foreignEnd) := by
  unfold tcpSegmentArrives
  cases selected : tcpPcbSelect n a.localEnd (some a.foreignEnd) with
  | none => exact good.quiet (quiet_resetReply _ _ _ _ _)
  | some i =>
      dsimp only
      split
      · exact good.quiet (quiet_resetReply _ _ _ _ _)
      · exact good_listenArrives good empty
      · rename_i state
        exact good.quiet (quiet_synSentArrives state)
      · split
        · split
          · exact good
          · exact good.quiet (quiet_tcpOutput _ _ _ _)
        · rename_i passes
          split
          · exact good
          · rename_i acked
            obtain ⟨quiet, due⟩ := checkAck_kept n i a.seg a.localEnd a.foreignEnd
            have later := good.quiet quiet
            split
            · rename_i continues
              apply Good.quiet _ (quiet_checkFin _ _ _ _)
              apply good_processText later
              · intro takes
                rw [(quiet.kept i (receiving_of_takesText takes)).2.1]
                exact fits i selected (textDue_of_passes (due.mp ⟨continues, takes⟩) passes acked)
              · intro takes
                rw [quiet.flow]
                exact told i selected (textDue_of_passes (due.mp ⟨continues, takes⟩) passes acked)
            · exact later

theorem good_tcpInput {arrival : Option Arrival} (good : Good allowed n) (empty : ∀ i opened, allowed i opened [])
    (fits : ∀ a ∈ arrival, Fits n a) (told : ∀ a ∈ arrival, Extends allowed n a) :
    Good allowed (tcpInput n arrival) := by
  cases arrival with
  | none => exact good
  | some a => exact good_tcpSegmentArrives good empty (fits a rfl) (told a rfl)

theorem good_startConnection (good : Good allowed n)
    (empty : ∀ i opened, allowed i opened []) : Good allowed (startConnection n i).1 := by
  unfold startConnection
  dsimp only
  split
  · rename_i failed
    exact (Good.launched good empty failed rfl rfl).1.quiet (quiet_giveUp _ _)
  · rename_i sent
    apply Good.quiet _ (quiet_awaitOpen _ _ _)
    apply (Good.launched good empty sent rfl rfl).2
    rfl

theorem good_finish {result : Net × Outcome} (good : Good allowed result.1) : Good allowed (finish result) :=
  good.quiet (quiet_settle _ _)

theorem good_retryCall (good : Good allowed n) (call : Call) : Good allowed (retryCall n call).1 := by
  cases call with
  | opening i state => exact good.quiet (quiet_awaitOpen _ _ _)
  | accepting i =>
      simp only [retryCall]
      split
      · exact good.quiet (quiet_tcpPcbRelease _ _)
      · exact good.quiet (quiet_takeBacklog _ _)
  | sending i data sent => exact good.quiet (quiet_retrySend _ _ _ _)
  | receiving i size => exact good_retryReceive good

theorem good_resume {index : Nat} (good : Good allowed n) (resumed : resume n index = some after) : Good allowed after := by
  unfold resume at resumed
  split at resumed
  · contradiction
  · rename_i call found
    dsimp only at resumed
    generalize woken : { n with calls := n.calls.eraseIdx index } = awake at resumed
    have start : Quiet n awake := by
      rw [← woken]
      exact quiet_of_same rfl (List.append_nil _).symm (by simp)
    have same : awake.pcbs = n.pcbs := by rw [← woken]
    have counted (ctx : SchedCtx) : Good allowed (awake.setPcb call.block { n.pcbs call.block with ctx }) := by
      apply (good.quiet start).quiet
      apply quiet_setPcb
      intro receiving
      rw [same]
      exact ⟨receiving, rfl, rfl⟩
    split at resumed
    · rw [← Option.some.inj resumed]
      exact ((counted _).quiet (quiet_interruptCall _ _)).quiet (quiet_settle _ _)
    · rw [← Option.some.inj resumed]
      exact (good_retryCall (counted _) _).quiet (quiet_settle _ _)

theorem good_tcpOpenRfc793 {localEnd : Endpoint} {foreignEnd : Option Endpoint} {active : Bool} (good : Good allowed n)
    (empty : ∀ i opened, allowed i opened []) : Good allowed (tcpOpenRfc793 n localEnd foreignEnd active).1 := by
  unfold tcpOpenRfc793
  split
  · exact good
  · rename_i alloc
    have fresh := good.quiet (quiet_tcpPcbAlloc alloc)
    split
    · apply good_startConnection _ empty
      exact fresh.quiet (quiet_setPcb fun receiving => ⟨receiving, rfl, rfl⟩)
    · apply Good.quiet _ (quiet_awaitOpen _ _ _)
      exact fresh.quiet (quiet_setPcb fun receiving => absurd receiving id)

theorem good_tcpConnect {id : Int} {foreignEnd : Endpoint} (good : Good allowed n)
    (empty : ∀ i opened, allowed i opened []) : Good allowed (tcpConnect n id foreignEnd).1 := by
  unfold tcpConnect
  split
  · exact good
  · split
    · exact good
    · dsimp only
      split
      · exact good
      · apply good_startConnection _ empty
        exact good.quiet (quiet_setPcb fun receiving => ⟨receiving, rfl, rfl⟩)

theorem good_tcpReceive {id : Int} {size : Nat} (good : Good allowed n) : Good allowed (tcpReceive n id size).1 := by
  unfold tcpReceive
  split
  · exact good
  · exact good_retryReceive good

/-- The segment of an action, when it passes the checks of `tcp_input`. -/
def Action.arrival : Action → Option Arrival
  | .input hdr payload len checksum src dst broadcast => tcpInputArrival hdr payload len checksum src dst broadcast
  | _ => none

theorem good_advance {action : Action} (good : Good allowed n) (empty : ∀ i opened, allowed i opened [])
    (fits : ∀ a ∈ action.arrival, Fits n a) (told : ∀ a ∈ action.arrival, Extends allowed n a)
    (advanced : advance n action = some after) : Good allowed after := by
  cases action with
  | resume index => exact good_resume good advanced
  | input hdr payload len checksum src dst broadcast =>
      rw [← Option.some.inj advanced]
      exact good_tcpInput good empty fits told
  | timer =>
      rw [← Option.some.inj advanced]
      exact good.quiet (quiet_tcpTimer n)
  | interrupt =>
      rw [← Option.some.inj advanced]
      exact good.quiet (quiet_eventHandler n)
  | elapse time =>
      rw [← Option.some.inj advanced]
      exact good.quiet (quiet_of_same rfl (List.append_nil _).symm (by simp))
  | openRfc793 localEnd foreignEnd active =>
      rw [← Option.some.inj advanced]
      exact good_finish (good_tcpOpenRfc793 good empty)
  | close id =>
      rw [← Option.some.inj advanced]
      exact good_finish (good.quiet (quiet_tcpClose n id))
  | openSocket =>
      rw [← Option.some.inj advanced]
      exact good_finish (good.quiet (quiet_tcpOpen n))
  | connect id foreignEnd =>
      rw [← Option.some.inj advanced]
      exact good_finish (good_tcpConnect good empty)
  | bind id localEnd =>
      rw [← Option.some.inj advanced]
      exact good_finish (good.quiet (quiet_tcpBind n id localEnd))
  | listen id =>
      rw [← Option.some.inj advanced]
      exact good_finish (good.quiet (quiet_tcpListen n id))
  | accept id =>
      rw [← Option.some.inj advanced]
      exact good_finish (good.quiet (quiet_tcpAccept n id))
  | send id data =>
      rw [← Option.some.inj advanced]
      exact good_finish (good.quiet (quiet_tcpSend n id data))
  | receive id size =>
      rw [← Option.some.inj advanced]
      exact good_finish (good_tcpReceive good)

theorem good_initial (empty : ∀ i opened, allowed i opened []) (initial : Initial n) : Good allowed n := by
  obtain ⟨pcbs, -, log⟩ := initial
  constructor
  · intro i receiving
    rw [pcbs] at receiving
    exact absurd receiving id
  · intro i
    rw [log]
    exact List.prefix_rfl
  · intro i place wnd text member
    rw [log] at member
    contradiction
  · intro i
    rw [log]
    exact empty _ _

/-- The bytes of the last connection of a block that were stored and not received. -/
def buffered (n : Net) (i : PcbId) : Nat := (flowOf n.log i).stored.length - (flowOf n.log i).delivered.length

/-- The text of every segment that is due fits the window. -/
def Fitting (n : Net) (_ : List Event) (action : Action) : Prop := ∀ a ∈ action.arrival, Fits n a

instance (p : Pcb) (seg : SegmentInfo) (flags : Flags) : Decidable (TextDue p seg flags) :=
  inferInstanceAs (Decidable (_ ∧ _ ∧ _))

instance (n : Net) (a : Arrival) : Decidable (Fits n a) :=
  inferInstanceAs (Decidable (∀ _, _ → _ → _ ≤ _))

instance (n : Net) (trace : List Event) (action : Action) : Decidable (Fitting n trace action) :=
  inferInstanceAs (Decidable (∀ a ∈ action.arrival, Fits n a))

/-- A guard that lets no text overrun the buffer or leave the allowed bytes keeps the buffers over whole runs. -/
theorem good_run {guard : Net → List Event → Action → Prop} {n : Net} {trace : List Event}
    (empty : ∀ i opened, allowed i opened [])
    (fits : ∀ n trace action, guard n trace action → Fitting n trace action)
    (told : ∀ n trace action, Good allowed n → guard n trace action → ∀ a ∈ action.arrival, Extends allowed n a)
    (reached : Reaches step guard Initial n trace) : Good allowed n := by
  apply reached.invariant (fun n _ => Good allowed n)
  · exact fun n initial => good_initial empty initial
  · intro n trace action after events good guarded stepped
    obtain ⟨final, advanced, result⟩ := Option.map_eq_some_iff.mp stepped
    simp only [Prod.mk.injEq] at result
    rw [← result.1]
    exact good_advance good empty (fits n trace action guarded) (told n trace action good guarded) advanced

/-- While the text of every segment fits, the window counts the free bytes of the buffer and every copy stays inside. -/
theorem receive_buffer {n : Net} {trace : List Event} (reached : Reaches step Fitting Initial n trace) :
    (∀ i, Receiving (n.pcbs i).state → (n.pcbs i).rcv.wnd.toNat + buffered n i = bufSize) ∧
      ∀ i place wnd text, .stored i place wnd text ∈ n.log → place + text.length ≤ bufSize ∧ text.length ≤ wnd.toNat := by
  have good : Good (fun _ _ _ => True) n := by
    apply good_run _ _ _ reached
    · exact fun _ _ => trivial
    · exact fun _ _ _ fits => fits
    · exact fun _ _ _ _ _ _ _ _ _ _ => trivial
  constructor
  · intro i receiving
    have lengths := congrArg List.length (good.held i receiving)
    rw [List.length_append, length_slice] at lengths
    have bound := wnd_le (n.pcbs i).rcv.wnd
    unfold buffered
    omega
  · exact good.inside

/-- A machine whose outputs all succeed. -/
def firstNet : Net where
  pcbs := fun _ => Pcb.zero
  calls := []
  log := []
  fate := fun _ => ⟨true, true⟩
  attempts := 0
  random := fun _ => 0
  draws := 0
  route := fun _ => some ⟨0x0a000001, 1500⟩
  now := 0

/-- A segment of the peer at 10.0.0.2 whose text is `size` bytes from `first` on. -/
def peerSegment (seq ack : Seq) (flg : Flags) (first : Byte) (size : Nat) : Action :=
  .input { src := 2000, dst := 80, seq, ack, off := 0x50, flg, wnd := 65535, up := 0 }
    (fun k => first + BitVec.ofNat 8 (k - 20)) (BitVec.ofNat 32 (20 + size)) true 0x0a000002 0x0a000001 0x0a0000ff

/-- A passive open and the handshake with the peer, whose stream begins at 1001. -/
def handshake : List Action :=
  [.openRfc793 ⟨0x0a000001, 80⟩ none false, peerSegment 1000 0 tcpFlgSyn 0 0, peerSegment 1001 1 tcpFlgAck 0 0]

/-- After the handshake, the first bytes of a segment and a read of three of them leave two in the buffer. -/
theorem receive_buffer_run : ∃ n trace, Reaches step Fitting Initial n trace ∧ Receiving (n.pcbs 0).state ∧
    buffered n 0 = 2 ∧ (n.pcbs 0).rcv.wnd.toNat + 2 = bufSize := by
  obtain ⟨n, trace, reached, test⟩ := replay_witness step Fitting Initial
    (handshake ++ [peerSegment 1001 1 tcpFlgAck 97 5, .receive 0 3]) firstNet ⟨rfl, rfl, rfl⟩
    (fun n _ => decide (Receiving (n.pcbs 0).state ∧ buffered n 0 = 2)) (by decide +kernel)
  obtain ⟨receiving, two⟩ := of_decide_eq_true test
  have whole := (receive_buffer reached).1 0 receiving
  rw [two] at whole
  exact ⟨n, trace, reached, receiving, two, whole⟩

/-- The copy leaves the buffer. -/
def Event.overruns : Event → Bool
  | .stored _ place _ text => bufSize < place + text.length
  | _ => false

/-- The 45th segment of 1460 bytes meets a window of 1295. -/
theorem buffer_overrun : ¬∀ n trace, Reaches step (fun _ _ _ => True) Initial n trace →
    (∀ i, Receiving (n.pcbs i).state → (n.pcbs i).rcv.wnd.toNat + buffered n i = bufSize) ∧
      ∀ i place wnd text, .stored i place wnd text ∈ n.log →
        place + text.length ≤ bufSize ∧ text.length ≤ wnd.toNat := by
  intro claim
  obtain ⟨n, trace, reached, test⟩ := replay_witness step (fun _ _ _ => True) Initial
    (handshake ++ (List.range 45).map fun k => peerSegment (BitVec.ofNat 32 (1001 + 1460 * k)) 1 tcpFlgAck 0 1460)
    firstNet ⟨rfl, rfl, rfl⟩
    (fun n _ => n.log.any Event.overruns) (by decide +kernel)
  obtain ⟨event, member, overrun⟩ := List.any_eq_true.mp test
  cases event with
  | stored i place wnd text =>
      have inside := ((claim n trace reached).2 i place wnd text member).1
      exact absurd (of_decide_eq_true overrun) (by omega)
  | _ => contradiction

end BtbuOs.Tcp
