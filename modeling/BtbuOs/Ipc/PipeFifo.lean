import BtbuOs.Ipc.Pipe

namespace BtbuOs.Ipc

@[simp] theorem storedBytes_append (first second : List Event) :
    storedBytes (first ++ second) = storedBytes first ++ storedBytes second := by
  simp [storedBytes]

@[simp] theorem deliveredBytes_append (first second : List Event) :
    deliveredBytes (first ++ second) = deliveredBytes first ++ deliveredBytes second := by
  simp [deliveredBytes]

/-- The counters count the bytes of the trace, and the ring holds what is stored and not delivered. -/
structure Fifo (pi : Pipe) (stored delivered : List UInt8) : Prop where
  written : pi.nwrite = BitVec.ofNat 32 stored.length
  taken : pi.nread = BitVec.ofNat 32 delivered.length
  ordered : delivered.length ≤ stored.length
  bounded : stored.length ≤ delivered.length + pipeSize
  content : stored =
    delivered ++ Ring.window pi.data pipeSize delivered.length (stored.length - delivered.length)

namespace Fifo

variable {pi : Pipe} {stored delivered : List UInt8}

/-- The modular difference of the counters is the number of bytes in the ring. -/
theorem used (fifo : Fifo pi stored delivered) :
    (pi.nwrite - pi.nread).toNat = stored.length - delivered.length := by
  have ordered := fifo.ordered
  have bounded := fifo.bounded
  rw [fifo.written, fifo.taken, BitVec.toNat_sub, BitVec.toNat_ofNat, BitVec.toNat_ofNat]
  unfold pipeSize at bounded
  omega

/-- The free space is computed by the counters as well. -/
theorem free (fifo : Fifo pi stored delivered) :
    (pi.nread + BitVec.ofNat 32 pipeSize - pi.nwrite).toNat =
      delivered.length + pipeSize - stored.length := by
  have ordered := fifo.ordered
  have bounded := fifo.bounded
  rw [fifo.written, fifo.taken, BitVec.toNat_sub, BitVec.toNat_add, BitVec.toNat_ofNat,
    BitVec.toNat_ofNat, BitVec.toNat_ofNat]
  unfold pipeSize at *
  omega

/-- Equal counters mean an empty ring. -/
theorem empty_iff (fifo : Fifo pi stored delivered) :
    pi.nread = pi.nwrite ↔ delivered.length = stored.length := by
  have used := fifo.used
  have ordered := fifo.ordered
  constructor
  · intro same
    rw [same, BitVec.sub_self] at used
    simp only [BitVec.toNat_zero] at used
    omega
  · intro same
    rw [fifo.written, fifo.taken, same]

/-- The write position is the slot after the content, also when the counter has wrapped. -/
theorem writeSlot (fifo : Fifo pi stored delivered) :
    pi.nwrite.toNat % pipeSize =
      (delivered.length + (stored.length - delivered.length)) % pipeSize := by
  rw [Nat.add_sub_cancel' fifo.ordered, fifo.written, BitVec.toNat_ofNat]
  exact Nat.mod_mod_of_dvd _ (by decide)

/-- The read position is the slot of the oldest byte. -/
theorem readSlot (fifo : Fifo pi stored delivered) :
    pi.nread.toNat % pipeSize = delivered.length % pipeSize := by
  rw [fifo.taken, BitVec.toNat_ofNat]
  exact Nat.mod_mod_of_dvd _ (by decide)

/-- A chunk that fits the free space and the rest of the ring is appended to the stored bytes. -/
theorem store (fifo : Fifo pi stored delivered) (chunk : List UInt8)
    (room : chunk.length ≤ (pi.nread + BitVec.ofNat 32 pipeSize - pi.nwrite).toNat)
    (flat : chunk.length ≤ pipeSize - pi.nwrite.toNat % pipeSize) :
    Fifo { pi with
      data := Ring.blit pi.data (pi.nwrite.toNat % pipeSize) chunk
      nwrite := pi.nwrite + BitVec.ofNat 32 chunk.length } (stored ++ chunk) delivered := by
  rw [fifo.free] at room
  have ordered := fifo.ordered
  have bounded := fifo.bounded
  have inside : pi.nwrite.toNat % pipeSize < pipeSize := Nat.mod_lt _ (by decide)
  have slot := fifo.writeSlot
  refine ⟨?_, fifo.taken, ?_, ?_, ?_⟩
  · rw [fifo.written, List.length_append, ← BitVec.ofNat_add]
  · simp only [List.length_append]; omega
  · simp only [List.length_append]; omega
  · have count : (stored ++ chunk).length - delivered.length =
        stored.length - delivered.length + chunk.length := by
      simp only [List.length_append]; omega
    rw [count, slot, Ring.window_blit pi.data chunk (by omega) (by omega), ← List.append_assoc,
      ← fifo.content]

/-- The chunk that a reader copies is the front of the ring. -/
theorem chunk_eq (fifo : Fifo pi stored delivered) {size : Nat}
    (flat : size ≤ pipeSize - pi.nread.toNat % pipeSize) :
    (List.range size).map (fun offset => pi.data (pi.nread.toNat % pipeSize + offset)) =
      Ring.window pi.data pipeSize delivered.length size := by
  have inside : pi.nread.toNat % pipeSize < pipeSize := Nat.mod_lt _ (by decide)
  apply List.map_congr_left
  intro offset member
  have small := List.mem_range.mp member
  rw [fifo.readSlot] at flat inside ⊢
  rw [Ring.slot_add _ (by omega)]

/-- A chunk of at most the used bytes moves from the ring to the delivered bytes. -/
theorem deliver (fifo : Fifo pi stored delivered) {size : Nat}
    (present : size ≤ (pi.nwrite - pi.nread).toNat) :
    Fifo { pi with nread := pi.nread + BitVec.ofNat 32 size } stored
      (delivered ++ Ring.window pi.data pipeSize delivered.length size) := by
  rw [fifo.used] at present
  have ordered := fifo.ordered
  have bounded := fifo.bounded
  refine ⟨fifo.written, ?_, ?_, ?_, ?_⟩
  · rw [fifo.taken, List.length_append, Ring.window_length, ← BitVec.ofNat_add]
  · simp only [List.length_append, Ring.window_length]; omega
  · simp only [List.length_append, Ring.window_length]; omega
  · simp only [List.length_append, Ring.window_length]
    rw [List.append_assoc, ← Ring.window_append,
      show size + (stored.length - (delivered.length + size)) = stored.length - delivered.length by omega]
    exact fifo.content

/-- The delivered bytes are a prefix of the stored bytes. -/
theorem delivered_prefix (fifo : Fifo pi stored delivered) : delivered <+: stored :=
  ⟨_, fifo.content.symm⟩

/-- A pass of `pipewrite` appends exactly the chunk of its event. -/
theorem pipewritePass (fifo : Fifo pi stored delivered) (thread n w : Nat) (source : Nat → UInt8) :
    let result := Ipc.pipewritePass thread pi n w source
    Fifo result.2.1 (stored ++ storedBytes result.2.2) (delivered ++ deliveredBytes result.2.2) := by
  dsimp only [Ipc.pipewritePass]
  split
  · split
    · simpa [storedBytes, deliveredBytes] using fifo
    split
    · simpa [storedBytes, deliveredBytes] using fifo
    have size : ((List.range (writeSize pi n w)).map fun offset => source (w + offset)).length =
        writeSize pi n w := by simp
    have stored := fifo.store ((List.range (writeSize pi n w)).map fun offset => source (w + offset))
      (by rw [size]; exact (min_le_left _ _).trans (min_le_right _ _))
      (by rw [size]; exact min_le_right _ _)
    rw [size] at stored
    simpa [storedBytes, deliveredBytes] using stored
  · simpa [storedBytes, deliveredBytes] using fifo

/-- The waiting loop of `piperead` leaves the pipe unchanged. -/
theorem pipewaitPass (fifo : Fifo pi stored delivered) (thread n : Nat) :
    let result := Ipc.pipewaitPass thread pi n
    Fifo result.2.1 (stored ++ storedBytes result.2.2) (delivered ++ deliveredBytes result.2.2) := by
  dsimp only [Ipc.pipewaitPass]
  split
  · split <;> simpa [storedBytes, deliveredBytes] using fifo
  · simpa [storedBytes, deliveredBytes] using fifo

/-- A pass of the copy loop of `piperead` delivers exactly the oldest bytes. -/
theorem pipereadPass (fifo : Fifo pi stored delivered) (thread n r : Nat) (size : Option Nat) :
    let result := Ipc.pipereadPass thread pi n r size
    Fifo result.2.1 (stored ++ storedBytes result.2.2) (delivered ++ deliveredBytes result.2.2) := by
  dsimp only [Ipc.pipereadPass]
  split
  · split
    · simpa [storedBytes, deliveredBytes] using fifo
    have present : readSize pi n r ≤ (pi.nwrite - pi.nread).toNat :=
      (min_le_left _ _).trans (min_le_right _ _)
    have flat : readSize pi n r ≤ pipeSize - pi.nread.toNat % pipeSize := min_le_right _ _
    have delivered := fifo.deliver present
    rw [← fifo.chunk_eq flat] at delivered
    simpa [storedBytes, deliveredBytes] using delivered
  · simpa [storedBytes, deliveredBytes] using fifo

/-- Every pass of every call keeps the order of the bytes. -/
theorem callPass (fifo : Fifo pi stored delivered) {thread : Nat} {source : Nat → UInt8} {call : Call}
    {outcome : Pass} {next : Pipe} {events : List Event}
    (passed : Ipc.callPass thread pi source call = some (outcome, next, events)) :
    Fifo next (stored ++ storedBytes events) (delivered ++ deliveredBytes events) := by
  cases call with
  | idle => contradiction
  | writing n w =>
      have kept := fifo.pipewritePass thread n w source
      rwa [show Ipc.pipewritePass thread pi n w source = _ from Option.some.inj passed] at kept
  | waiting n =>
      have kept := fifo.pipewaitPass thread n
      rwa [show Ipc.pipewaitPass thread pi n = _ from Option.some.inj passed] at kept
  | reading n r size =>
      have kept := fifo.pipereadPass thread n r size
      rwa [show Ipc.pipereadPass thread pi n r size = _ from Option.some.inj passed] at kept

end Fifo

@[simp] theorem settle_pipe (sys : System) (thread : Nat) (outcome : Pass) :
    (sys.settle thread outcome).pipe = sys.pipe := by
  cases outcome <;> rfl

@[simp] theorem settle_live (sys : System) (thread : Nat) (outcome : Pass) :
    (sys.settle thread outcome).live = sys.live := by
  cases outcome <;> rfl

/-- While the pipe is allocated, its ring holds exactly the bytes in flight. -/
def Flow (sys : System) (trace : List Event) : Prop :=
  sys.live = true → Fifo sys.pipe (storedBytes trace) (deliveredBytes trace)

/-- The entry of a call changes only the thread's control location. -/
theorem enter_flow {sys after : System} {trace events : List Event} {thread : Nat} {n : Int} {call : Call}
    (flow : Flow sys trace) (entered : sys.enter thread n call = some (after, events)) :
    Flow after (trace ++ events) := by
  unfold System.enter at entered
  split at entered
  · split at entered
    · simp only [Option.some.injEq, Prod.mk.injEq] at entered
      obtain ⟨rfl, rfl⟩ := entered
      simpa [Flow] using flow
    · contradiction
  · contradiction

/-- Closing an end keeps counters and ring. -/
theorem Fifo.shut {pi : Pipe} {stored delivered : List UInt8} (fifo : Fifo pi stored delivered)
    (writable : Bool) : Fifo (pi.shut writable) stored delivered := by
  cases writable <;> exact ⟨fifo.written, fifo.taken, fifo.ordered, fifo.bounded, fifo.content⟩

/-- Closing one end keeps the ring; closing both ends ends the pipe's life. -/
theorem pipeclose_flow {sys after : System} {trace events : List Event} {writable : Bool}
    (flow : Flow sys trace) (closed : sys.pipeclose writable = some (after, events)) :
    Flow after (trace ++ events) := by
  unfold System.pipeclose at closed
  split at closed
  · rename_i allowed
    simp only [Bool.and_eq_true] at allowed
    split at closed
    · simp only [Option.some.injEq, Prod.mk.injEq] at closed
      obtain ⟨rfl, rfl⟩ := closed
      intro alive
      contradiction
    · simp only [Option.some.injEq, Prod.mk.injEq] at closed
      obtain ⟨rfl, rfl⟩ := closed
      intro _
      simpa using (flow allowed.1.2).shut writable
  · contradiction

/-- The entry of a call emits nothing. -/
theorem enter_quiet {sys after : System} {events : List Event} {thread : Nat} {n : Int} {call : Call}
    (entered : sys.enter thread n call = some (after, events)) (event : Event) : event ∉ events := by
  unfold System.enter at entered
  split at entered
  · split at entered
    · simp only [Option.some.injEq, Prod.mk.injEq] at entered
      obtain ⟨_, rfl⟩ := entered
      simp
    · contradiction
  · contradiction

/-- A close emits nothing. -/
theorem pipeclose_quiet {sys after : System} {events : List Event} {writable : Bool}
    (closed : sys.pipeclose writable = some (after, events)) (event : Event) : event ∉ events := by
  unfold System.pipeclose at closed
  split at closed
  · split at closed <;>
    · simp only [Option.some.injEq, Prod.mk.injEq] at closed
      obtain ⟨_, rfl⟩ := closed
      simp
  · contradiction

/-- One step of any thread keeps the order of the bytes. -/
theorem step_flow {sys after : System} {trace events : List Event} {action : Action}
    (flow : Flow sys trace) (stepped : step sys action = some (after, events)) :
    Flow after (trace ++ events) := by
  cases action with
  | pipewrite thread n => exact enter_flow flow stepped
  | piperead thread n => exact enter_flow flow stepped
  | resume thread =>
      simp only [step] at stepped
      split at stepped
      · contradiction
      · simp only [Option.some.injEq, Prod.mk.injEq] at stepped
        obtain ⟨rfl, rfl⟩ := stepped
        simpa [Flow] using flow
      · contradiction
  | pass source =>
      simp only [step] at stepped
      split at stepped
      · contradiction
      rename_i thread _
      obtain ⟨⟨outcome, pi, produced⟩, passed, same⟩ := Option.map_eq_some_iff.mp stepped
      simp only [Prod.mk.injEq] at same
      obtain ⟨rfl, rfl⟩ := same
      intro live
      rw [settle_live] at live
      rw [settle_pipe]
      have kept := (flow live).callPass passed
      have alive : sys.live = true := live
      simpa [alive] using kept
  | pipeclose writable => exact pipeclose_flow flow stepped
  | recycle page =>
      simp only [step] at stepped
      split at stepped
      · rename_i freed
        simp only [Option.some.injEq, Prod.mk.injEq] at stepped
        obtain ⟨rfl, rfl⟩ := stepped
        intro live
        simp_all
      · contradiction

theorem initial_flow {sys : System} (initial : Initial sys) : Flow sys [] := by
  obtain ⟨page, rfl⟩ := initial
  intro _
  exact ⟨rfl, rfl, Nat.le_refl _, by decide, rfl⟩

/-- The bytes keep their order in every run. -/
theorem reaches_flow {sys : System} {trace : List Event} (reached : Reaches sys trace) :
    Flow sys trace :=
  Machine.Reaches.invariant Flow (fun _ => initial_flow)
    (fun _ _ _ _ _ flow _ stepped => step_flow flow stepped) reached

/-- Only the waiting loop returns -1 to a reader, and only on an empty ring without a writer. -/
theorem callPass_readReturned {thread reader : Nat} {pi next : Pipe} {source : Nat → UInt8} {call : Call}
    {outcome : Pass} {events : List Event}
    (passed : callPass thread pi source call = some (outcome, next, events))
    (returned : .readReturned reader (-1) ∈ events) :
    pi.writeopen = false ∧ pi.nread = pi.nwrite := by
  cases call with
  | idle => contradiction
  | writing n w =>
      simp only [callPass, pipewritePass, Option.some.injEq] at passed
      split at passed <;> (try split at passed) <;> (try split at passed) <;>
        simp only [Prod.mk.injEq] at passed <;> obtain ⟨_, _, rfl⟩ := passed <;> simp at returned
  | waiting n =>
      simp only [callPass, pipewaitPass, Option.some.injEq] at passed
      split at passed
      · rename_i same
        split at passed
        · simp only [Prod.mk.injEq] at passed
          obtain ⟨_, _, rfl⟩ := passed
          simp at returned
        · rename_i closed
          exact ⟨by simpa using closed, same⟩
      · simp only [Prod.mk.injEq] at passed
        obtain ⟨_, _, rfl⟩ := passed
        simp at returned
  | reading n r size =>
      simp only [callPass, pipereadPass, Option.some.injEq] at passed
      split at passed <;> (try split at passed) <;>
        simp only [Prod.mk.injEq] at passed <;> obtain ⟨_, _, rfl⟩ := passed <;>
        simp at returned

/-- In every run a live pipe is a lossless queue, and -1 reports the end of the data. -/
theorem pipe_lossless {sys : System} {trace : List Event} (reached : Reaches sys trace)
    (live : sys.live = true) :
    (sys.pipe.nwrite - sys.pipe.nread).toNat ≤ pipeSize ∧
      deliveredBytes trace <+: storedBytes trace ∧
      storedBytes trace = deliveredBytes trace ++ Ring.window sys.pipe.data pipeSize
        sys.pipe.nread.toNat (sys.pipe.nwrite - sys.pipe.nread).toNat ∧
      ∀ action after events reader, step sys action = some (after, events) →
        .readReturned reader (-1) ∈ events →
        sys.pipe.writeopen = false ∧ deliveredBytes trace = storedBytes trace := by
  have fifo := reaches_flow reached live
  have ordered := fifo.ordered
  have bounded := fifo.bounded
  refine ⟨by rw [fifo.used]; omega, fifo.delivered_prefix, ?_, ?_⟩
  · rw [fifo.used, Ring.window_congr_front _ _ _ fifo.readSlot]
    exact fifo.content
  · intro action after events reader stepped returned
    cases action with
    | pipewrite thread n | piperead thread n => exact absurd returned (enter_quiet stepped _)
    | resume thread =>
        simp only [step] at stepped
        split at stepped <;> simp_all
    | pass source =>
        simp only [step] at stepped
        split at stepped
        · contradiction
        obtain ⟨⟨outcome, pi, produced⟩, passed, same⟩ := Option.map_eq_some_iff.mp stepped
        simp only [live, if_true, List.nil_append, Prod.mk.injEq] at same
        obtain ⟨_, rfl⟩ := same
        obtain ⟨closed, drained⟩ := callPass_readReturned passed returned
        refine ⟨closed, ?_⟩
        have equal := fifo.empty_iff.mp drained
        exact fifo.delivered_prefix.eq_of_length equal
    | pipeclose writable => exact absurd returned (pipeclose_quiet stepped _)
    | recycle page => simp [step, live] at stepped

/-- This run stores three bytes, delivers two of them and closes the write end. -/
theorem pipe_lossless_run :
    ∃ sys trace, Reaches sys trace ∧ storedBytes trace = [65, 66, 67] ∧
      deliveredBytes trace = [65, 66] ∧ (sys.pipe.nwrite - sys.pipe.nread).toNat ≤ pipeSize := by
  obtain ⟨sys, trace, reached, test⟩ := Machine.replay_witness step (fun _ _ _ => True) Initial
    [.piperead 1 2, .pass fun _ => 0, .pipewrite 2 3, .pass fun offset => 65 + UInt8.ofNat offset,
      .pass fun _ => 0, .resume 1, .pass fun _ => 0, .pass fun _ => 0, .pass fun _ => 0,
      .pipeclose true]
    { pipe := pipealloc fun _ => 0, live := true, calls := fun _ => .idle, running := none } ⟨_, rfl⟩
    (fun sys trace => sys.live && storedBytes trace == [65, 66, 67] && deliveredBytes trace == [65, 66])
    (by decide)
  simp only [Bool.and_eq_true, beq_iff_eq] at test
  exact ⟨sys, trace, reached, test.1.2, test.2, (pipe_lossless reached test.1.1).1⟩

end BtbuOs.Ipc
