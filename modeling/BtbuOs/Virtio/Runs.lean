import BtbuOs.Virtio.Transfers

namespace BtbuOs.Virtio

open FreeRunning Machine

variable {Block : Type} {medium : BitVec 64 → Block} {bufs : BufId → Buf Block} {s after : State Block} {b : BufId}
  {trace events tail : List (Event Block)}

/-- The events of a call that has not returned. -/
inductive Unfinished (b : BufId) : List (Event Block) → Prop where
  | idle : Unfinished b []
  | asked (write : Bool) (sector : BitVec 64) (block : Block) : Unfinished b [.submitted b write sector block]
  | answered (write : Bool) (sector : BitVec 64) (given result : Block) (same : write = true → result = given) :
      Unfinished b [.submitted b write sector given, .transferred b write sector result]
  | refused (write : Bool) (sector : BitVec 64) (block : Block) : Unfinished b [.submitted b write sector block, .failed b]

/-- The record of a run: the transfers are those of a register for each sector, and each call has one transfer between its start and its
end, with the data of its buffer. -/
structure Recorded (medium : BitVec 64 → Block) (s : State Block) (trace : List (Event Block)) : Prop where
  stored : s.device.medium = written medium trace
  faithful : Faithful medium trace
  once : ∀ b, ∃ (rounds : List (Round Block)) (tail : List (Event Block)), historyOf b trace = rounds.flatMap (cycle b) ++ tail ∧ Unfinished b tail

/-- The descriptors and chains in a state: each descriptor is free or in one call, the device reads the requests of calls that wait, and a
call finds its descriptors when at most one other waits. -/
structure Owned (s : State Block) : Prop where
  count : ∀ i < num, (inUse s).count i = if s.disk.free i then 0 else 1
  calls : s.calls.length ≤ 2
  chains : ∀ i ∈ available s ++ s.device.held, ∃ call ∈ s.calls, call.head = i ∧ readChain s.disk i =
    some { b := call.b, write := call.write, sector := sectorOf (s.bufs call.b).blockno, status := i }
  posts : ∀ b write, (virtioDiskRw s b write).2 ≠ [] ↔ s.calls.length ≤ 1

theorem Open.unfinished {call : Call} (opened : Open s call tail) : Unfinished call.b tail := by
  cases opened with
  | asked => exact .asked _ _ _
  | answered _ _ block same => exact .answered _ _ _ _ same
  | refused => exact .refused _ _ _

theorem Ready.recorded (ready : Ready medium s trace) : Recorded medium s trace := by
  refine ⟨ready.stored, ready.faithful, fun b => ?_⟩
  obtain ⟨rounds, tail, whole, ⟨rfl, -⟩ | ⟨call, -, rfl, opened⟩⟩ := ready.history b
  · exact ⟨rounds, [], whole, .idle⟩
  · exact ⟨rounds, tail, whole, opened.unfinished⟩

theorem Tidy.ownedState (tidy : Tidy s) : Owned s := by
  constructor
  · intro i inside
    cases free : s.disk.free i with
    | true =>
        refine List.count_eq_zero.mpr fun used => ?_
        rw [((tidy.owner i).mp used).2] at free
        cases free
    | false => exact List.count_eq_one_of_mem tidy.apart ((tidy.owner i).mpr ⟨inside, free⟩)
  · exact tidy.calls_le
  · intro i waits
    obtain ⟨call, member, rfl, -⟩ := (tidy.heads i).mp (by rw [outstanding, ← List.append_assoc]; exact List.mem_append_left _ waits)
    obtain ⟨i0, i1, i2, formed⟩ := tidy.formed call member
    exact ⟨call, member, rfl, formed.readChain⟩
  · intro b write
    rcases tidy.virtioDiskRw_outcome b write with ⟨few, i0, i1, i2, -, -, outcome⟩ | ⟨many, more, -, outcome⟩
    · rw [outcome]
      exact iff_of_true (by simp) few
    · rw [outcome, many]
      exact iff_of_false (by simp) (by decide)

/-- At first all descriptors are free and nothing waits. -/
theorem virtioDiskInit_ready (idle : ∀ b, (bufs b).disk = false) : Ready medium (virtioDiskInit bufs medium) [] := by
  refine ⟨⟨rfl, by simp [virtioDiskInit], List.nodup_nil, fun i => ?_, List.nodup_nil, fun b owned => ?_, ?_, fun i => ?_⟩, fun b => ?_, rfl, ?_⟩
  · simp [inUse, virtioDiskInit]
  · rw [virtioDiskInit, idle b] at owned
    cases owned
  · simp [outstanding, available, pending, virtioDiskInit]
  · simp [outstanding, available, pending, virtioDiskInit]
  · exact ⟨[], [], rfl, .inl ⟨rfl, by simp [virtioDiskInit]⟩⟩
  · intro past b sector block later whole
    simp at whole

/-- Every step keeps the record, or it is the panic for a transfer that the device failed. -/
theorem Ready.step {action : Action Block} (ready : Ready medium s trace) (exclusive : Exclusive s trace action)
    (stepped : step s action = some (after, events)) : Ready medium after (trace ++ events) ∨ Refused medium after (trace ++ events) := by
  rw [Virtio.step.eq_def, ready.tidy.running] at stepped
  simp only [Option.isSome_none, Bool.false_eq_true, if_false] at stepped
  cases action with
  | rw b write =>
      have next := ready.request exclusive write
      rw [Option.some.inj stepped] at next
      exact .inl next
  | intr =>
      cases stepped
      exact ready.intr
  | wake b =>
      obtain ⟨call, found, same⟩ := Option.map_eq_some_iff.mp stepped
      have member := List.mem_of_find?_eq_some found
      have done := List.find?_some found
      rw [decide_eq_true_eq] at done
      obtain ⟨rfl, done⟩ := done
      rw [ready.tidy.returnCall_ok member] at same
      cases same
      exact .inl (ready.wake member done)
  | fetch =>
      obtain ⟨mid, fetched, same⟩ := Option.map_eq_some_iff.mp stepped
      cases same
      exact .inl (ready.fetch fetched)
  | transfer head status => exact .inl (ready.transfer stepped)
  | fill b blockno data =>
      cases stepped
      exact .inl (ready.fill exclusive blockno data)

theorem Refused.recorded (refused : Refused medium s trace) : Recorded medium s trace := by
  obtain ⟨before, ready, rfl, -⟩ := refused
  exact ⟨ready.stored, ready.faithful, ready.recorded.once⟩

theorem ready_or_refused (idle : ∀ b, (bufs b).disk = false) (reached : Reaches step Exclusive (· = virtioDiskInit bufs medium) s trace) :
    Ready medium s trace ∨ Refused medium s trace := by
  apply reached.invariant fun s trace => Ready medium s trace ∨ Refused medium s trace
  · rintro s rfl
    exact .inl (virtioDiskInit_ready idle)
  · rintro s trace action after events (ready | ⟨before, -, rfl, -⟩) exclusive stepped
    · exact ready.step exclusive stepped
    · cases stepped

/-- In every run the disk is a register for each sector, and each call transfers its block once between its start and its end. -/
theorem virtio_disk_record (idle : ∀ b, (bufs b).disk = false) (reached : Reaches step Exclusive (· = virtioDiskInit bufs medium) s trace) :
    Recorded medium s trace := by
  rcases ready_or_refused idle reached with ready | refused
  · exact ready.recorded
  · exact refused.recorded

/-- A block that one buffer writes is read into another. -/
theorem virtio_disk_record_run : ∃ (s : State Nat) (trace : List (Event Nat)), Recorded (fun _ => 0) s trace ∧ s.calls = [] ∧ (s.bufs 1).data = 42 := by
  have idle (b : BufId) : ((fun _ => { disk := false, blockno := 0, data := 0 } : BufId → Buf Nat) b).disk = false := rfl
  obtain ⟨s, trace, reached, test⟩ := replay_witness step Exclusive
    (· = virtioDiskInit (fun _ => { disk := false, blockno := 0, data := 0 }) fun _ => 0)
    [.fill 0 3 42, .rw 0 true, .fetch, .transfer 0 0, .intr, .wake 0, .fill 1 3 0, .rw 1 false, .fetch, .transfer 0 0, .intr, .wake 1] _ rfl
    (fun s _ => s.calls.isEmpty && decide ((s.bufs 1).data = 42)) (by decide +kernel)
  rw [Bool.and_eq_true, List.isEmpty_iff, decide_eq_true_eq] at test
  exact ⟨s, trace, virtio_disk_record idle reached, test⟩

/-- In every run the descriptors have one owner each, and the one panic is for a transfer that the device failed. -/
theorem virtio_disk_owned (idle : ∀ b, (bufs b).disk = false) (reached : Reaches step Exclusive (· = virtioDiskInit bufs medium) s trace) :
    (s.panicked = none ∧ Owned s) ∨ (s.panicked = some "virtio_disk_intr status" ∧ ∃ b, .failed b ∈ trace) := by
  rcases ready_or_refused idle reached with ready | ⟨before, -, rfl, failed⟩
  · exact .inl ⟨ready.tidy.running, ready.tidy.ownedState⟩
  · exact .inr ⟨rfl, failed⟩

/-- Two requests are in flight, and the device fails one of them. -/
theorem virtio_disk_owned_run : ∃ (s : State Nat) (trace : List (Event Nat)), s.panicked = some "virtio_disk_intr status" ∧
    ((s.panicked = none ∧ Owned s) ∨ (s.panicked = some "virtio_disk_intr status" ∧ ∃ b, .failed b ∈ trace)) := by
  have idle (b : BufId) : ((fun _ => { disk := false, blockno := 0, data := 0 } : BufId → Buf Nat) b).disk = false := rfl
  obtain ⟨s, trace, reached, test⟩ := replay_witness step Exclusive
    (· = virtioDiskInit (fun _ => { disk := false, blockno := 0, data := 0 }) fun _ => 0)
    [.rw 0 true, .rw 1 false, .rw 2 true, .fetch, .fetch, .transfer 3 1, .transfer 0 0, .intr] _ rfl
    (fun s _ => decide (s.panicked = some "virtio_disk_intr status")) (by decide +kernel)
  exact ⟨s, trace, of_decide_eq_true test, virtio_disk_owned idle reached⟩

/-- The steps of the device and of the driver for the calls that wait, without a failed transfer. -/
def Working (s : State Block) (_ : List (Event Block)) : Action Block → Prop
  | .rw _ _ | .fill _ _ _ => False
  | .intr => pending s ≠ []
  | .transfer _ status => status = 0
  | .fetch | .wake _ => True

instance (s : State Block) (trace : List (Event Block)) (action : Action Block) : Decidable (Working s trace action) :=
  match action with
  | .rw _ _ | .fill _ _ _ => inferInstanceAs (Decidable False)
  | .intr => inferInstanceAs (Decidable (_ ≠ _))
  | .transfer _ _ => inferInstanceAs (Decidable (_ = _))
  | .fetch | .wake _ => inferInstanceAs (Decidable True)

/-- The working steps that are left for the calls that wait. -/
def remaining (s : State Block) : Nat :=
  s.calls.length + (3 * (available s).length + 2 * s.device.held.length + (pending s).length)

def Event.isFailed : Event Block → Bool
  | .failed _ => true
  | _ => false

/-- No transfer has failed. -/
def Sound (trace : List (Event Block)) : Prop := ∀ event ∈ trace, event.isFailed = false

instance (trace : List (Event Block)) : Decidable (Sound trace) := inferInstanceAs (Decidable (∀ event ∈ trace, _))

namespace Ready

/-- The device did what is pending. -/
theorem good {call : Call} (ready : Ready medium s trace) (sound : Sound trace) (member : call ∈ s.calls) (given : call.head ∈ pending s) :
    (s.disk.info call.head).status = 0 := by
  obtain ⟨rounds, tail, whole, opened⟩ := (ready.history call.b).opened ready.tidy member
  cases opened with
  | asked waits => exact absurd given (ready.tidy.waits_notMem waits)
  | answered _ good => exact good
  | refused =>
      have present : .failed call.b ∈ historyOf call.b trace := by
        rw [whole]
        simp
      cases sound _ (List.mem_of_mem_filter present)

/-- A working step is one of those that are left. -/
theorem work {action : Action Block} (ready : Ready medium s trace) (sound : Sound trace) (working : Working s trace action)
    (stepped : Virtio.step s action = some (after, events)) :
    Ready medium after (trace ++ events) ∧ Sound (trace ++ events) ∧ remaining after + 1 = remaining s := by
  have tidy := ready.tidy
  have calm (event : Event Block) (other : event.isFailed = false) : Sound (trace ++ [event]) := by
    intro e member
    rcases List.mem_append.mp member with old | new
    · exact sound e old
    · rw [List.mem_singleton.mp new]
      exact other
  rw [Virtio.step.eq_def, tidy.running] at stepped
  simp only [Option.isSome_none, Bool.false_eq_true, if_false] at stepped
  cases action with
  | rw b write => exact working.elim
  | fill b blockno data => exact working.elim
  | intr =>
      cases stepped
      rcases tidy.virtioDiskIntr_outcome with ⟨none, -⟩ | ⟨call, member, -, popped, ⟨good, outcome⟩ | ⟨bad, -⟩⟩
      · exact absurd none working
      · have next := ready.intr
        rw [outcome] at next ⊢
        refine ⟨next.resolve_right ?_, by rwa [List.append_nil], ?_⟩
        · rintro ⟨before, -, same, -⟩
          have stopped := congrArg State.panicked same
          rw [show (notified s call.b).panicked = s.panicked from rfl, tidy.running] at stopped
          cases stopped
        · rw [remaining, remaining, popped, List.length_cons]
          rfl
      · exact absurd (ready.good sound member (popped ▸ List.mem_cons_self ..)) bad
  | wake b =>
      obtain ⟨call, found, same⟩ := Option.map_eq_some_iff.mp stepped
      have member := List.mem_of_find?_eq_some found
      have done := List.find?_some found
      rw [decide_eq_true_eq] at done
      obtain ⟨rfl, done⟩ := done
      rw [tidy.returnCall_ok member] at same
      cases same
      refine ⟨ready.wake member done, calm _ rfl, ?_⟩
      have length := (tidy.split member).length_eq
      rw [List.length_cons] at length
      rw [remaining, remaining, length, show available (returned s call) = available s from rfl, show pending (returned s call) = pending s from rfl]
      show _ + (_ + 2 * s.device.held.length + _) + 1 = _
      omega
  | fetch =>
      obtain ⟨mid, fetched, same⟩ := Option.map_eq_some_iff.mp stepped
      cases same
      refine ⟨ready.fetch fetched, by rwa [List.append_nil], ?_⟩
      unfold deviceFetch at fetched
      split at fetched
      · cases fetched
      · rename_i differ
        cases fetched
        have popped := span_pop num_dvd s.disk.availRing differ
        rw [remaining, remaining, available, available, popped]
        simp only [List.length_cons, List.length_append, List.length_nil]
        show _ + (_ + _ + (pending s).length) + 1 = _
        omega
  | transfer head status =>
      cases show status = 0 from working
      refine ⟨ready.transfer stepped, ?_⟩
      obtain ⟨call, -, rfl, held, -, ⟨-, rfl, rfl⟩ | ⟨bad, -⟩⟩ := deviceTransfer_outcome tidy stepped
      · refine ⟨calm _ rfl, ?_⟩
        have ring : pending (transferred s call (blockOf s call)) = pending s ++ [call.head] := tidy.pending_deviceReturn held call.head 0
        have fewer : (transferred s call (blockOf s call)).device.held.length + 1 = s.device.held.length := by
          show (s.device.held.erase call.head).length + 1 = _
          have some := List.length_pos_of_mem held
          rw [List.length_erase_of_mem held]
          omega
        rw [remaining, remaining, ring, List.length_append, show available (transferred s call (blockOf s call)) = available s from rfl,
          show (transferred s call (blockOf s call)).calls = s.calls from rfl]
        simp only [List.length_singleton]
        omega
      · exact absurd rfl bad

/-- While a call waits, a working step can be taken. -/
theorem enabled (ready : Ready medium s trace) (waits : s.calls ≠ []) :
    ∃ action after events, Working s trace action ∧ Virtio.step s action = some (after, events) := by
  have tidy := ready.tidy
  simp only [Virtio.step, tidy.running, Option.isSome_none, Bool.false_eq_true, if_false]
  obtain ⟨call, member⟩ := List.exists_mem_of_ne_nil _ waits
  by_cases given : pending s = []
  · cases held : s.device.held with
    | cons head others =>
        have taken : head ∈ s.device.held := by rw [held]; exact List.mem_cons_self ..
        obtain ⟨other, present, rfl, -⟩ := (tidy.heads head).mp (List.mem_append_right _ (List.mem_append_left _ taken))
        obtain ⟨i0, i1, i2, formed⟩ := tidy.formed other present
        obtain ⟨⟨after, events⟩, stepped⟩ : ∃ result, deviceTransfer s other.head 0 = some result := by
          rw [deviceTransfer, if_neg (not_not.mpr taken), formed.readChain]
          exact ⟨_, rfl⟩
        exact ⟨.transfer other.head 0, after, events, rfl, stepped⟩
    | nil =>
        by_cases idle : s.device.next = s.disk.availIdx
        · have gone : outstanding s = [] := by rw [outstanding, held, given, available, idle, span_self]; rfl
          have done : (s.bufs call.b).disk = false := by
            refine Bool.eq_false_iff.mpr fun disk => ?_
            have waits := (tidy.heads call.head).mpr ⟨call, member, rfl, disk⟩
            rw [gone] at waits
            cases waits
          obtain ⟨other, found⟩ : ∃ other, s.calls.find? (fun other => other.b = call.b ∧ (s.bufs call.b).disk = false) = some other := by
            rw [← Option.isSome_iff_exists, List.find?_isSome]
            exact ⟨call, member, by simp [done]⟩
          exact ⟨.wake call.b, (returnCall s other).1, (returnCall s other).2, trivial, by dsimp only; rw [found]; rfl⟩
        · exact ⟨.fetch, _, [], trivial, by rw [deviceFetch, if_neg idle]; rfl⟩
  · exact ⟨.intr, virtioDiskIntr s, [], given, rfl⟩

/-- The working steps that were taken are fewer than those that were left. -/
theorem replay_working (actions : List (Action Block)) {final : State Block} {full : List (Event Block)} (ready : Ready medium s trace)
    (sound : Sound trace) (replayed : replay Virtio.step Working s trace actions = some (final, full)) :
    Ready medium final full ∧ Sound full ∧ actions.length + remaining final = remaining s := by
  induction actions generalizing s trace with
  | nil =>
      cases replayed
      exact ⟨ready, sound, Nat.zero_add _⟩
  | cons action rest ih =>
      rw [replay] at replayed
      split at replayed
      · rename_i working
        cases stepped : Virtio.step s action with
        | none =>
            rw [stepped] at replayed
            cases replayed
        | some pair =>
            rw [stepped] at replayed
            obtain ⟨next, calm, fewer⟩ := ready.work sound working stepped
            obtain ⟨last, quiet, count⟩ := ih next calm replayed
            refine ⟨last, quiet, ?_⟩
            rw [List.length_cons]
            omega
      · cases replayed

end Ready

/-- Unless the device fails a transfer, any working steps from any reached state are at most eight, and they go on until every call has
returned. -/
theorem virtio_disk_returns (idle : ∀ b, (bufs b).disk = false) (reached : Reaches step Exclusive (· = virtioDiskInit bufs medium) s trace)
    (sound : Sound trace) (actions : List (Action Block)) {final : State Block} {full : List (Event Block)}
    (replayed : replay step Working s trace actions = some (final, full)) :
    actions.length ≤ 8 ∧ final.panicked = none ∧
      (final.calls ≠ [] → ∃ action after events, Working final full action ∧ step final action = some (after, events)) := by
  have ready : Ready medium s trace := by
    rcases ready_or_refused idle reached with ready | ⟨-, -, -, b, failed⟩
    · exact ready
    · cases sound _ failed
  obtain ⟨last, -, count⟩ := ready.replay_working actions sound replayed
  refine ⟨?_, last.tidy.running, fun waits => last.enabled waits⟩
  have most := ready.tidy.calls_le
  have bound : (available s).length + (s.device.held.length + (pending s).length) ≤ s.calls.length := by
    have within : (outstanding s).Subperm (s.calls.map Call.head) := by
      refine ready.tidy.once.subperm fun i waits => ?_
      obtain ⟨call, member, head, -⟩ := (ready.tidy.heads i).mp waits
      exact List.mem_map.mpr ⟨call, member, head⟩
    have length := within.length_le
    rwa [outstanding, List.length_append, List.length_append, List.length_map] at length
  rw [remaining, remaining] at count
  omega

/-- Two calls return after eight steps. -/
theorem virtio_disk_returns_run : ∃ (s : State Nat) (trace : List (Event Nat)) (actions : List (Action Nat)) (final : State Nat)
    (full : List (Event Nat)), s.calls.length = 2 ∧ replay step Working s trace actions = some (final, full) ∧ final.calls = [] ∧
      actions.length ≤ 8 ∧ final.panicked = none := by
  have idle (b : BufId) : ((fun _ => { disk := false, blockno := 0, data := 0 } : BufId → Buf Nat) b).disk = false := rfl
  let actions : List (Action Nat) := [.fetch, .fetch, .transfer 3 0, .intr, .wake 1, .transfer 0 0, .intr, .wake 0]
  obtain ⟨s, trace, reached, test⟩ := replay_witness step Exclusive
    (· = virtioDiskInit (fun _ => { disk := false, blockno := 0, data := 0 }) fun _ => 0) [.rw 0 true, .rw 1 false] _ rfl
    (fun s trace => decide (Sound trace ∧ s.calls.length = 2) && (replay step Working s trace actions).any fun final => final.1.calls.isEmpty)
    (by decide +kernel)
  rw [Bool.and_eq_true, decide_eq_true_eq, Option.any_eq_true] at test
  obtain ⟨⟨sound, two⟩, ⟨final, full⟩, replayed, empty⟩ := test
  obtain ⟨bound, running, -⟩ := virtio_disk_returns idle reached sound actions replayed
  exact ⟨s, trace, actions, final, full, two, replayed, List.isEmpty_iff.mp empty, bound, running⟩

end BtbuOs.Virtio
