import BtbuOs.Virtio.Requests

namespace BtbuOs.Virtio

open FreeRunning Machine

variable {Block : Type} {s after : State Block} {b : BufId} {call other : Call} {i : Nat} {trace events tail : List (Event Block)}

/-- The state behind the interrupt for a call. -/
def notified (s : State Block) (b : BufId) : State Block :=
  (s.setDisk { s.disk with seen := s.disk.seen + 1 }).setBuf b { s.bufs b with disk := false }

/-- The state behind the return of a call. -/
def returned (s : State Block) (call : Call) : State Block :=
  { s with
    disk := released { s.disk with info := Function.update s.disk.info call.head { s.disk.info call.head with b := none } } call.idx
    calls := s.calls.filter fun other => other.b ≠ call.b }

namespace Tidy

/-- An interrupt finds nothing, or the oldest chain of a call, which the device transferred or failed. -/
theorem virtioDiskIntr_outcome (tidy : Tidy s) : (pending s = [] ∧ virtioDiskIntr s = s) ∨
    ∃ call ∈ s.calls, (s.bufs call.b).disk = true ∧ pending s = call.head :: pending (notified s call.b) ∧
      (((s.disk.info call.head).status = 0 ∧ virtioDiskIntr s = notified s call.b) ∨
        ((s.disk.info call.head).status ≠ 0 ∧ virtioDiskIntr s = s.panic "virtio_disk_intr status")) := by
  by_cases none : s.disk.seen = s.disk.usedIdx
  · exact .inl ⟨span_eq_nil_iff.mpr none, by rw [virtioDiskIntr, if_pos none]⟩
  · have popped := span_pop num_dvd s.disk.usedRing none
    have waits : s.disk.usedRing (s.disk.seen.toNat % num) ∈ outstanding s := by
      refine List.mem_append_right _ (List.mem_append_right _ ?_)
      rw [pending, popped]
      exact List.mem_cons_self ..
    obtain ⟨call, member, head, disk⟩ := (tidy.heads _).mp waits
    obtain ⟨i0, i1, i2, formed⟩ := tidy.formed call member
    have buffer := formed.buffer
    rw [← formed.head] at buffer
    refine .inr ⟨call, member, disk, ?_, ?_⟩
    · rw [pending, popped, ← head]
      rfl
    · rw [virtioDiskIntr, if_neg none, ← head]
      dsimp only
      rw [buffer]
      by_cases good : (s.disk.info call.head).status = 0
      · exact .inl ⟨good, by rw [if_neg (not_not.mpr good)]; rfl⟩
      · exact .inr ⟨good, by rw [if_pos good]⟩

/-- The interrupt hands a buffer back. -/
theorem notify (tidy : Tidy s) (member : call ∈ s.calls)
    (popped : pending s = call.head :: pending (notified s call.b)) : Tidy (notified s call.b) := by
  have own (c : BufId) : ((notified s call.b).bufs c).blockno = (s.bufs c).blockno := by
    by_cases same : c = call.b
    · simp [notified, State.setBuf, State.setDisk, same]
    · simp [notified, State.setBuf, State.setDisk, same]
  have split : (outstanding s).Perm (call.head :: outstanding (notified s call.b)) := by
    rw [outstanding, popped, outstanding, ← List.append_assoc, ← List.append_assoc]
    exact List.perm_middle
  obtain ⟨absent, once⟩ := List.nodup_cons.mp (split.nodup_iff.mp tidy.once)
  constructor
  · exact tidy.running
  · intro other waits
    obtain ⟨i0, i1, i2, formed⟩ := tidy.formed other waits
    rw [own]
    exact ⟨i0, i1, i2, formed.kept (fun _ _ => rfl) (fun _ _ => rfl) fun _ _ => rfl⟩
  · exact tidy.apart
  · exact tidy.owner
  · exact tidy.single
  · intro c owned
    by_cases same : c = call.b
    · rw [same]
      exact List.mem_map_of_mem member
    · exact tidy.owned c (by simpa [notified, State.setBuf, State.setDisk, same] using owned)
  · exact once
  · intro i
    have before := tidy.heads i
    rw [split.mem_iff, List.mem_cons] at before
    constructor
    · intro later
      obtain ⟨other, waits, head, set⟩ := before.mp (.inr later)
      refine ⟨other, waits, head, ?_⟩
      have apart : other.b ≠ call.b := by
        intro same
        rw [tidy.of_buf waits member same] at head
        exact absent (head ▸ later)
      simpa [notified, State.setBuf, State.setDisk, apart] using set
    · rintro ⟨other, waits, head, set⟩
      have apart : other.b ≠ call.b := by
        intro same
        rw [same] at set
        simp [notified, State.setBuf] at set
      refine (before.mpr ⟨other, waits, head, by simpa [notified, State.setBuf, State.setDisk, apart] using set⟩).resolve_left ?_
      intro same
      exact apart (congrArg Call.b (tidy.of_head waits member (head.trans same)))

/-- The calls are the one for a buffer and the others. -/
theorem split (tidy : Tidy s) (member : call ∈ s.calls) : s.calls.Perm (call :: (returned s call).calls) := by
  have distinct := List.Nodup.of_map Call.b tidy.single
  have absent : call ∉ (returned s call).calls := by simp [returned]
  refine (List.perm_ext_iff_of_nodup distinct (List.nodup_cons.mpr ⟨absent, distinct.filter _⟩)).mpr fun other => ?_
  rw [List.mem_cons, returned, List.mem_filter, decide_eq_true_eq]
  constructor
  · intro waits
    by_cases same : other.b = call.b
    · exact .inl (tidy.of_buf waits member same)
    · exact .inr ⟨waits, same⟩
  · rintro (rfl | ⟨waits, -⟩)
    · exact member
    · exact waits

/-- A call that returns gives its three descriptors back. -/
theorem returnCall_ok (tidy : Tidy s) (member : call ∈ s.calls) :
    returnCall s call = (returned s call, [.finished call.b (s.bufs call.b).data]) := by
  obtain ⟨i0, i1, i2, formed⟩ := tidy.formed call member
  have head : call.idx.headD 0 = i0 := formed.head
  have busy := tidy.busy member
  have distinct := tidy.distinct member
  rw [formed.idx] at busy distinct
  have linked : Linked { s.disk with info := Function.update s.disk.info i0 { s.disk.info i0 with b := none } } [i0, i1, i2] := formed.linked
  have freed := freeChain_linked linked busy distinct (by decide : 2 < num + 1)
  rw [returnCall, head, returned, formed.head, formed.idx]
  simp only [freed]

/-- The descriptors of a call that returned are free. -/
theorem ret (tidy : Tidy s) (member : call ∈ s.calls) (done : (s.bufs call.b).disk = false) : Tidy (returned s call) := by
  have split := tidy.split member
  have used : (inUse s).Perm (call.idx ++ inUse (returned s call)) := split.flatMap_right Call.idx
  obtain ⟨-, rest, apart⟩ := List.nodup_append.mp (used.nodup_iff.mp tidy.apart)
  have kept (other : Call) (waits : other ∈ (returned s call).calls) : other ∈ s.calls ∧ other.b ≠ call.b := by
    simpa [returned] using waits
  constructor
  · exact tidy.running
  · intro other waits
    obtain ⟨old, differ⟩ := kept other waits
    obtain ⟨i0, i1, i2, formed⟩ := tidy.formed other old
    have foreign (i : Nat) (own : i ∈ other.idx) : i ∉ call.idx := fun mine => differ (congrArg Call.b (tidy.of_idx old member own mine))
    refine ⟨i0, i1, i2, formed.kept (fun i own => ?_) (fun _ _ => rfl) (fun i own => ?_)⟩
    · exact if_neg (foreign i own)
    · have differ : i ≠ call.head := fun same => foreign i own (same ▸ tidy.head_mem member)
      simp [returned, released, differ]
  · exact rest
  · intro i
    have before := tidy.owner i
    rw [used.mem_iff, List.mem_append] at before
    have free : (returned s call).disk.free i = if i ∈ call.idx then true else s.disk.free i := rfl
    rw [free]
    by_cases mine : i ∈ call.idx
    · have absent : i ∉ inUse (returned s call) := fun later => apart i mine i later rfl
      rw [if_pos mine]
      exact iff_of_false absent (by simp)
    · rw [or_iff_right mine] at before
      rw [if_neg mine]
      exact before
  · exact ((split.map Call.b).nodup_iff.mp tidy.single).of_cons
  · intro c owned
    have waits := (split.map Call.b).mem_iff.mp (tidy.owned c owned)
    rw [List.map_cons, List.mem_cons] at waits
    refine waits.resolve_left ?_
    rintro rfl
    rw [show ((returned s call).bufs call.b).disk = (s.bufs call.b).disk from rfl, done] at owned
    cases owned
  · exact tidy.once
  · intro i
    rw [show outstanding (returned s call) = outstanding s from rfl, tidy.heads i]
    constructor
    · rintro ⟨other, waits, head, set⟩
      refine ⟨other, ?_, head, set⟩
      refine (List.mem_cons.mp (split.mem_iff.mp waits)).resolve_left ?_
      rintro rfl
      rw [done] at set
      cases set
    · rintro ⟨other, waits, head, set⟩
      exact ⟨other, (kept other waits).1, head, set⟩

end Tidy

end BtbuOs.Virtio
