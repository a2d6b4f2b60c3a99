import BtbuOs.Virtio.Completions

namespace BtbuOs.Virtio

open FreeRunning Machine

variable {Block : Type} {medium : BitVec 64 → Block} {s after : State Block} {b c : BufId} {call other : Call} {event : Event Block}
  {trace events tail : List (Event Block)}

theorem historyOf_append (b : BufId) (trace events : List (Event Block)) :
    historyOf b (trace ++ events) = historyOf b trace ++ historyOf b events := List.filter_append ..

theorem historyOf_own {past : List (Event Block)} (same : event.buf = b) (whole : historyOf b trace = past) :
    historyOf b (trace ++ [event]) = past ++ [event] := by
  rw [historyOf_append, whole]
  simp [historyOf, same]

theorem historyOf_other (differ : event.buf ≠ b) : historyOf b [event] = [] := by simp [historyOf, differ]

theorem written_append (medium : BitVec 64 → Block) (trace events : List (Event Block)) :
    written medium (trace ++ events) = written (written medium trace) events := List.foldl_append

/-- One more event keeps a trace faithful when it is no read of anything but the last write. -/
theorem Faithful.extend (faithful : Faithful medium trace)
    (right : ∀ b sector block, event = .transferred b false sector block → block = written medium trace sector) :
    Faithful medium (trace ++ [event]) := by
  intro past b sector block later whole
  rcases List.eq_nil_or_concat later with rfl | ⟨middle, last, rfl⟩
  · obtain ⟨rfl, one⟩ := List.append_inj' whole rfl
    exact right b sector block (List.singleton_inj.mp one)
  · rw [List.concat_eq_append, ← List.cons_append, ← List.append_assoc] at whole
    obtain ⟨same, -⟩ := List.append_inj' whole rfl
    exact faithful past b sector block middle same

/-- The events of a call stay what they are when its chain stays behind and nothing touches its buffer and its status. -/
theorem Open.keep (opened : Open s call tail)
    (waits : call.head ∈ available s ++ s.device.held → call.head ∈ available after ++ after.device.held)
    (given : call.head ∈ pending s → call.head ∈ pending after) (buf : after.bufs call.b = s.bufs call.b)
    (status : (after.disk.info call.head).status = (s.disk.info call.head).status) : Open after call tail := by
  cases opened with
  | asked before =>
      rw [← buf]
      exact .asked (waits before)
  | answered before good block same =>
      rw [← buf] at before same ⊢
      exact .answered (before.imp_left given) (status.trans good) block same
  | refused before bad =>
      rw [← buf]
      exact .refused (given before) (status ▸ bad)

theorem Open.ask (buf : Buf Block) (own : s.bufs call.b = buf) (waits : call.head ∈ available s ++ s.device.held) :
    Open s call [.submitted call.b call.write (sectorOf buf.blockno) buf.data] := by
  subst own
  exact .asked waits

theorem Open.answer {block : Block} (buf : Buf Block) (own : s.bufs call.b = buf) (given : call.head ∈ pending s ∨ buf.disk = false)
    (good : (s.disk.info call.head).status = 0) (same : call.write = true → buf.data = block) :
    Open s call [.submitted call.b call.write (sectorOf buf.blockno) block, .transferred call.b call.write (sectorOf buf.blockno) buf.data] := by
  subst own
  exact .answered given good block same

/-- A buffer that a step does not deal with keeps its history. -/
theorem History.keep (history : History s trace b) (quiet : historyOf b events = [])
    (calls : ∀ call, call.b = b → (call ∈ after.calls ↔ call ∈ s.calls))
    (keep : ∀ call ∈ s.calls, call.b = b → ∀ tail, Open s call tail → Open after call tail) : History after (trace ++ events) b := by
  obtain ⟨rounds, tail, whole, rest⟩ := history
  refine ⟨rounds, tail, ?_, ?_⟩
  · rw [historyOf_append, quiet, List.append_nil, whole]
  · rcases rest with ⟨none, absent⟩ | ⟨call, member, own, opened⟩
    · refine .inl ⟨none, fun present => absent ?_⟩
      obtain ⟨call, member, own⟩ := List.mem_map.mp present
      exact own ▸ List.mem_map_of_mem ((calls call own).mp member)
    · exact .inr ⟨call, (calls call own).mpr member, own, keep call member own tail opened⟩

/-- The events of a call that waits. -/
theorem History.opened (tidy : Tidy s) (history : History s trace call.b) (member : call ∈ s.calls) :
    ∃ (rounds : List (Round Block)) (tail : List (Event Block)), historyOf call.b trace = rounds.flatMap (cycle call.b) ++ tail ∧ Open s call tail := by
  obtain ⟨rounds, tail, whole, ⟨-, absent⟩ | ⟨other, waits, same, opened⟩⟩ := history
  · exact absurd (List.mem_map_of_mem member) absent
  · rw [tidy.of_buf waits member same] at opened
    exact ⟨rounds, tail, whole, opened⟩

namespace Tidy

/-- A chain that the device has yet to work on is not pending. -/
theorem waits_notMem (tidy : Tidy s) {i : Nat} (waits : i ∈ available s ++ s.device.held) : i ∉ pending s := by
  intro given
  have once := tidy.once
  rw [outstanding, ← List.append_assoc] at once
  exact (List.nodup_append.mp once).2.2 i waits i given rfl

/-- The chain of a call whose buffer was handed back is on its way no more. -/
theorem done_notMem (tidy : Tidy s) (member : call ∈ s.calls) (done : (s.bufs call.b).disk = false) : call.head ∉ outstanding s := by
  intro waits
  obtain ⟨other, present, head, disk⟩ := (tidy.heads call.head).mp waits
  rw [tidy.of_head present member head, done] at disk
  cases disk

end Tidy

namespace Ready

/-- A buffer that is filled takes part in no request. -/
theorem fill (ready : Ready medium s trace) (free : ∀ call ∈ s.calls, call.b ≠ b) (blockno : BitVec 32) (data : Block) :
    Ready medium (s.setBuf b { s.bufs b with blockno, data }) (trace ++ []) := by
  have same (call : Call) (member : call ∈ s.calls) : (s.setBuf b { s.bufs b with blockno, data }).bufs call.b = s.bufs call.b :=
    Function.update_of_ne (free call member) _ _
  rw [List.append_nil]
  refine ⟨?_, fun c => ?_, ready.stored, ready.faithful⟩
  · refine ready.tidy.moved ready.tidy.running rfl rfl (fun _ _ => rfl) rfl (fun _ => rfl) (fun call member => ?_) (fun c => ?_) (List.Perm.refl _)
    · rw [same call member]
    · by_cases own : c = b
      · simp [State.setBuf, own]
      · simp [State.setBuf, own]
  · rw [← List.append_nil trace]
    exact (ready.history c).keep rfl (fun _ _ => Iff.rfl) fun call member _ tail opened => opened.keep id id (same call member) rfl

/-- The device takes a chain. -/
theorem fetch (ready : Ready medium s trace) (fetched : deviceFetch s = some after) : Ready medium after (trace ++ []) := by
  obtain ⟨tidy, waits⟩ := ready.tidy.fetch fetched
  unfold deviceFetch at fetched
  split at fetched
  · cases fetched
  · cases fetched
    rw [List.append_nil]
    refine ⟨tidy, fun c => ?_, ready.stored, ready.faithful⟩
    rw [← List.append_nil trace]
    exact (ready.history c).keep rfl (fun _ _ => Iff.rfl) fun call _ _ tail opened => opened.keep (waits call.head) id rfl rfl

/-- A call starts, or yields when there are too few descriptors. -/
theorem request (ready : Ready medium s trace) (free : ∀ call ∈ s.calls, call.b ≠ b) (write : Bool) :
    Ready medium (virtioDiskRw s b write).1 (trace ++ (virtioDiskRw s b write).2) := by
  have tidy := ready.tidy
  rcases tidy.virtioDiskRw_outcome b write with ⟨-, i0, i1, i2, distinct, vacant, outcome⟩ | ⟨-, more, vacant, outcome⟩
  · rw [outcome]
    dsimp only
    have fresh : b ∉ s.calls.map Call.b := by
      intro present
      obtain ⟨call, member, own⟩ := List.mem_map.mp present
      exact free call member own
    have grown : available (posted s b write i0 i1 i2) = available s ++ [i0] := tidy.available_posted vacant
    refine ⟨tidy.post fresh distinct vacant, fun c => ?_, ?_, ?_⟩
    · by_cases own : c = b
      · subst own
        obtain ⟨rounds, tail, whole, rest⟩ := ready.history c
        obtain ⟨rfl, -⟩ := rest.resolve_right fun ⟨call, member, same, _⟩ => free call member same
        refine ⟨rounds, [.submitted c write (sectorOf (s.bufs c).blockno) (s.bufs c).data], ?_,
          .inr ⟨{ b := c, write, idx := [i0, i1, i2] }, by simp [posted], rfl, ?_⟩⟩
        · rw [List.append_nil] at whole
          exact historyOf_own rfl whole
        have buf : (posted s c write i0 i1 i2).bufs c = { s.bufs c with disk := true } := Function.update_self ..
        exact .ask { s.bufs c with disk := true } buf (by rw [grown]; simp [Call.head])
      · refine (ready.history c).keep (historyOf_other (Ne.symm own)) (fun call same => ?_) fun call member same tail opened => ?_
        · rw [posted, List.mem_append, List.mem_singleton]
          refine or_iff_left ?_
          rintro rfl
          exact own same.symm
        · refine opened.keep (fun waits => ?_) id (Function.update_of_ne (free call member) _ _) ?_
          · rw [grown]
            simp only [List.mem_append] at waits ⊢
            exact waits.imp_left Or.inl
          · have apart : call.head ≠ i0 := by
              intro same
              exact tidy.vacant_notMem vacant (mem_inUse member (tidy.head_mem member)) (same ▸ List.mem_cons_self ..)
            simp [posted, State.setBuf, State.setDisk, offer, format, taken, apart]
    · rw [written_append]
      exact ready.stored
    · refine ready.faithful.extend ?_
      intro c sector block same
      cases same
  · rw [outcome]
    dsimp only
    rw [List.append_nil]
    refine ⟨tidy.spare vacant, fun c => ?_, ready.stored, ready.faithful⟩
    rw [← List.append_nil trace]
    exact (ready.history c).keep rfl (fun _ _ => Iff.rfl) fun call _ _ tail opened => opened.keep id id rfl rfl

/-- A call returns when the device did the transfer. -/
theorem wake (ready : Ready medium s trace) (member : call ∈ s.calls) (done : (s.bufs call.b).disk = false) :
    Ready medium (returned s call) (trace ++ [.finished call.b (s.bufs call.b).data]) := by
  have tidy := ready.tidy
  have gone := tidy.done_notMem member done
  refine ⟨tidy.ret member done, fun c => ?_, ?_, ?_⟩
  · by_cases own : c = call.b
    · subst own
      obtain ⟨rounds, tail, whole, opened⟩ := (ready.history call.b).opened tidy member
      have grown : historyOf call.b (trace ++ [.finished call.b (s.bufs call.b).data]) = _ := historyOf_own rfl whole
      cases opened with
      | asked waits =>
          rw [outstanding, ← List.append_assoc] at gone
          exact absurd (List.mem_append_left _ waits) gone
      | answered given good block same =>
          refine ⟨rounds ++ [⟨call.write, sectorOf (s.bufs call.b).blockno, block, (s.bufs call.b).data, same⟩], [], ?_, .inl ⟨rfl, ?_⟩⟩
          · rw [grown]
            simp [cycle]
          · simp [returned]
      | refused given bad => exact absurd (List.mem_append_right _ (List.mem_append_right _ given)) gone
    · refine (ready.history c).keep (historyOf_other (Ne.symm own)) (fun other same => ?_) fun other waits same tail opened => ?_
      · have differ : other.b ≠ call.b := fun equal => own (same.symm.trans equal)
        simp [returned, differ]
      · refine opened.keep id id rfl ?_
        have differ : other.head ≠ call.head := fun equal => own (same.symm.trans (congrArg Call.b (tidy.of_head waits member equal)))
        simp [returned, released, differ]
  · rw [written_append]
    exact ready.stored
  · refine ready.faithful.extend ?_
    intro c sector block same
    cases same

/-- An interrupt hands back the buffer of a transfer that was done, and it panics for one that the device failed. -/
theorem intr (ready : Ready medium s trace) :
    Ready medium (virtioDiskIntr s) (trace ++ []) ∨ Refused medium (virtioDiskIntr s) (trace ++ []) := by
  have tidy := ready.tidy
  rw [List.append_nil]
  rcases tidy.virtioDiskIntr_outcome with ⟨-, outcome⟩ | ⟨call, member, disk, popped, ⟨good, outcome⟩ | ⟨bad, outcome⟩⟩
  · rw [outcome]
    exact .inl ready
  · rw [outcome]
    have given : call.head ∈ pending s := popped ▸ List.mem_cons_self ..
    refine .inl ⟨tidy.notify member popped, fun c => ?_, ready.stored, ready.faithful⟩
    by_cases own : c = call.b
    · subst own
      obtain ⟨rounds, tail, whole, opened⟩ := (ready.history call.b).opened tidy member
      refine ⟨rounds, tail, whole, .inr ⟨call, member, rfl, ?_⟩⟩
      have buf : (notified s call.b).bufs call.b = { s.bufs call.b with disk := false } := Function.update_self ..
      cases opened with
      | asked waits => exact absurd given (tidy.waits_notMem waits)
      | answered before good block same =>
          exact .answer { s.bufs call.b with disk := false } buf (.inr rfl) good same
      | refused before bad => exact absurd good bad
    · rw [← List.append_nil trace]
      refine (ready.history c).keep rfl (fun _ _ => Iff.rfl) fun other waits same tail opened => ?_
      have differ : other.b ≠ call.b := fun equal => own (same.symm.trans equal)
      refine opened.keep id (fun before => ?_) (Function.update_of_ne differ _ _) rfl
      rw [popped, List.mem_cons] at before
      refine before.resolve_left ?_
      intro equal
      exact differ (congrArg Call.b (tidy.of_head waits member equal))
  · rw [outcome]
    refine .inr ⟨s, ready, rfl, call.b, ?_⟩
    have given : call.head ∈ pending s := popped ▸ List.mem_cons_self ..
    obtain ⟨rounds, tail, whole, opened⟩ := (ready.history call.b).opened tidy member
    cases opened with
    | asked waits => exact absurd given (tidy.waits_notMem waits)
    | answered before good => exact absurd good bad
    | refused =>
        have present : .failed call.b ∈ historyOf call.b trace := by
          rw [whole]
          simp
        exact List.mem_of_mem_filter present

/-- A transfer answers the call that waits for it. -/
theorem transfer (ready : Ready medium s trace) {i : Nat} {status : BitVec 8} (stepped : deviceTransfer s i status = some (after, events)) :
    Ready medium after (trace ++ events) := by
  have tidy := ready.tidy
  obtain ⟨call, member, rfl, held, disk, outcome⟩ := deviceTransfer_outcome tidy stepped
  have waits : call.head ∈ available s ++ s.device.held := List.mem_append_right _ held
  have grown := tidy.pending_deviceReturn held
  have moved : (available s ++ (s.device.held.erase call.head ++ (pending s ++ [call.head]))).Perm (outstanding s) := by
    apply List.Perm.append_left
    calc s.device.held.erase call.head ++ (pending s ++ [call.head])
      _ = s.device.held.erase call.head ++ pending s ++ [call.head] := (List.append_assoc ..).symm
      _ |>.Perm (call.head :: (s.device.held.erase call.head ++ pending s)) := List.perm_append_singleton ..
      _ |>.Perm (s.device.held ++ pending s) := (List.perm_cons_erase held).symm.append_right (pending s)
  have stays (other : Call) (differ : other.head ≠ call.head) (before : other.head ∈ available s ++ s.device.held) :
      other.head ∈ available s ++ s.device.held.erase call.head := by
    rw [List.mem_append] at before ⊢
    exact before.imp_right (List.mem_erase_of_ne differ).mpr
  have known (k : Nat) (status : BitVec 8) (i : Nat) : ((deviceReturn s call.head k status).disk.info i).b = (s.disk.info i).b := by
    by_cases own : i = k
    · simp [deviceReturn, own]
    · simp [deviceReturn, own]
  obtain ⟨rounds, tail, whole, opened⟩ := (ready.history call.b).opened tidy member
  have asked : tail = [.submitted call.b call.write (sectorOf (s.bufs call.b).blockno) (s.bufs call.b).data] := by
    cases opened with
    | asked => rfl
    | answered given =>
        rcases given with given | done
        · exact absurd given (tidy.waits_notMem waits)
        · rw [disk] at done
          cases done
    | refused given => exact absurd given (tidy.waits_notMem waits)
  rcases outcome with ⟨rfl, rfl, rfl⟩ | ⟨bad, rfl, rfl⟩
  · have buf : (transferred s call (blockOf s call)).bufs call.b = { s.bufs call.b with data := blockOf s call } := Function.update_self ..
    have ring : pending (transferred s call (blockOf s call)) = pending s ++ [call.head] := grown call.head 0
    refine ⟨?_, fun c => ?_, ?_, ?_⟩
    · refine tidy.moved tidy.running rfl rfl (fun _ _ => rfl) rfl (known call.head 0) (fun other waits => ?_) (fun c => ?_) ?_
      · by_cases own : other.b = call.b
        · rw [own, buf]
        · exact congrArg Buf.blockno (Function.update_of_ne own _ _)
      · by_cases own : c = call.b
        · rw [own, buf]
        · exact congrArg Buf.disk (Function.update_of_ne own _ _)
      · rw [outstanding, ring]
        exact moved
    · by_cases own : c = call.b
      · subst own
        refine ⟨rounds, tail ++ [.transferred call.b call.write (sectorOf (s.bufs call.b).blockno) (blockOf s call)], ?_,
          .inr ⟨call, member, rfl, ?_⟩⟩
        · rw [historyOf_own (b := call.b) rfl whole, List.append_assoc]
        rw [asked]
        refine .answer { s.bufs call.b with data := blockOf s call } buf (.inl (by rw [ring]; simp)) (by simp [transferred, deviceReturn]) ?_
        intro write
        simp [blockOf, write]
      · refine (ready.history c).keep (historyOf_other (Ne.symm own)) (fun _ _ => Iff.rfl) fun other waits same tail opened => ?_
        have differ : other.b ≠ call.b := fun equal => own (same.symm.trans equal)
        have apart : other.head ≠ call.head := fun equal => differ (congrArg Call.b (tidy.of_head waits member equal))
        refine opened.keep (stays other apart) (fun before => ?_) (Function.update_of_ne differ _ _) ?_
        · rw [ring]
          exact List.mem_append_left _ before
        · simp [transferred, deviceReturn, apart]
    · rw [written_append, ← ready.stored]
      cases write : call.write with
      | true => simp [transferred, write, written]
      | false => simp [transferred, write, written, deviceReturn]
    · refine ready.faithful.extend ?_
      intro c sector block same
      injection same with buf read place value
      rw [← value, blockOf, read, ← ready.stored, place]
      rfl
  · have ring : pending (deviceReturn s call.head call.head status) = pending s ++ [call.head] := grown call.head status
    refine ⟨?_, fun c => ?_, ?_, ?_⟩
    · refine tidy.moved tidy.running rfl rfl (fun _ _ => rfl) rfl (known call.head status) (fun _ _ => rfl) (fun _ => rfl) ?_
      rw [outstanding, ring]
      exact moved
    · by_cases own : c = call.b
      · subst own
        refine ⟨rounds, tail ++ [.failed call.b], ?_, .inr ⟨call, member, rfl, ?_⟩⟩
        · rw [historyOf_own (b := call.b) rfl whole, List.append_assoc]
        rw [asked]
        exact .refused (by rw [ring]; simp) (by simpa [deviceReturn] using bad)
      · refine (ready.history c).keep (historyOf_other (Ne.symm own)) (fun _ _ => Iff.rfl) fun other waits same tail opened => ?_
        have differ : other.b ≠ call.b := fun equal => own (same.symm.trans equal)
        have apart : other.head ≠ call.head := fun equal => differ (congrArg Call.b (tidy.of_head waits member equal))
        refine opened.keep (stays other apart) (fun before => ?_) rfl ?_
        · rw [ring]
          exact List.mem_append_left _ before
        · simp [deviceReturn, apart]
    · rw [written_append]
      exact ready.stored
    · refine ready.faithful.extend ?_
      intro c sector block same
      cases same

end Ready

end BtbuOs.Virtio
