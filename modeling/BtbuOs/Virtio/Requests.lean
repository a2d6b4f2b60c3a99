import BtbuOs.Virtio.Descriptors

namespace BtbuOs.Virtio

open FreeRunning Machine

variable {Block : Type}

/-- The first descriptor of a call stands for its chain. -/
def Call.head (call : Call) : Nat := call.idx.headD 0

/-- The chains that the driver has made available and the device has not taken. -/
def available (s : State Block) : List Nat := span s.disk.availRing num s.device.next s.disk.availIdx

/-- The chains that the device has given back and no interrupt has handled. -/
def pending (s : State Block) : List Nat := span s.disk.usedRing num s.disk.seen s.disk.usedIdx

/-- The chains on their way to the device and back. -/
def outstanding (s : State Block) : List Nat := available s ++ (s.device.held ++ pending s)

/-- The descriptors of all calls. -/
def inUse (s : State Block) : List Nat := s.calls.flatMap Call.idx

/-- The descriptors of a call hold its request, and the driver knows its buffer. -/
structure Formed (d : Disk) (blockno : BitVec 32) (call : Call) (i0 i1 i2 : Nat) : Prop where
  idx : call.idx = [i0, i1, i2]
  first : d.desc i0 = { addr := .header i0, len := virtioBlkReqSize, flags := vringDescFNext, next := i1 }
  second : d.desc i1 = { addr := .data call.b, len := bsize, flags := (if call.write then 0 else vringDescFWrite) ||| vringDescFNext, next := i2 }
  third : d.desc i2 = { addr := .status i0, len := 1, flags := vringDescFWrite, next := 0 }
  request : d.ops i0 = { type := if call.write then virtioBlkTOut else virtioBlkTIn, reserved := 0, sector := sectorOf blockno }
  buffer : (d.info i0).b = some call.b

/-- The descriptors and the rings between two steps. -/
structure Tidy (s : State Block) : Prop where
  running : s.panicked = none
  formed : ∀ call ∈ s.calls, ∃ i0 i1 i2, Formed s.disk (s.bufs call.b).blockno call i0 i1 i2
  apart : (inUse s).Nodup
  owner : ∀ i, i ∈ inUse s ↔ i < num ∧ s.disk.free i = false
  single : (s.calls.map Call.b).Nodup
  owned : ∀ b, (s.bufs b).disk = true → b ∈ s.calls.map Call.b
  once : (outstanding s).Nodup
  heads : ∀ i, i ∈ outstanding s ↔ ∃ call ∈ s.calls, call.head = i ∧ (s.bufs call.b).disk = true

/-- A round of a buffer: what was asked for with the data that it held, and what was transferred. -/
structure Round (Block : Type) where
  write : Bool
  sector : BitVec 64
  given : Block
  result : Block
  same : write = true → result = given

/-- The events of a call that returned. -/
def cycle (b : BufId) (round : Round Block) : List (Event Block) :=
  [.submitted b round.write round.sector round.given, .transferred b round.write round.sector round.result, .finished b round.result]

def Event.buf : Event Block → BufId
  | .submitted b _ _ _ | .transferred b _ _ _ | .failed b | .finished b _ => b

/-- The events of one buffer. -/
def historyOf (b : BufId) (trace : List (Event Block)) : List (Event Block) := trace.filter fun event => event.buf = b

/-- How far the events of a call that waits have come: its data is what the buffer holds, and the device answered or has yet to. -/
inductive Open (s : State Block) (call : Call) : List (Event Block) → Prop where
  | asked (waits : call.head ∈ available s ++ s.device.held) :
      Open s call [.submitted call.b call.write (sectorOf (s.bufs call.b).blockno) (s.bufs call.b).data]
  | answered (given : call.head ∈ pending s ∨ (s.bufs call.b).disk = false) (good : (s.disk.info call.head).status = 0) (block : Block)
      (same : call.write = true → (s.bufs call.b).data = block) :
      Open s call [.submitted call.b call.write (sectorOf (s.bufs call.b).blockno) block,
        .transferred call.b call.write (sectorOf (s.bufs call.b).blockno) (s.bufs call.b).data]
  | refused (given : call.head ∈ pending s) (bad : (s.disk.info call.head).status ≠ 0) :
      Open s call [.submitted call.b call.write (sectorOf (s.bufs call.b).blockno) (s.bufs call.b).data, .failed call.b]

/-- The medium behind a trace that starts with a given medium. -/
def written (medium : BitVec 64 → Block) (trace : List (Event Block)) : BitVec 64 → Block :=
  trace.foldl (fun medium event =>
    match event with
    | .transferred _ true sector block => Function.update medium sector block
    | _ => medium) medium

/-- Each read transfers what the last write to its sector transferred. -/
def Faithful (medium : BitVec 64 → Block) (trace : List (Event Block)) : Prop :=
  ∀ past b sector block later, trace = past ++ .transferred b false sector block :: later → block = written medium past sector

/-- The events of a buffer are those of calls that returned and of one that waits. -/
def History (s : State Block) (trace : List (Event Block)) (b : BufId) : Prop :=
  ∃ (rounds : List (Round Block)) (tail : List (Event Block)), historyOf b trace = rounds.flatMap (cycle b) ++ tail ∧
    ((tail = [] ∧ b ∉ s.calls.map Call.b) ∨ ∃ call ∈ s.calls, call.b = b ∧ Open s call tail)

/-- What a run keeps while the kernel has not panicked. -/
structure Ready (medium : BitVec 64 → Block) (s : State Block) (trace : List (Event Block)) : Prop where
  tidy : Tidy s
  history : ∀ b, History s trace b
  stored : s.device.medium = written medium trace
  faithful : Faithful medium trace

/-- The kernel has panicked for a transfer that the device failed. -/
def Refused (medium : BitVec 64 → Block) (s : State Block) (trace : List (Event Block)) : Prop :=
  ∃ before, Ready medium before trace ∧ s = before.panic "virtio_disk_intr status" ∧ ∃ b, .failed b ∈ trace

variable {s after : State Block} {d e : Disk} {b : BufId} {blockno : BitVec 32} {call other : Call} {i0 i1 i2 i : Nat}
  {trace events tail : List (Event Block)}

theorem num_dvd : num ∣ 2 ^ 16 := by decide

theorem num_lt : num < 2 ^ 16 := by decide

theorem Formed.head (formed : Formed d blockno call i0 i1 i2) : call.head = i0 := by
  rw [Call.head, formed.idx]
  rfl

theorem Formed.kept (formed : Formed d blockno call i0 i1 i2) (desc : ∀ i ∈ call.idx, e.desc i = d.desc i) (ops : ∀ i ∈ call.idx, e.ops i = d.ops i)
    (info : ∀ i ∈ call.idx, (e.info i).b = (d.info i).b) : Formed e blockno call i0 i1 i2 := by
  have inside (i : Nat) (member : i ∈ [i0, i1, i2]) : i ∈ call.idx := formed.idx ▸ member
  constructor
  · exact formed.idx
  · rw [desc i0 (inside i0 (by simp))]; exact formed.first
  · rw [desc i1 (inside i1 (by simp))]; exact formed.second
  · rw [desc i2 (inside i2 (by simp))]; exact formed.third
  · rw [ops i0 (inside i0 (by simp))]; exact formed.request
  · rw [info i0 (inside i0 (by simp))]; exact formed.buffer

/-- The descriptors of a call are a chain. -/
theorem Formed.linked (formed : Formed d blockno call i0 i1 i2) : Linked d [i0, i1, i2] := by
  have next (write : Bool) : ((if write then 0 else vringDescFWrite) ||| vringDescFNext) &&& vringDescFNext ≠ 0 := by
    cases write <;> decide
  refine ⟨?_, ?_, ?_, ?_, ?_⟩
  · rw [formed.first]
    exact (by decide : vringDescFNext &&& vringDescFNext ≠ 0)
  · rw [formed.first]
  · rw [formed.second]
    exact next call.write
  · rw [formed.second]
  · rw [Linked, formed.third]
    exact (by decide : vringDescFWrite &&& vringDescFNext = 0)

/-- The device reads back what the call asked for. -/
theorem Formed.readChain (formed : Formed d blockno call i0 i1 i2) :
    readChain d call.head = some { b := call.b, write := call.write, sector := sectorOf blockno, status := call.head } := by
  have apart : virtioBlkTIn ≠ virtioBlkTOut := by decide
  rw [formed.head, Virtio.readChain]
  simp only [formed.first, formed.second, formed.third, formed.request]
  cases call.write with
  | true => simp
  | false => simp [apart]

theorem mem_inUse (member : call ∈ s.calls) (own : i ∈ call.idx) : i ∈ inUse s := List.mem_flatMap.mpr ⟨call, member, own⟩

namespace Tidy

theorem busy (tidy : Tidy s) (member : call ∈ s.calls) : Busy s.disk call.idx :=
  fun i own => (tidy.owner i).mp (mem_inUse member own)

theorem distinct (tidy : Tidy s) (member : call ∈ s.calls) : call.idx.Nodup := (List.nodup_flatMap.mp tidy.apart).1 call member

/-- The first descriptor of a call is one of its own. -/
theorem head_mem (tidy : Tidy s) (member : call ∈ s.calls) : call.head ∈ call.idx := by
  obtain ⟨i0, i1, i2, formed⟩ := tidy.formed call member
  rw [formed.head, formed.idx]
  exact List.mem_cons_self ..

/-- Calls that share a buffer are the same. -/
theorem of_buf (tidy : Tidy s) (first : call ∈ s.calls) (second : other ∈ s.calls) (same : call.b = other.b) : call = other :=
  List.inj_on_of_nodup_map tidy.single first second same

/-- Calls that share a descriptor are the same. -/
theorem of_idx (tidy : Tidy s) (first : call ∈ s.calls) (second : other ∈ s.calls) (mine : i ∈ call.idx) (yours : i ∈ other.idx) : call = other := by
  by_contra differ
  have : Std.Symm (Function.onFun List.Disjoint Call.idx) := ⟨fun _ _ => List.Disjoint.symm⟩
  have disjoint := (List.nodup_flatMap.mp tidy.apart).2.forall first second differ
  exact disjoint mine yours

theorem of_head (tidy : Tidy s) (first : call ∈ s.calls) (second : other ∈ s.calls) (same : call.head = other.head) : call = other :=
  tidy.of_idx first second (tidy.head_mem first) (same ▸ tidy.head_mem second)

theorem outstanding_lt (tidy : Tidy s) (member : i ∈ outstanding s) : i ∈ inUse s := by
  obtain ⟨call, waits, rfl, -⟩ := (tidy.heads i).mp member
  exact mem_inUse waits (tidy.head_mem waits)

/-- There is room for every chain. -/
theorem room (tidy : Tidy s) : (available s).length + (s.device.held.length + (pending s).length) ≤ num := by
  have within : outstanding s ⊆ List.range num := fun i member => List.mem_range.mpr ((tidy.owner i).mp (tidy.outstanding_lt member)).1
  have bound := (tidy.once.subperm within).length_le
  rwa [outstanding, List.length_append, List.length_append, List.length_range] at bound

/-- What moves chains and touches no descriptor in use keeps the descriptors and the rings. -/
theorem moved (tidy : Tidy s) (running : after.panicked = none) (calls : after.calls = s.calls) (free : after.disk.free = s.disk.free)
    (desc : ∀ i ∈ inUse s, after.disk.desc i = s.disk.desc i) (ops : after.disk.ops = s.disk.ops)
    (info : ∀ i, (after.disk.info i).b = (s.disk.info i).b) (blockno : ∀ call ∈ s.calls, (after.bufs call.b).blockno = (s.bufs call.b).blockno)
    (disk : ∀ b, (after.bufs b).disk = (s.bufs b).disk) (same : (outstanding after).Perm (outstanding s)) : Tidy after := by
  have used : inUse after = inUse s := by rw [inUse, calls]; rfl
  constructor
  · exact running
  · rw [calls]
    intro call member
    obtain ⟨i0, i1, i2, formed⟩ := tidy.formed call member
    refine ⟨i0, i1, i2, ?_⟩
    rw [blockno call member]
    exact formed.kept (fun i own => desc i (mem_inUse member own)) (fun i _ => congrFun ops i) (fun i _ => info i)
  · rw [used]; exact tidy.apart
  · rw [used, free]; exact tidy.owner
  · rw [calls]; exact tidy.single
  · intro b owned
    rw [calls]
    exact tidy.owned b (disk b ▸ owned)
  · exact same.nodup_iff.mpr tidy.once
  · intro i
    rw [same.mem_iff, calls, tidy.heads i]
    simp only [disk]

/-- The device takes an available chain. -/
theorem fetch (tidy : Tidy s) (fetched : deviceFetch s = some after) : Tidy after ∧ ∀ i, i ∈ available s ++ s.device.held →
    i ∈ available after ++ after.device.held := by
  unfold deviceFetch at fetched
  split at fetched
  · cases fetched
  · rename_i some
    cases fetched
    have popped := span_pop num_dvd s.disk.availRing some
    constructor
    · refine tidy.moved tidy.running rfl rfl (fun _ _ => rfl) rfl (fun _ => rfl) (fun _ _ => rfl) (fun _ => rfl) ?_
      rw [outstanding, outstanding, available, available, popped, List.cons_append, List.append_assoc, List.singleton_append,
        ← List.append_assoc, ← List.append_assoc]
      exact List.perm_middle
    · intro i member
      rw [available, popped] at member
      simp only [List.mem_append, List.mem_cons] at member
      simp only [List.mem_append, List.mem_singleton]
      rcases member with (new | rest) | old
      · exact .inr (.inr new)
      · exact .inl rest
      · exact .inr (.inl old)

/-- A chain that the device gives back is the last of those that are pending. -/
theorem pending_deviceReturn (tidy : Tidy s) (held : i ∈ s.device.held) (k : Nat) (status : BitVec 8) :
    pending (deviceReturn s i k status) = pending s ++ [i] := by
  have room := tidy.room
  have some := List.length_pos_of_mem held
  rw [pending, span_length] at room
  exact span_push num_dvd num_lt s.disk.usedRing (by omega : (s.disk.usedIdx - s.disk.seen).toNat < num) i

end Tidy

/-- The state behind a transfer for a call, which moves the block to or from the buffer. -/
def transferred (s : State Block) (call : Call) (block : Block) : State Block :=
  let returned := deviceReturn s call.head call.head 0
  { returned with
    bufs := Function.update s.bufs call.b { s.bufs call.b with data := block }
    device := { returned.device with
      medium := if call.write then Function.update s.device.medium (sectorOf (s.bufs call.b).blockno) block else s.device.medium } }

/-- The block that a request moves. -/
def blockOf (s : State Block) (call : Call) : Block :=
  if call.write then (s.bufs call.b).data else s.device.medium (sectorOf (s.bufs call.b).blockno)

/-- A transfer is the one of a call that waits, or the device fails it. -/
theorem deviceTransfer_outcome {status : BitVec 8} (tidy : Tidy s) (stepped : deviceTransfer s i status = some (after, events)) :
    ∃ call ∈ s.calls, call.head = i ∧ i ∈ s.device.held ∧ (s.bufs call.b).disk = true ∧
      ((status = 0 ∧ after = transferred s call (blockOf s call) ∧
          events = [.transferred call.b call.write (sectorOf (s.bufs call.b).blockno) (blockOf s call)]) ∨
        (status ≠ 0 ∧ after = deviceReturn s i i status ∧ events = [.failed call.b])) := by
  unfold deviceTransfer at stepped
  split at stepped
  · cases stepped
  · rename_i held
    rw [not_not] at held
    have waits : i ∈ outstanding s := List.mem_append_right _ (List.mem_append_left _ held)
    obtain ⟨call, member, rfl, disk⟩ := (tidy.heads i).mp waits
    obtain ⟨i0, i1, i2, formed⟩ := tidy.formed call member
    rw [formed.readChain, Option.map_some, Option.some.injEq] at stepped
    refine ⟨call, member, rfl, held, disk, ?_⟩
    split at stepped
    · rename_i bad
      cases stepped
      exact .inr ⟨bad, rfl, rfl⟩
    · rename_i good
      rw [not_not] at good
      subst good
      refine .inl ⟨rfl, ?_⟩
      split at stepped
      · rename_i write
        cases stepped
        have whole : call.write = true := write
        simp only [transferred, blockOf, whole, if_true]
        exact ⟨by rw [Function.update_eq_self]; rfl, trivial⟩
      · rename_i read
        cases stepped
        have whole : call.write = false := Bool.eq_false_iff.mpr read
        simp only [transferred, blockOf, whole, Bool.false_eq_true, if_false]
        exact ⟨rfl, trivial⟩

/-- The state behind a request with three descriptors. -/
def posted (s : State Block) (b : BufId) (write : Bool) (i0 i1 i2 : Nat) : State Block :=
  { (s.setDisk (offer (format (taken s.disk [i0, i1, i2]) b (s.bufs b).blockno write i0 i1 i2) i0)).setBuf b { s.bufs b with disk := true } with
    calls := s.calls ++ [{ b, write, idx := [i0, i1, i2] }] }

namespace Tidy

/-- Each call has three descriptors. -/
theorem inUse_length (tidy : Tidy s) : (inUse s).length = 3 * s.calls.length := by
  have three : s.calls.map (List.length ∘ Call.idx) = List.replicate s.calls.length 3 := by
    rw [List.eq_replicate_iff]
    refine ⟨List.length_map .., ?_⟩
    intro length member
    obtain ⟨call, waits, rfl⟩ := List.mem_map.mp member
    obtain ⟨i0, i1, i2, formed⟩ := tidy.formed call waits
    rw [Function.comp_apply, formed.idx]
    rfl
  rw [inUse, List.length_flatMap]
  exact (congrArg List.sum three).trans (by rw [List.sum_replicate, smul_eq_mul, Nat.mul_comm])

/-- There are descriptors for two calls. -/
theorem calls_le (tidy : Tidy s) : s.calls.length ≤ 2 := by
  have within : inUse s ⊆ List.range num := fun i member => List.mem_range.mpr ((tidy.owner i).mp member).1
  have bound := (tidy.apart.subperm within).length_le
  rw [tidy.inUse_length, List.length_range] at bound
  have eight : num = 8 := rfl
  omega

/-- A call is posted when at most one other waits, and otherwise it yields. -/
theorem virtioDiskRw_outcome (tidy : Tidy s) (b : BufId) (write : Bool) :
    (s.calls.length ≤ 1 ∧ ∃ i0 i1 i2, [i0, i1, i2].Nodup ∧ (∀ i ∈ [i0, i1, i2], i < num ∧ s.disk.free i = true) ∧
      virtioDiskRw s b write = (posted s b write i0 i1 i2, [.submitted b write (sectorOf (s.bufs b).blockno) (s.bufs b).data])) ∨
    (s.calls.length = 2 ∧ ∃ more, (∀ i ∈ more, i < num ∧ s.disk.free i = true) ∧
      virtioDiskRw s b write = (s.setDisk (released s.disk more), [])) := by
  have eight : num = 8 := rfl
  have most := tidy.calls_le
  obtain ⟨more, distinct, vacant, ⟨length, found⟩ | ⟨length, complete, missing⟩⟩ := alloc3Desc_outcome s.disk
  · refine .inl ⟨?_, ?_⟩
    · have apart : (more ++ inUse s).Nodup := by
        refine distinct.append tidy.apart fun i free used => ?_
        have taken := ((tidy.owner i).mp used).2
        rw [(vacant i free).2] at taken
        cases taken
      have within : more ++ inUse s ⊆ List.range num := by
        intro i member
        rcases List.mem_append.mp member with free | used
        · exact List.mem_range.mpr (vacant i free).1
        · exact List.mem_range.mpr ((tidy.owner i).mp used).1
      have bound := (apart.subperm within).length_le
      rw [List.length_append, tidy.inUse_length, List.length_range, length] at bound
      omega
    · obtain ⟨i0, i1, i2, rfl⟩ := List.length_eq_three.mp length
      refine ⟨i0, i1, i2, distinct, vacant, ?_⟩
      rw [virtioDiskRw, found]
      rfl
  · refine .inr ⟨?_, more, vacant, ?_⟩
    · have within : List.range num ⊆ more ++ inUse s := by
        intro i member
        have inside := List.mem_range.mp member
        cases free : s.disk.free i with
        | true => exact List.mem_append_left _ (complete i inside free)
        | false => exact List.mem_append_right _ ((tidy.owner i).mpr ⟨inside, free⟩)
      have bound := (List.nodup_range.subperm within).length_le
      rw [List.length_append, tidy.inUse_length, List.length_range] at bound
      omega
    · rw [virtioDiskRw, missing]

/-- A call that yields leaves everything in use alone. -/
theorem spare (tidy : Tidy s) {more : List Nat} (vacant : ∀ i ∈ more, i < num ∧ s.disk.free i = true) :
    Tidy (s.setDisk (released s.disk more)) := by
  refine tidy.moved tidy.running rfl ?_ ?_ rfl (fun _ => rfl) (fun _ _ => rfl) (fun _ => rfl) (List.Perm.refl _)
  · funext i
    by_cases member : i ∈ more
    · simp [State.setDisk, released, member, (vacant i member).2]
    · simp [State.setDisk, released, member]
  · intro i used
    have absent : i ∉ more := by
      intro member
      have taken := ((tidy.owner i).mp used).2
      rw [(vacant i member).2] at taken
      cases taken
    simp [State.setDisk, released, absent]

section Post

variable {write : Bool} (tidy : Tidy s) (fresh : b ∉ s.calls.map Call.b) (distinct : [i0, i1, i2].Nodup)
  (vacant : ∀ i ∈ [i0, i1, i2], i < num ∧ s.disk.free i = true)

include tidy vacant

theorem vacant_notMem (used : i ∈ inUse s) : i ∉ [i0, i1, i2] := by
  intro member
  have taken := ((tidy.owner i).mp used).2
  rw [(vacant i member).2] at taken
  cases taken

theorem available_posted : available (posted s b write i0 i1 i2) = available s ++ [i0] := by
  have absent : i0 ∉ outstanding s := fun member => tidy.vacant_notMem vacant (tidy.outstanding_lt member) (List.mem_cons_self ..)
  have within : i0 :: outstanding s ⊆ List.range num := by
    intro i member
    rcases List.mem_cons.mp member with rfl | old
    · exact List.mem_range.mpr (vacant i (List.mem_cons_self ..)).1
    · exact List.mem_range.mpr ((tidy.owner i).mp (tidy.outstanding_lt old)).1
  have bound := ((List.nodup_cons.mpr ⟨absent, tidy.once⟩).subperm within).length_le
  rw [List.length_cons, outstanding, List.length_append, List.length_range, available, span_length] at bound
  exact span_push num_dvd num_lt s.disk.availRing (by omega : (s.disk.availIdx - s.device.next).toNat < num) i0

omit tidy vacant in
include distinct in
theorem formed_posted : Formed (posted s b write i0 i1 i2).disk (s.bufs b).blockno { b, write, idx := [i0, i1, i2] } i0 i1 i2 := by
  have first : i0 ≠ i1 ∧ i0 ≠ i2 ∧ i1 ≠ i2 := by simpa [and_assoc] using distinct
  obtain ⟨first, second, third⟩ := first
  constructor
  · rfl
  · simp [posted, State.setDisk, State.setBuf, offer, format, first, second]
  · simp [posted, State.setDisk, State.setBuf, offer, format, third]
  · simp [posted, State.setDisk, State.setBuf, offer, format]
  · simp [posted, State.setDisk, State.setBuf, offer, format]
  · simp [posted, State.setDisk, State.setBuf, offer, format]

include fresh distinct

/-- A request joins those that wait. -/
theorem post : Tidy (posted s b write i0 i1 i2) := by
  have used : inUse (posted s b write i0 i1 i2) = inUse s ++ [i0, i1, i2] := by simp [inUse, posted]
  have other (call : Call) (member : call ∈ s.calls) : call.b ≠ b := fun same => fresh (same ▸ List.mem_map_of_mem member)
  have grown : (outstanding (posted s b write i0 i1 i2)).Perm (i0 :: outstanding s) := by
    rw [outstanding, tidy.available_posted vacant, outstanding, List.append_assoc]
    exact List.perm_middle
  have absent : i0 ∉ outstanding s := fun member => tidy.vacant_notMem vacant (tidy.outstanding_lt member) (List.mem_cons_self ..)
  constructor
  · exact tidy.running
  · intro call member
    rcases List.mem_append.mp member with old | new
    · obtain ⟨j0, j1, j2, formed⟩ := tidy.formed call old
      refine ⟨j0, j1, j2, ?_⟩
      have apart (i : Nat) (own : i ∈ call.idx) : i ≠ i0 ∧ i ≠ i1 ∧ i ≠ i2 := by
        simpa using tidy.vacant_notMem vacant (mem_inUse old own)
      have same : ((posted s b write i0 i1 i2).bufs call.b).blockno = (s.bufs call.b).blockno := by
        simp [posted, State.setBuf, State.setDisk, other call old]
      rw [same]
      refine formed.kept (fun i own => ?_) (fun i own => ?_) (fun i own => ?_)
      all_goals simp [posted, State.setBuf, State.setDisk, offer, format, taken, apart i own]
    · cases List.mem_singleton.mp new
      refine ⟨i0, i1, i2, ?_⟩
      have same : ((posted s b write i0 i1 i2).bufs b).blockno = (s.bufs b).blockno := by simp [posted, State.setBuf, State.setDisk]
      rw [same]
      exact formed_posted distinct
  · rw [used]
    exact tidy.apart.append distinct fun i old new => tidy.vacant_notMem vacant old new
  · intro i
    rw [used, List.mem_append, tidy.owner i]
    have free : (posted s b write i0 i1 i2).disk.free i = if i ∈ [i0, i1, i2] then false else s.disk.free i := rfl
    rw [free]
    by_cases new : i ∈ [i0, i1, i2]
    · rw [if_pos new]
      exact iff_of_true (.inr new) ⟨(vacant i new).1, rfl⟩
    · rw [if_neg new]
      exact or_iff_left new
  · rw [posted, List.map_append]
    exact tidy.single.append (List.nodup_singleton b) (by simpa using fresh)
  · intro c owned
    rw [posted, List.map_append, List.mem_append]
    by_cases own : c = b
    · exact .inr (by simp [own])
    · exact .inl (tidy.owned c (by simpa [posted, State.setBuf, State.setDisk, own] using owned))
  · exact grown.nodup_iff.mpr (List.nodup_cons.mpr ⟨absent, tidy.once⟩)
  · intro i
    rw [grown.mem_iff, List.mem_cons, tidy.heads i]
    constructor
    · rintro (rfl | ⟨call, member, head, disk⟩)
      · exact ⟨{ b, write, idx := [i, i1, i2] }, by simp [posted], rfl, by simp [posted, State.setBuf, State.setDisk]⟩
      · exact ⟨call, List.mem_append_left _ member, head, by simpa [posted, State.setBuf, State.setDisk, other call member] using disk⟩
    · rintro ⟨call, member, head, disk⟩
      rcases List.mem_append.mp member with old | new
      · exact .inr ⟨call, old, head, by simpa [posted, State.setBuf, State.setDisk, other call old] using disk⟩
      · cases List.mem_singleton.mp new
        exact .inl head.symm

end Post

end Tidy

end BtbuOs.Virtio
