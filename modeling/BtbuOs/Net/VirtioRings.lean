import BtbuOs.Net.Virtio

namespace BtbuOs.Net

open FreeRunning Machine

/-- The descriptors that the driver has made available and the device has not taken. -/
def available (vq : Virtq) (d : Device) : List Nat := span vq.availRing num d.next vq.availIdx

/-- The descriptors that the device has given back and the driver has not processed. -/
def pending (vq : Virtq) : List Nat := (span vq.usedRing num (BitVec.ofNat 16 vq.lastUsedIdx) vq.usedIdx).map UsedElem.id

/-- The descriptors on their way from the driver to the device and back. -/
def outstanding (vq : Virtq) (d : Device) : List Nat := available vq d ++ (d.held ++ pending vq)

/-- A descriptor that is not free is on its way once. -/
structure Tidy (vq : Virtq) (d : Device) : Prop where
  nodup : (outstanding vq d).Nodup
  owner : ∀ i, i ∈ outstanding vq d ↔ i < num ∧ vq.free i = false
  low : vq.lastUsedIdx < 2 ^ 16

def returnedOf (q : Queue) (trace : List NicEvent) : List Nat :=
  trace.filterMap fun event =>
    match event with
    | .returned r id => if r = q then some id else none
    | _ => none

def processedOf (q : Queue) (trace : List NicEvent) : List Nat :=
  trace.filterMap fun event =>
    match event with
    | .processed r id => if r = q then some id else none
    | _ => none

/-- A round that processes an entry stays below 65536 of them, and a receive buffer whose frame gets no memory stands in the next slot of
the available ring already. -/
def RegularRound (n : Nic) (memory : Bool) : Option IntrLoop → Prop
  | none => True
  | some .tx => (n.vq .tx).lastUsedIdx ≠ (n.vq .tx).usedIdx.toNat → (n.vq .tx).lastUsedIdx + 1 < 2 ^ 16
  | some .rx => (n.vq .rx).lastUsedIdx ≠ (n.vq .rx).usedIdx.toNat → (n.vq .rx).lastUsedIdx + 1 < 2 ^ 16 ∧
      (memory = true ∨ (n.vq .rx).availRing ((n.vq .rx).availIdx.toNat % num) = ((n.vq .rx).usedRing ((n.vq .rx).lastUsedIdx % num)).id)

instance (n : Nic) (memory : Bool) (loop : Option IntrLoop) : Decidable (RegularRound n memory loop) :=
  match loop with
  | none => inferInstanceAs (Decidable True)
  | some .tx => inferInstanceAs (Decidable (_ → _))
  | some .rx => inferInstanceAs (Decidable (_ → _ ∧ _))

/-- The rounds are regular, and the device is opened before any frame is processed. -/
def Regular (n : Nic) (_ : List NicEvent) : NicAction → Prop
  | .openDevice => (n.vq .rx).lastUsedIdx = 0
  | .round memory => RegularRound n memory n.loop
  | _ => True

instance (n : Nic) (trace : List NicEvent) (action : NicAction) : Decidable (Regular n trace action) :=
  match action with
  | .openDevice => inferInstanceAs (Decidable (_ = _))
  | .round memory => inferInstanceAs (Decidable (RegularRound n memory n.loop))
  | .fetch _ | .complete _ _ _ | .write _ | .interrupt => inferInstanceAs (Decidable True)

variable {n after : Nic} {vq other : Virtq} {d e : Device} {q : Queue} {id len : Nat} {memory : Bool} {trace events : List NicEvent}

theorem num_dvd : num ∣ 2 ^ 16 := by decide

theorem num_lt : num < 2 ^ 16 := by decide

theorem Tidy.perm (tidy : Tidy vq d) (same : (outstanding other e).Perm (outstanding vq d)) (free : other.free = vq.free)
    (low : other.lastUsedIdx < 2 ^ 16) : Tidy other e := by
  constructor
  · exact same.nodup_iff.mpr tidy.nodup
  · intro i
    rw [same.mem_iff, free]
    exact tidy.owner i
  · exact low

/-- There is room for every descriptor. -/
theorem Tidy.room (tidy : Tidy vq d) : (available vq d).length + (d.held.length + (pending vq).length) ≤ num := by
  have inside : outstanding vq d ⊆ List.range num := fun i member => List.mem_range.mpr ((tidy.owner i).mp member).1
  have bound := (tidy.nodup.subperm inside).length_le
  rwa [outstanding, List.length_append, List.length_append, List.length_range] at bound

theorem available_length (vq : Virtq) (d : Device) : (available vq d).length = (vq.availIdx - d.next).toNat := span_length ..

theorem pending_length (vq : Virtq) : (pending vq).length = (vq.usedIdx - BitVec.ofNat 16 vq.lastUsedIdx).toNat := by
  rw [pending, List.length_map, span_length]

theorem toNat_last (low : vq.lastUsedIdx < 2 ^ 16) : (BitVec.ofNat 16 vq.lastUsedIdx).toNat = vq.lastUsedIdx := by
  rw [BitVec.toNat_ofNat, Nat.mod_eq_of_lt low]

/-- The loops of the interrupt end exactly when nothing is pending. -/
theorem pending_eq_nil_iff (low : vq.lastUsedIdx < 2 ^ 16) : pending vq = [] ↔ vq.lastUsedIdx = vq.usedIdx.toNat := by
  rw [pending, List.map_eq_nil_iff, span_eq_nil_iff]
  constructor
  · intro same
    rw [← toNat_last low, same]
  · intro same
    apply BitVec.eq_of_toNat_eq
    rw [toNat_last low, same]

/-- The oldest pending entry is the one that a round processes. -/
theorem pending_pop (low : vq.lastUsedIdx < 2 ^ 16) (some : vq.lastUsedIdx ≠ vq.usedIdx.toNat) (rings : other.usedRing = vq.usedRing)
    (index : other.usedIdx = vq.usedIdx) (last : other.lastUsedIdx = vq.lastUsedIdx + 1) :
    pending vq = (vq.usedRing (vq.lastUsedIdx % num)).id :: pending other := by
  have apart : BitVec.ofNat 16 vq.lastUsedIdx ≠ vq.usedIdx := by
    intro same
    rw [← same, toNat_last low] at some
    exact some rfl
  rw [pending, span_pop num_dvd vq.usedRing apart, toNat_last low, List.map_cons, pending, rings, index, last, BitVec.ofNat_add]
  rfl

/-- The device takes an available descriptor. -/
theorem Tidy.fetch (tidy : Tidy vq d) (taken : deviceFetch vq d = some e) : Tidy vq e := by
  unfold deviceFetch at taken
  split at taken
  · cases taken
  · rename_i some
    cases taken
    refine tidy.perm ?_ rfl tidy.low
    rw [outstanding, outstanding, available, available, span_pop num_dvd vq.availRing some, List.cons_append, List.append_assoc,
      List.singleton_append, ← List.append_assoc, ← List.append_assoc]
    exact List.perm_middle

/-- The device gives a descriptor back. -/
theorem Tidy.complete (tidy : Tidy vq d) (given : deviceReturn vq d id len = some (other, e)) :
    Tidy other e ∧ pending other = pending vq ++ [id] ∧ other.free = vq.free ∧ other.lastUsedIdx = vq.lastUsedIdx ∧
      other.availIdx = vq.availIdx ∧ other.availRing = vq.availRing := by
  unfold deviceReturn at given
  split at given
  · rename_i held
    cases given
    have room := tidy.room
    have some := List.length_pos_of_mem held
    rw [pending_length] at room
    have grown := span_push num_dvd num_lt vq.usedRing (by omega : (vq.usedIdx - BitVec.ofNat 16 vq.lastUsedIdx).toNat < num) ⟨id, len⟩
    have last : pending { vq with usedRing := Function.update vq.usedRing (vq.usedIdx.toNat % num) ⟨id, len⟩, usedIdx := vq.usedIdx + 1 } =
        pending vq ++ [id] := by
      rw [pending, grown, List.map_append]
      rfl
    refine ⟨?_, last, rfl, rfl, rfl, rfl⟩
    refine tidy.perm ?_ rfl tidy.low
    rw [outstanding, outstanding, last]
    apply List.Perm.append_left
    have back := List.perm_cons_erase held
    calc d.held.erase id ++ (pending vq ++ [id])
      _ = d.held.erase id ++ pending vq ++ [id] := (List.append_assoc ..).symm
      _ |>.Perm (id :: (d.held.erase id ++ pending vq)) := List.perm_append_singleton ..
      _ |>.Perm (d.held ++ pending vq) := back.symm.append_right (pending vq)
  · cases given

/-- A descriptor in the next slot becomes available with the index. -/
theorem available_push (room : (available vq d).length < num) {idx : Nat} (index : other.availIdx = vq.availIdx + 1)
    (ring : other.availRing = Function.update vq.availRing (vq.availIdx.toNat % num) idx) : available other d = available vq d ++ [idx] := by
  rw [available_length] at room
  rw [available, index, ring, span_push num_dvd num_lt vq.availRing room, available]

/-- The receive queue after a round. -/
def recycled (vq : Virtq) (memory : Bool) : Virtq :=
  { etherInputHelper vq memory with
    availIdx := (etherInputHelper vq memory).availIdx + 1, lastUsedIdx := (etherInputHelper vq memory).lastUsedIdx + 1 }

/-- A round of the second loop gives the oldest entry back to the device. -/
theorem Tidy.recycle (tidy : Tidy vq d) (some : vq.lastUsedIdx ≠ vq.usedIdx.toNat) (room : vq.lastUsedIdx + 1 < 2 ^ 16)
    (kept : memory = true ∨ vq.availRing (vq.availIdx.toNat % num) = (vq.usedRing (vq.lastUsedIdx % num)).id)
    (done : other = recycled vq memory) : Tidy other d ∧ pending vq = (vq.usedRing (vq.lastUsedIdx % num)).id :: pending other ∧ other.free = vq.free := by
  have fields : other.usedRing = vq.usedRing ∧ other.usedIdx = vq.usedIdx ∧ other.lastUsedIdx = vq.lastUsedIdx + 1 ∧
      other.free = vq.free ∧ other.availIdx = vq.availIdx + 1 := by
    rw [done, recycled, etherInputHelper]
    cases memory <;> exact ⟨rfl, rfl, rfl, rfl, rfl⟩
  obtain ⟨rings, index, last, free, next⟩ := fields
  have popped := pending_pop tidy.low some rings index last
  have slot : other.availRing = Function.update vq.availRing (vq.availIdx.toNat % num) (vq.usedRing (vq.lastUsedIdx % num)).id := by
    rw [done, recycled, etherInputHelper]
    rcases kept with given | same
    · rw [given]
      rfl
    · cases memory with
      | true => rfl
      | false => rw [← same, Function.update_eq_self]; rfl
  have space : (available vq d).length < num := by
    have bound := tidy.room
    rw [popped, List.length_cons] at bound
    omega
  refine ⟨tidy.perm ?_ free (by omega), popped, free⟩
  rw [outstanding, outstanding, available_push space next slot, popped, List.append_assoc, List.singleton_append]
  exact List.perm_middle.symm.append_left (available vq d)

/-- A round of the first loop frees the descriptor of the oldest entry. -/
theorem Tidy.release (tidy : Tidy vq d) (some : vq.lastUsedIdx ≠ vq.usedIdx.toNat) (room : vq.lastUsedIdx + 1 < 2 ^ 16) :
    ∃ mid, virtqFreeDesc vq (vq.usedRing (vq.lastUsedIdx % num)).id = .ok mid ∧ Tidy { mid with lastUsedIdx := mid.lastUsedIdx + 1 } d ∧
      pending vq = (vq.usedRing (vq.lastUsedIdx % num)).id :: pending { mid with lastUsedIdx := mid.lastUsedIdx + 1 } ∧
      mid.lastUsedIdx = vq.lastUsedIdx ∧ mid.usedIdx = vq.usedIdx := by
  generalize front : (vq.usedRing (vq.lastUsedIdx % num)).id = idx
  have popped (mid : Virtq) (rings : mid.usedRing = vq.usedRing) (index : mid.usedIdx = vq.usedIdx) (last : mid.lastUsedIdx = vq.lastUsedIdx + 1) :
      pending vq = idx :: pending mid := front ▸ pending_pop tidy.low some rings index last
  have first := popped { vq with lastUsedIdx := vq.lastUsedIdx + 1 } rfl rfl rfl
  have split : (outstanding vq d).Perm (idx :: (available vq d ++ (d.held ++ pending { vq with lastUsedIdx := vq.lastUsedIdx + 1 }))) := by
    rw [outstanding, first, ← List.append_assoc, ← List.append_assoc]
    exact List.perm_middle
  obtain ⟨inside, taken⟩ := (tidy.owner idx).mp (split.mem_iff.mpr (List.mem_cons_self ..))
  have fresh := List.nodup_cons.mp (split.nodup_iff.mp tidy.nodup)
  rw [virtqFreeDesc, if_neg (Nat.not_le.mpr inside), taken]
  refine ⟨_, rfl, ?_, popped _ rfl rfl rfl, rfl, rfl⟩
  constructor
  · exact fresh.2
  · intro i
    have same : i ∈ outstanding vq d ↔ i = idx ∨ i ∈ available vq d ++ (d.held ++ pending { vq with lastUsedIdx := vq.lastUsedIdx + 1 }) := by
      rw [split.mem_iff, List.mem_cons]
    by_cases own : i = idx
    · rw [own]
      dsimp only
      rw [Function.update_self]
      exact iff_of_false fresh.1 (by simp)
    · dsimp only
      rw [Function.update_of_ne own, ← tidy.owner i, same]
      exact ⟨Or.inr, fun either => either.resolve_left own⟩
  · exact room

/-- A packet takes a free descriptor to the device. -/
theorem Tidy.write (tidy : Tidy vq d) {idx : Nat} {mid : Virtq} (found : virtqAllocDesc vq = some (idx, mid)) (len : Nat) :
    Tidy (postPacket mid idx len) d ∧ pending (postPacket mid idx len) = pending vq := by
  obtain ⟨i, chosen, same⟩ := Option.map_eq_some_iff.mp found
  cases same
  have inside := List.mem_range.mp (List.mem_of_find?_eq_some chosen)
  have vacant := List.find?_some chosen
  have absent : idx ∉ outstanding vq d := by
    intro member
    rw [((tidy.owner idx).mp member).2] at vacant
    cases vacant
  have longer : (idx :: outstanding vq d).Nodup := List.nodup_cons.mpr ⟨absent, tidy.nodup⟩
  have space : (available vq d).length < num := by
    have within : idx :: outstanding vq d ⊆ List.range num := by
      intro j member
      rcases List.mem_cons.mp member with rfl | old
      · exact List.mem_range.mpr inside
      · exact List.mem_range.mpr ((tidy.owner j).mp old).1
    have bound := (longer.subperm within).length_le
    rw [List.length_cons, outstanding, List.length_append, List.length_range] at bound
    omega
  have given : available (postPacket { vq with free := Function.update vq.free idx false } idx len) d = available vq d ++ [idx] :=
    available_push space rfl rfl
  have split : (outstanding (postPacket { vq with free := Function.update vq.free idx false } idx len) d).Perm (idx :: outstanding vq d) := by
    rw [outstanding, given, outstanding, List.append_assoc]
    exact List.perm_middle
  refine ⟨?_, rfl⟩
  constructor
  · exact split.nodup_iff.mpr longer
  · intro j
    rw [split.mem_iff, List.mem_cons, tidy.owner j]
    dsimp only [postPacket, deploy]
    by_cases own : j = idx
    · rw [own, Function.update_self]
      exact iff_of_true (Or.inl rfl) ⟨inside, rfl⟩
    · rw [Function.update_of_ne own]
      exact ⟨fun either => either.resolve_left own, Or.inr⟩
  · exact tidy.low

/-- What a run keeps: tidy rings, the receive buffers with the device or its driver, and the record of what was processed. -/
structure Exact (n : Nic) (trace : List NicEvent) : Prop where
  running : n.panicked = none
  tidy : ∀ q, Tidy (n.vq q) (n.device q)
  posted : ∀ i, i < num → (n.vq .rx).free i = false
  fresh : (n.vq .rx).lastUsedIdx = 0 → (n.vq .rx).availIdx = BitVec.ofNat 16 num ∧ ∀ i, i < num → (n.vq .rx).availRing i = i
  told : ∀ q, returnedOf q trace = processedOf q trace ++ pending (n.vq q)

theorem returnedOf_append (q : Queue) (first second : List NicEvent) :
    returnedOf q (first ++ second) = returnedOf q first ++ returnedOf q second := List.filterMap_append

theorem processedOf_append (q : Queue) (first second : List NicEvent) :
    processedOf q (first ++ second) = processedOf q first ++ processedOf q second := List.filterMap_append

/-- A queue that nothing happens to keeps its record. -/
theorem told_quiet (told : returnedOf q trace = processedOf q trace ++ pending vq) (same : pending other = pending vq)
    (back : returnedOf q events = []) (done : processedOf q events = []) :
    returnedOf q (trace ++ events) = processedOf q (trace ++ events) ++ pending other := by
  rw [returnedOf_append, processedOf_append, back, done, List.append_nil, List.append_nil, told, same]

/-- The entry that is processed is the oldest of those that were given back. -/
theorem told_processed (told : returnedOf q trace = processedOf q trace ++ pending vq) (popped : pending vq = id :: pending other) :
    returnedOf q (trace ++ [.processed q id]) = processedOf q (trace ++ [.processed q id]) ++ pending other := by
  have none : returnedOf q [.processed q id] = [] := rfl
  have one : processedOf q [.processed q id] = [id] := by simp [processedOf]
  rw [returnedOf_append, processedOf_append, none, one, List.append_nil, told, popped, List.append_assoc, List.singleton_append]

theorem Nic.setVq_setDevice (n : Nic) (q : Queue) (vq : Virtq) : (n.setVq q vq).setDevice q (n.device q) = n.setVq q vq := by
  unfold Nic.setDevice Nic.setVq
  dsimp only
  rw [Function.update_eq_self]

/-- A change of one queue and its device. -/
theorem Exact.update (exact : Exact n trace) (q : Queue) (loop : Option IntrLoop)
    (state : after = { (n.setVq q vq).setDevice q d with loop }) (tidy : Tidy vq d)
    (posted : q = .rx → ∀ i, i < num → vq.free i = false)
    (fresh : q = .rx → vq.lastUsedIdx = 0 → vq.availIdx = BitVec.ofNat 16 num ∧ ∀ i, i < num → vq.availRing i = i)
    (told : returnedOf q (trace ++ events) = processedOf q (trace ++ events) ++ pending vq)
    (quiet : ∀ r, r ≠ q → returnedOf r events = [] ∧ processedOf r events = []) : Exact after (trace ++ events) := by
  have own : after.vq q = vq ∧ after.device q = d := by
    rw [state]
    exact ⟨Function.update_self .., Function.update_self ..⟩
  have rest (r : Queue) (other : r ≠ q) : after.vq r = n.vq r ∧ after.device r = n.device r := by
    rw [state]
    exact ⟨Function.update_of_ne other .., Function.update_of_ne other ..⟩
  constructor
  · rw [state]
    exact exact.running
  · intro r
    by_cases same : r = q
    · rw [same, own.1, own.2]
      exact tidy
    · rw [(rest r same).1, (rest r same).2]
      exact exact.tidy r
  · by_cases same : Queue.rx = q
    · rw [same, own.1]
      exact posted same.symm
    · rw [(rest .rx same).1]
      exact exact.posted
  · by_cases same : Queue.rx = q
    · rw [same, own.1]
      exact fresh same.symm
    · rw [(rest .rx same).1]
      exact exact.fresh
  · intro r
    by_cases same : r = q
    · rw [same, own.1]
      exact told
    · exact told_quiet (exact.told r) (by rw [(rest r same).1]) (quiet r same).1 (quiet r same).2

/-- The loop of the interrupt alone may change. -/
theorem Exact.relabel (exact : Exact n trace) (loop : Option IntrLoop) : Exact { n with loop } (trace ++ []) := by
  rw [List.append_nil]
  exact ⟨exact.running, exact.tidy, exact.posted, exact.fresh, exact.told⟩

theorem txRound_end (none : (n.vq .tx).lastUsedIdx = (n.vq .tx).usedIdx.toNat) : txRound n = ({ n with loop := some .rx }, []) :=
  if_neg (not_not.mpr none)

theorem txRound_next (some : (n.vq .tx).lastUsedIdx ≠ (n.vq .tx).usedIdx.toNat)
    (freed : virtqFreeDesc (n.vq .tx) ((n.vq .tx).usedRing ((n.vq .tx).lastUsedIdx % num)).id = .ok vq) :
    txRound n = (n.setVq .tx { vq with lastUsedIdx := vq.lastUsedIdx + 1 },
      [.processed .tx ((n.vq .tx).usedRing ((n.vq .tx).lastUsedIdx % num)).id]) := by
  unfold txRound
  dsimp only
  rw [if_pos some, freed]

theorem rxRound_end (none : (n.vq .rx).lastUsedIdx = (n.vq .rx).usedIdx.toNat) (memory : Bool) :
    rxRound n memory = ({ n with loop := Option.none }, []) :=
  if_neg (not_not.mpr none)

theorem rxRound_next (some : (n.vq .rx).lastUsedIdx ≠ (n.vq .rx).usedIdx.toNat) (memory : Bool) :
    rxRound n memory = (n.setVq .rx (recycled (n.vq .rx) memory),
      [.processed .rx ((n.vq .rx).usedRing ((n.vq .rx).lastUsedIdx % num)).id]) :=
  if_pos some

/-- A round of an interrupt processes the oldest entry, or ends its loop when there is none. -/
theorem Exact.round (exact : Exact n trace) (regular : Regular n trace (.round memory)) (done : intrRound n memory = (after, events)) :
    Exact after (trace ++ events) := by
  unfold intrRound at done
  split at done
  · cases done
    exact exact.relabel n.loop
  · rename_i loop
    rw [Regular, loop, RegularRound] at regular
    by_cases none : (n.vq .tx).lastUsedIdx = (n.vq .tx).usedIdx.toNat
    · rw [txRound_end none] at done
      cases done
      exact exact.relabel (some .rx)
    · obtain ⟨mid, freed, tidy, popped, -, -⟩ := (exact.tidy .tx).release none (regular none)
      rw [txRound_next none freed] at done
      cases done
      apply exact.update .tx n.loop _ tidy
      · exact fun tx => by cases tx
      · exact fun tx => by cases tx
      · exact told_processed (exact.told .tx) popped
      · intro r other
        cases r with
        | rx => exact ⟨rfl, rfl⟩
        | tx => exact absurd rfl other
      · rw [Nic.setVq_setDevice]
        rfl
  · rename_i loop
    rw [Regular, loop, RegularRound] at regular
    by_cases none : (n.vq .rx).lastUsedIdx = (n.vq .rx).usedIdx.toNat
    · rw [rxRound_end none] at done
      cases done
      exact exact.relabel Option.none
    · obtain ⟨room, kept⟩ := regular none
      obtain ⟨tidy, popped, free⟩ := (exact.tidy .rx).recycle none room kept rfl
      rw [rxRound_next none] at done
      cases done
      apply exact.update .rx n.loop _ tidy
      · intro _ i inside
        rw [free]
        exact exact.posted i inside
      · intro _ zero
        cases memory <;> cases zero
      · exact told_processed (exact.told .rx) popped
      · intro r other
        cases r with
        | rx => exact absurd rfl other
        | tx => exact ⟨rfl, rfl⟩
      · rw [Nic.setVq_setDevice]
        rfl

/-- Before any frame is processed, to open the device changes nothing. -/
theorem Exact.openDevice (exact : Exact n trace) (zero : (n.vq .rx).lastUsedIdx = 0) : Exact (virtioNetOpen n) (trace ++ []) := by
  obtain ⟨index, ring⟩ := exact.fresh zero
  have rings : (setReceiveBuffers (n.vq .rx)).availRing = (n.vq .rx).availRing := by
    funext i
    dsimp only [setReceiveBuffers]
    split
    · rename_i inside
      exact (ring i inside).symm
    · rfl
  have free : (setReceiveBuffers (n.vq .rx)).free = (n.vq .rx).free := by
    funext i
    dsimp only [setReceiveBuffers]
    split
    · rename_i inside
      exact (exact.posted i inside).symm
    · rfl
  have given : available (setReceiveBuffers (n.vq .rx)) (n.device .rx) = available (n.vq .rx) (n.device .rx) := by
    rw [available, available, rings, index]
    rfl
  have back : pending (setReceiveBuffers (n.vq .rx)) = pending (n.vq .rx) := by
    rw [pending, pending, zero]
    rfl
  have tidy : Tidy (setReceiveBuffers (n.vq .rx)) (n.device .rx) := by
    refine (exact.tidy .rx).perm ?_ free (show 0 < 2 ^ 16 by decide)
    rw [outstanding, outstanding, given, back]
  apply exact.update .rx n.loop _ tidy
  · intro _ i inside
    rw [free]
    exact exact.posted i inside
  · intro _ _
    rw [rings]
    exact ⟨rfl, ring⟩
  · exact told_quiet (exact.told .rx) back rfl rfl
  · exact fun r _ => ⟨rfl, rfl⟩
  · rw [Nic.setVq_setDevice]
    rfl

/-- A packet is sent, or the driver has no descriptor for it. -/
theorem Exact.write (exact : Exact n trace) (len : Nat) :
    Exact (virtioNetWrite n len).1 (trace ++ [.wrote (virtioNetWrite n len).2]) := by
  have refused (value : Int) : Exact n (trace ++ [.wrote value]) :=
    ⟨exact.running, exact.tidy, exact.posted, exact.fresh, fun q => told_quiet (exact.told q) rfl rfl rfl⟩
  unfold virtioNetWrite
  split
  · exact refused (-1)
  · split
    · exact refused (-1)
    · rename_i idx mid found
      obtain ⟨tidy, back⟩ := (exact.tidy .tx).write found len
      apply exact.update .tx n.loop _ tidy
      · exact fun tx => by cases tx
      · exact fun tx => by cases tx
      · exact told_quiet (exact.told .tx) back rfl rfl
      · exact fun r _ => ⟨rfl, rfl⟩
      · rw [Nic.setVq_setDevice]
        rfl

/-- Every step of a regular run keeps the record exact. -/
theorem Exact.step (exact : Exact n trace) {action : NicAction} (regular : Regular n trace action)
    (stepped : nicStep n action = some (after, events)) : Exact after (trace ++ events) := by
  unfold nicStep at stepped
  rw [if_neg (not_not.mpr exact.running)] at stepped
  cases action with
  | fetch q =>
      obtain ⟨e, taken, same⟩ := Option.map_eq_some_iff.mp stepped
      cases same
      refine exact.update q n.loop ?_ ((exact.tidy q).fetch taken) (fun rx => rx ▸ exact.posted) (fun rx => rx ▸ exact.fresh) ?_ fun r _ => ⟨rfl, rfl⟩
      · unfold Nic.setDevice Nic.setVq
        dsimp only
        rw [Function.update_eq_self]
      · exact told_quiet (exact.told q) rfl rfl rfl
  | complete q id len =>
      obtain ⟨⟨vq, e⟩, given, same⟩ := Option.map_eq_some_iff.mp stepped
      cases same
      obtain ⟨tidy, grown, free, last, index, ring⟩ := (exact.tidy q).complete given
      apply exact.update q n.loop rfl tidy
      · intro rx
        rw [free, rx]
        exact exact.posted
      · intro rx
        rw [last, index, ring, rx]
        exact exact.fresh
      · have one : returnedOf q [.returned q id] = [id] := by simp [returnedOf]
        have none : processedOf q [.returned q id] = [] := rfl
        rw [returnedOf_append, processedOf_append, one, none, List.append_nil, exact.told q, grown, List.append_assoc]
      · intro r other
        refine ⟨?_, rfl⟩
        simp [returnedOf, other.symm]
  | openDevice =>
      obtain ⟨-, same⟩ := Option.ite_none_right_eq_some.mp stepped
      cases same
      exact exact.openDevice regular
  | write len =>
      obtain ⟨-, same⟩ := Option.ite_none_right_eq_some.mp stepped
      cases same
      exact exact.write len
  | interrupt =>
      obtain ⟨-, same⟩ := Option.ite_none_right_eq_some.mp stepped
      cases same
      exact exact.relabel (some .tx)
  | round memory =>
      obtain ⟨-, same⟩ := Option.ite_none_left_eq_some.mp stepped
      exact exact.round regular (Option.some.inj same)

theorem nicInit_exact : Exact nicInit [] := by
  constructor
  · rfl
  · intro q
    cases q with
    | tx => exact ⟨List.nodup_nil, fun i => iff_of_false List.not_mem_nil (fun taken => Bool.noConfusion taken.2), by decide⟩
    | rx =>
        have whole : outstanding (nicInit.vq .rx) (nicInit.device .rx) = List.range num := by decide
        constructor
        · rw [whole]
          exact List.nodup_range
        · intro i
          rw [whole, List.mem_range]
          constructor
          · exact fun inside => ⟨inside, if_pos inside⟩
          · exact And.left
        · decide
  · exact fun i inside => if_pos inside
  · exact fun _ => ⟨rfl, fun i inside => if_pos inside⟩
  · intro q
    cases q <;> decide

section Run

variable {rounds : Nat} (alloc : Nat → Bool)

theorem intrRun_idle (idle : n.loop = none) : intrRun alloc rounds n = (n, []) := by
  induction rounds with
  | zero => rfl
  | succ rounds ih => rw [intrRun, intrRound, idle]; dsimp only; rw [ih]; rfl

/-- The second loop processes what is pending, in order, and ends. -/
theorem intrRun_rx (loop : n.loop = some .rx) (room : (n.vq .rx).lastUsedIdx + (pending (n.vq .rx)).length < 2 ^ 16)
    (enough : (pending (n.vq .rx)).length < rounds) :
    ∃ after, intrRun alloc rounds n = (after, (pending (n.vq .rx)).map (.processed .rx)) ∧ after.loop = none ∧
      after.panicked = n.panicked ∧ pending (after.vq .rx) = [] ∧ after.vq .tx = n.vq .tx := by
  induction rounds generalizing n with
  | zero => omega
  | succ rounds ih =>
      rw [intrRun, intrRound, loop]
      dsimp only
      have low : (n.vq .rx).lastUsedIdx < 2 ^ 16 := by omega
      by_cases none : (n.vq .rx).lastUsedIdx = (n.vq .rx).usedIdx.toNat
      · have empty := (pending_eq_nil_iff low).mpr none
        rw [rxRound_end none, empty]
        dsimp only
        rw [intrRun_idle alloc rfl]
        exact ⟨_, rfl, rfl, rfl, empty, rfl⟩
      · rw [rxRound_next none]
        dsimp only
        have popped : pending (n.vq .rx) = ((n.vq .rx).usedRing ((n.vq .rx).lastUsedIdx % num)).id :: pending (recycled (n.vq .rx) (alloc rounds)) := by
          apply pending_pop low none <;> cases alloc rounds <;> rfl
        have last : (recycled (n.vq .rx) (alloc rounds)).lastUsedIdx = (n.vq .rx).lastUsedIdx + 1 := by
          cases alloc rounds <;> rfl
        have mid : (n.setVq .rx (recycled (n.vq .rx) (alloc rounds))).vq .rx = recycled (n.vq .rx) (alloc rounds) := Nic.setVq_self ..
        rw [popped, List.length_cons] at room enough
        obtain ⟨after, run, idle, quiet, empty, other⟩ := ih (n := n.setVq .rx (recycled (n.vq .rx) (alloc rounds))) loop
          (by rw [mid, last]; omega) (by rw [mid]; omega)
        rw [run, popped, mid]
        exact ⟨after, rfl, idle, quiet, empty, other⟩

/-- The first loop frees what is pending, in order, and the second one follows. -/
theorem intrRun_tx (tidy : Tidy (n.vq .tx) (n.device .tx)) (loop : n.loop = some .tx)
    (room : ∀ q, (n.vq q).lastUsedIdx + (pending (n.vq q)).length < 2 ^ 16)
    (enough : (pending (n.vq .tx)).length + (pending (n.vq .rx)).length + 1 < rounds) :
    ∃ after, intrRun alloc rounds n = (after, (pending (n.vq .tx)).map (.processed .tx) ++ (pending (n.vq .rx)).map (.processed .rx)) ∧
      after.loop = none ∧ after.panicked = n.panicked ∧ ∀ q, pending (after.vq q) = [] := by
  induction rounds generalizing n with
  | zero => omega
  | succ rounds ih =>
      rw [intrRun, intrRound, loop]
      dsimp only
      by_cases none : (n.vq .tx).lastUsedIdx = (n.vq .tx).usedIdx.toNat
      · have empty := (pending_eq_nil_iff tidy.low).mpr none
        rw [empty, List.length_nil] at enough
        rw [txRound_end none, empty]
        dsimp only
        obtain ⟨after, run, idle, quiet, last, other⟩ := intrRun_rx (n := { n with loop := some .rx }) alloc rfl (room .rx)
          (by omega : (pending (n.vq .rx)).length < rounds)
        rw [run]
        refine ⟨after, rfl, idle, quiet, ?_⟩
        intro q
        cases q with
        | rx => exact last
        | tx => rw [other]; exact empty
      · have first := room .tx
        obtain ⟨mid, freed, kept, popped, last, -⟩ := tidy.release none (by
          have some := (pending_eq_nil_iff tidy.low).not.mpr none
          have := List.length_pos_of_ne_nil some
          omega)
        rw [txRound_next none freed]
        dsimp only
        rw [popped, List.length_cons] at enough first
        have own : (n.setVq .tx { mid with lastUsedIdx := mid.lastUsedIdx + 1 }).vq .tx = { mid with lastUsedIdx := mid.lastUsedIdx + 1 } :=
          Nic.setVq_self ..
        have other : (n.setVq .tx { mid with lastUsedIdx := mid.lastUsedIdx + 1 }).vq .rx = n.vq .rx := Nic.setVq_of_ne _ _ (by decide)
        obtain ⟨after, run, idle, quiet, empty⟩ := ih (n := n.setVq .tx { mid with lastUsedIdx := mid.lastUsedIdx + 1 })
          (by rw [own]; exact kept) loop
          (by
            intro q
            cases q with
            | tx => rw [own]; dsimp only; omega
            | rx => rw [other]; exact room .rx)
          (by rw [own, other]; omega)
        rw [run, popped, own, other]
        exact ⟨after, rfl, idle, quiet, empty⟩

/-- From 65536 entries on the second loop never ends. -/
theorem intrRun_endless (loop : n.loop = some .rx) (high : 2 ^ 16 ≤ (n.vq .rx).lastUsedIdx) : (intrRun alloc rounds n).1.loop = some .rx := by
  induction rounds generalizing n with
  | zero => exact loop
  | succ rounds ih =>
      have index := (n.vq .rx).usedIdx.isLt
      rw [intrRun, intrRound, loop]
      dsimp only
      rw [rxRound_next (by omega)]
      apply ih (n := n.setVq .rx (recycled (n.vq .rx) (alloc rounds))) loop
      rw [Nic.setVq_self]
      have last : (recycled (n.vq .rx) (alloc rounds)).lastUsedIdx = (n.vq .rx).lastUsedIdx + 1 := by
        cases alloc rounds <;> rfl
      omega

end Run

/-- The rings in a state after a run: no panic, each receive descriptor with the device or in processing once, each transmit descriptor
free or on its way once, and what was processed is what was given back, in order, up to what is pending. -/
structure Orderly (n : Nic) (trace : List NicEvent) : Prop where
  running : n.panicked = none
  received : ∀ i, i < num → (outstanding (n.vq .rx) (n.device .rx)).count i = 1
  sent : (outstanding (n.vq .tx) (n.device .tx)).Nodup ∧
    ∀ i, i < num → ((n.vq .tx).free i = false ↔ i ∈ outstanding (n.vq .tx) (n.device .tx))
  told : ∀ q, returnedOf q trace = processedOf q trace ++ pending (n.vq q)

theorem Exact.orderly (exact : Exact n trace) : Orderly n trace := by
  constructor
  · exact exact.running
  · intro i inside
    have member := ((exact.tidy .rx).owner i).mpr ⟨inside, exact.posted i inside⟩
    exact List.count_eq_one_of_mem (exact.tidy .rx).nodup member
  · refine ⟨(exact.tidy .tx).nodup, fun i inside => ?_⟩
    rw [(exact.tidy .tx).owner i]
    exact ⟨fun taken => ⟨inside, taken⟩, And.right⟩
  · exact exact.told

theorem regular_exact (reached : Reaches nicStep Regular (· = nicInit) n trace) : Exact n trace := by
  apply reached.invariant Exact
  · rintro n rfl
    exact nicInit_exact
  · intro n trace action after events exact regular stepped
    exact exact.step regular stepped

/-- In every regular run the rings are orderly, and an interrupt ends after the entries that the device has given back. -/
theorem virtio_net_exact (reached : Reaches nicStep Regular (· = nicInit) n trace) : Orderly n trace ∧
    ∀ alloc rounds, n.loop = some .tx → (∀ q, (n.vq q).lastUsedIdx + (pending (n.vq q)).length < 2 ^ 16) →
      (pending (n.vq .tx)).length + (pending (n.vq .rx)).length + 1 < rounds →
      ∃ after, intrRun alloc rounds n = (after, (pending (n.vq .tx)).map (.processed .tx) ++ (pending (n.vq .rx)).map (.processed .rx)) ∧
        after.loop = none ∧ after.panicked = none ∧ ∀ q, pending (after.vq q) = [] := by
  have exact := regular_exact reached
  refine ⟨exact.orderly, fun alloc rounds loop room enough => ?_⟩
  obtain ⟨after, run, idle, quiet, empty⟩ := intrRun_tx alloc (exact.tidy .tx) loop room enough
  exact ⟨after, run, idle, quiet.trans exact.running, empty⟩

/-- A frame and a packet are given back, and one interrupt processes both. -/
theorem virtio_net_exact_run : ∃ n trace, Reaches nicStep Regular (· = nicInit) n trace ∧ Orderly n trace ∧
    ∃ after, intrRun (fun _ => true) 4 n = (after, [.processed .tx 0, .processed .rx 1]) ∧ after.loop = none := by
  obtain ⟨n, trace, reached, test⟩ := replay_witness nicStep Regular (· = nicInit)
    [.openDevice, .fetch .rx, .fetch .rx, .complete .rx 1 60, .write 42, .fetch .tx, .complete .tx 0 54, .interrupt] nicInit rfl
    (fun n _ => decide (n.loop = some .tx ∧ pending (n.vq .tx) = [0] ∧ pending (n.vq .rx) = [1] ∧
      (n.vq .tx).lastUsedIdx = 0 ∧ (n.vq .rx).lastUsedIdx = 0)) (by decide +kernel)
  obtain ⟨loop, packet, frame, first, second⟩ := of_decide_eq_true test
  obtain ⟨orderly, ends⟩ := virtio_net_exact reached
  have room (q : Queue) : (n.vq q).lastUsedIdx + (pending (n.vq q)).length < 2 ^ 16 := by
    cases q with
    | rx => rw [second, frame]; decide
    | tx => rw [first, packet]; decide
  obtain ⟨after, run, idle, -⟩ := ends (fun _ => true) 4 loop room (by rw [packet, frame]; decide)
  rw [packet, frame] at run
  exact ⟨n, trace, reached, orderly, after, run, idle⟩

/-- When the frame of a returned buffer gets no memory, the device gets another buffer twice and loses this one. -/
theorem unread_frame_duplicated : ¬∀ n trace, Reaches nicStep (fun _ _ _ => True) (· = nicInit) n trace → Orderly n trace := by
  intro claim
  obtain ⟨n, trace, reached, test⟩ := replay_witness nicStep (fun _ _ _ => True) (· = nicInit)
    [.fetch .rx, .fetch .rx, .complete .rx 1 60, .interrupt, .round true, .round false] nicInit rfl
    (fun n _ => decide ((outstanding (n.vq .rx) (n.device .rx)).count 1 = 0)) (by decide +kernel)
  have once := (claim n trace reached).received 1 (by decide)
  rw [of_decide_eq_true test] at once
  cases once

end BtbuOs.Net
