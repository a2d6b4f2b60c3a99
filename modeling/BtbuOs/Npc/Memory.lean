import BtbuOs.Lib.Bytes
import BtbuOs.Lib.Machine
import Mathlib.Data.List.Find
import Mathlib.Data.Set.Card

namespace BtbuOs.Npc

open Bytes Machine

/-- The macro `NPC_MEMORY_MAX`. -/
abbrev npcMemoryMax : Nat := 8

/-- The macro `NPC_MEMORY_L2_SIZE`. -/
def npcMemoryL2Size : Nat := 2048

/-- The bytes of a line feed. -/
def newline : Byte := 10

/-- `struct npc_memory`. -/
structure NpcMemory where
  npcId : Int
  l2Memory : Memory
  l2Len : Nat

/-- The array `g_memories`. -/
abbrev Memories := Fin npcMemoryMax → NpcMemory

def npcMemoryInit (st : Memories) : Memories := fun i => { st i with npcId := -1, l2Len := 0 }

def findMemory (st : Memories) (npcId : Int) : Option (Fin npcMemoryMax) :=
  (List.finRange npcMemoryMax).find? fun i => (st i).npcId = npcId

/-- Without a slot for the id, the first free one is taken. -/
def findOrAllocMemory (st : Memories) (npcId : Int) : Option (Fin npcMemoryMax) × Memories :=
  match findMemory st npcId with
  | some i => (some i, st)
  | none =>
      match (List.finRange npcMemoryMax).find? fun i => (st i).npcId < 0 with
      | some free => (some free, Function.update st free { st free with npcId, l2Len := 0 })
      | none => (none, st)

/-- The part of `npc_memory_save` that appends to a slot; a log that is full is emptied first. -/
def appendL2 (mem : NpcMemory) (content : Memory) (len : Int) : Int × NpcMemory :=
  let remain : Int := npcMemoryL2Size - mem.l2Len - 1
  let (mem, remain) :=
    if remain ≤ 0 then ({ mem with l2Len := 0 }, (npcMemoryL2Size - 1 : Int)) else (mem, remain)
  let copyLen := if len < remain then len else remain
  let (mem, copyLen) :=
    if 0 < mem.l2Len ∧ mem.l2Len < npcMemoryL2Size - 1 then
      let remain := remain - 1
      ({ mem with l2Memory := Function.update mem.l2Memory mem.l2Len newline, l2Len := mem.l2Len + 1 },
        if remain < copyLen then remain else copyLen)
    else (mem, copyLen)
  let l2Len := (mem.l2Len + copyLen).toNat
  let l2Memory := splice mem.l2Memory mem.l2Len copyLen.toNat content
  (copyLen, { mem with l2Memory := Function.update l2Memory l2Len 0, l2Len })

/-- The content is absent when its pointer is NULL. -/
def npcMemorySave (st : Memories) (npcId : Int) (content : Option Memory) (len : Int) : Int × Memories :=
  match content with
  | none => (-1, st)
  | some content =>
      if npcId < 0 ∨ len ≤ 0 then (-1, st)
      else
        match findOrAllocMemory st npcId with
        | (none, st) => (-1, st)
        | (some i, st) =>
            let (copyLen, mem) := appendL2 (st i) content len
            (copyLen, Function.update st i mem)

/-- The result and the buffer after the call; the buffer is absent when its pointer is NULL. -/
def npcMemoryLoad (st : Memories) (npcId : Int) (buf : Option Memory) (maxlen : Int) : Int × Option Memory :=
  match buf with
  | none => (-1, none)
  | some buf =>
      if npcId < 0 ∨ maxlen ≤ 0 then (-1, some buf)
      else
        match findMemory st npcId with
        | none => (0, some (Function.update buf 0 0))
        | some i =>
            let copyLen := if (st i).l2Len < maxlen - 1 then ((st i).l2Len : Int) else maxlen - 1
            (copyLen, some (Function.update (splice buf 0 copyLen.toNat (st i).l2Memory) copyLen.toNat 0))

def npcMemoryClear (st : Memories) (npcId : Int) : Int × Memories :=
  match findMemory st npcId with
  | none => (-1, st)
  | some i => (0, Function.update st i { st i with npcId := -1, l2Len := 0 })

/-- The content is absent when `copyin` fails. -/
def sysNpcMemorySave (st : Memories) (npcId : Int) (content : Option Memory) (len : Int) : Int × Memories :=
  if len ≤ 0 ∨ npcMemoryL2Size ≤ len then (-1, st)
  else
    match content with
    | none => (-1, st)
    | some content => npcMemorySave st npcId (some (Function.update content len.toNat 0)) len

/-- The result and the bytes for the user; the buffer is on the kernel stack, and `copyout` may fail. -/
def sysNpcMemoryLoad (st : Memories) (npcId : Int) (buf : Memory) (maxlen : Int) (copied : Bool) : Int × List Byte :=
  let maxlen := if maxlen ≤ 0 ∨ npcMemoryL2Size < maxlen then (npcMemoryL2Size : Int) else maxlen
  let (len, loaded) := npcMemoryLoad st npcId (some buf) maxlen
  if len < 0 then (-1, [])
  else if !copied then (-1, [])
  else if 0 < len then (len, slice (loaded.getD buf) 0 (len.toNat + 1))
  else (len, [0])

/-- The calls that change the store. -/
inductive MemoryAction where
  | save (npcId : Int) (content : Option Memory) (len : Int)
  | sysSave (npcId : Int) (content : Option Memory) (len : Int)
  | clear (npcId : Int)

/-- The id that a call names. -/
def MemoryAction.npcId : MemoryAction → Int
  | .save npcId _ _ | .sysSave npcId _ _ | .clear npcId => npcId

/-- The events are the results of the calls. -/
def memoryStep (st : Memories) : MemoryAction → Option (Memories × List Int)
  | .save npcId content len => some ((npcMemorySave st npcId content len).2, [(npcMemorySave st npcId content len).1])
  | .sysSave npcId content len =>
      some ((sysNpcMemorySave st npcId content len).2, [(sysNpcMemorySave st npcId content len).1])
  | .clear npcId => some ((npcMemoryClear st npcId).2, [(npcMemoryClear st npcId).1])

/-- The purpose of the store: each id has a log of bytes or none. -/
abbrev Logs := Int → Option (List Byte)

/-- What a save keeps of a log: an empty or full log starts anew, another one gets a line feed. -/
def base (log : List Byte) : List Byte :=
  if log = [] ∨ log.length = npcMemoryL2Size - 1 then [] else log ++ [newline]

/-- The number of bytes that fit behind what a save keeps. -/
def fitting (log : List Byte) (len : Nat) : Nat := min len (npcMemoryL2Size - 1 - (base log).length)

namespace Logs

variable (logs : Logs) (npcId : Int)

/-- The id has no log, and as many other ids have one as there are slots. -/
def Full : Prop := logs npcId = none ∧ npcMemoryMax ≤ {id | logs id ≠ none}.ncard

/-- The log of an id; it is empty when the id has none. -/
def log : List Byte := (logs npcId).getD []

open Classical in
noncomputable def save (content : List Byte) : Int × Logs :=
  if logs.Full npcId then (-1, logs)
  else
    (fitting (logs.log npcId) content.length,
      Function.update logs npcId (some (base (logs.log npcId) ++ content.take (fitting (logs.log npcId) content.length))))

def load (maxlen : Nat) : List Byte := (logs.log npcId).take (maxlen - 1)

def clear : Int × Logs := if logs npcId = none then (-1, logs) else (0, Function.update logs npcId none)

end Logs

/-- The log in a slot. -/
def NpcMemory.log (mem : NpcMemory) : List Byte := slice mem.l2Memory 0 mem.l2Len

/-- The logs that the slots hold. -/
def logsOf (st : Memories) : Logs := fun id => if id < 0 then none else (findMemory st id).map fun i => (st i).log

/-- A slot in use holds a log with its terminator. -/
structure NpcMemory.Terminated (mem : NpcMemory) : Prop where
  len : mem.l2Len ≤ npcMemoryL2Size - 1
  null : mem.l2Memory mem.l2Len = 0

/-- No id has two slots, and the slots in use hold terminated logs. -/
structure Tidy (st : Memories) : Prop where
  unique : ∀ i j, 0 ≤ (st i).npcId → (st i).npcId = (st j).npcId → i = j
  terminated : ∀ i, 0 ≤ (st i).npcId → (st i).Terminated

/-- A save takes as many bytes as fit. -/
theorem fitting_greatest (log : List Byte) (len : Nat) (short : log.length ≤ npcMemoryL2Size - 1) :
    IsGreatest {count | count ≤ len ∧ (base log).length + count ≤ npcMemoryL2Size - 1} (fitting log len) := by
  have room : (base log).length ≤ npcMemoryL2Size - 1 := by
    unfold base
    split
    · exact Nat.zero_le _
    · rename_i other
      push Not at other
      rw [List.length_append, List.length_singleton]
      omega
  unfold fitting
  constructor
  · constructor
    · exact Nat.min_le_left _ _
    · omega
  · rintro count ⟨enough, fits⟩
    omega

/-- An empty or full log starts anew. -/
theorem appendL2_anew {mem : NpcMemory} (content : Memory) {len : Int} (positive : 0 < len)
    (anew : mem.l2Len = 0 ∨ mem.l2Len = npcMemoryL2Size - 1) :
    let count := min len.toNat (npcMemoryL2Size - 1)
    appendL2 mem content len =
      ((count : Int), { mem with l2Memory := Function.update (splice mem.l2Memory 0 count content) count 0, l2Len := count }) := by
  intro count
  have size : npcMemoryL2Size = 2048 := rfl
  have copied : (if len < 2047 then len else 2047) = (count : Int) := by
    split <;> omega
  rcases anew with empty | full
  · have remain : ((npcMemoryL2Size : Int) - mem.l2Len - 1) = 2047 := by omega
    have separates : ¬(0 < mem.l2Len ∧ mem.l2Len < npcMemoryL2Size - 1) := by omega
    have kept : ¬(2047 : Int) ≤ 0 := by omega
    unfold appendL2
    simp only [remain, kept, if_false, copied, separates]
    simp [empty]
  · have remain : ((npcMemoryL2Size : Int) - mem.l2Len - 1) = 0 := by omega
    have whole : ((npcMemoryL2Size : Int) - 1) = 2047 := by omega
    unfold appendL2
    simp only [remain, le_refl, if_true, whole, copied]
    simp

/-- Behind another log goes a line feed. -/
theorem appendL2_behind {mem : NpcMemory} (content : Memory) {len : Int} (positive : 0 < len) (some : 0 < mem.l2Len)
    (short : mem.l2Len < npcMemoryL2Size - 1) :
    let count := min len.toNat (npcMemoryL2Size - 2 - mem.l2Len)
    appendL2 mem content len =
      ((count : Int), { mem with
        l2Memory := Function.update (splice (Function.update mem.l2Memory mem.l2Len newline) (mem.l2Len + 1) count content)
          (mem.l2Len + 1 + count) 0
        l2Len := mem.l2Len + 1 + count }) := by
  intro count
  have size : npcMemoryL2Size = 2048 := rfl
  have kept : ¬((npcMemoryL2Size : Int) - mem.l2Len - 1) ≤ 0 := by omega
  have copied : (if ((npcMemoryL2Size : Int) - mem.l2Len - 1) - 1 <
      (if len < ((npcMemoryL2Size : Int) - mem.l2Len - 1) then len else ((npcMemoryL2Size : Int) - mem.l2Len - 1)) then
      ((npcMemoryL2Size : Int) - mem.l2Len - 1) - 1 else
      (if len < ((npcMemoryL2Size : Int) - mem.l2Len - 1) then len else ((npcMemoryL2Size : Int) - mem.l2Len - 1))) =
      (count : Int) := by
    split <;> split <;> omega
  have sum : (((mem.l2Len + 1 : Nat) : Int) + count).toNat = mem.l2Len + 1 + count := by omega
  unfold appendL2
  simp only [kept, if_false, some, short, and_self, if_true, copied, sum, Int.toNat_natCast]

/-- The append of the code is the one of the logs. -/
theorem appendL2_log {mem : NpcMemory} (content : Memory) {len : Int} (short : mem.l2Len ≤ npcMemoryL2Size - 1)
    (positive : 0 < len) :
    (appendL2 mem content len).1 = fitting mem.log len.toNat ∧
      (appendL2 mem content len).2.npcId = mem.npcId ∧
      (appendL2 mem content len).2.log = base mem.log ++ (slice content 0 len.toNat).take (fitting mem.log len.toNat) ∧
      (appendL2 mem content len).2.Terminated := by
  have size : npcMemoryL2Size = 2048 := rfl
  have length : mem.log.length = mem.l2Len := length_slice _ _ _
  have empty : mem.log = [] ↔ mem.l2Len = 0 := by rw [← length, List.length_eq_zero_iff]
  by_cases anew : mem.l2Len = 0 ∨ mem.l2Len = npcMemoryL2Size - 1
  · have kept : base mem.log = [] := by
      unfold base
      rw [if_pos (by rwa [length, empty])]
    have count : fitting mem.log len.toNat = min len.toNat (npcMemoryL2Size - 1) := by simp [fitting, kept]
    rw [appendL2_anew content positive anew, count, kept, take_slice, List.nil_append]
    refine ⟨rfl, rfl, ?_, ?_, ?_⟩
    · unfold NpcMemory.log
      dsimp only
      rw [slice_update_of_outside _ _ (by omega), slice_splice]
      congr 1
      omega
    · exact Nat.min_le_right _ _
    · exact Function.update_self _ _ _
  · have kept : base mem.log = mem.log ++ [newline] := by
      unfold base
      rw [if_neg (by rwa [length, empty])]
    have count : fitting mem.log len.toNat = min len.toNat (npcMemoryL2Size - 2 - mem.l2Len) := by
      rw [fitting, kept, List.length_append, length, List.length_singleton]
      omega
    rw [appendL2_behind content positive (by omega) (by omega), count, kept, take_slice]
    refine ⟨rfl, rfl, ?_, ?_, ?_⟩
    · unfold NpcMemory.log
      dsimp only
      rw [slice_update_of_outside _ _ (by omega), slice_add, slice_succ, Nat.zero_add, Nat.zero_add, slice_splice,
        slice_splice_of_disjoint _ _ (by omega), slice_update_of_outside _ _ (by omega),
        splice_outside _ _ (by omega), Function.update_self]
      congr 2
      omega
    · show mem.l2Len + 1 + min len.toNat (npcMemoryL2Size - 2 - mem.l2Len) ≤ npcMemoryL2Size - 1
      omega
    · exact Function.update_self _ _ _

variable {st : Memories} {npcId : Int}

theorem npcId_of_findMemory {i : Fin npcMemoryMax} (found : findMemory st npcId = some i) : (st i).npcId = npcId := by
  simpa using List.find?_some found

/-- A slot with the id is the one that is found. -/
theorem Tidy.found (tidy : Tidy st) (valid : 0 ≤ npcId) {i : Fin npcMemoryMax} (own : (st i).npcId = npcId) :
    findMemory st npcId = some i := by
  cases found : findMemory st npcId with
  | none =>
      have refused := List.find?_eq_none.mp found i (List.mem_finRange i)
      simp [own] at refused
  | some j =>
      have other := npcId_of_findMemory found
      rw [tidy.unique j i (by omega) (by omega)]

theorem findMemory_none (none : findMemory st npcId = none) (i : Fin npcMemoryMax) : (st i).npcId ≠ npcId := by
  have refused := List.find?_eq_none.mp none i (List.mem_finRange i)
  simpa using refused

/-- A slot in use shows its log under its id. -/
theorem Tidy.logsOf_slot (tidy : Tidy st) {i : Fin npcMemoryMax} (used : 0 ≤ (st i).npcId) :
    logsOf st (st i).npcId = some (st i).log := by
  unfold logsOf
  rw [if_neg (by omega), tidy.found used rfl, Option.map_some]

theorem logsOf_eq_none (valid : 0 ≤ npcId) : logsOf st npcId = none ↔ ∀ i, (st i).npcId ≠ npcId := by
  unfold logsOf
  rw [if_neg (by omega), Option.map_eq_none_iff]
  constructor
  · exact findMemory_none
  · intro none
    apply List.find?_eq_none.mpr
    intro i _
    simp [none i]

/-- The ids with a log are those of the slots in use. -/
theorem Tidy.full_iff (tidy : Tidy st) (valid : 0 ≤ npcId) :
    (logsOf st).Full npcId ↔ (∀ i, (st i).npcId ≠ npcId) ∧ ∀ i, 0 ≤ (st i).npcId := by
  have ids : {id | logsOf st id ≠ none} = Set.image (fun i => (st i).npcId) {i | 0 ≤ (st i).npcId} := by
    ext id
    constructor
    · intro present
      by_cases negative : id < 0
      · exact absurd (if_pos negative) present
      · have found : ¬∀ i, (st i).npcId ≠ id := fun none => present ((logsOf_eq_none (by omega)).mpr none)
        push Not at found
        obtain ⟨i, own⟩ := found
        have used : 0 ≤ (st i).npcId := by omega
        exact ⟨i, used, own⟩
    · rintro ⟨i, used, rfl⟩
      simp [tidy.logsOf_slot used]
  have count : {id | logsOf st id ≠ none}.ncard = {i | 0 ≤ (st i).npcId}.ncard := by
    rw [ids]
    apply Set.InjOn.ncard_image
    intro i used j _ same
    exact tidy.unique i j used same
  have bound : {i | 0 ≤ (st i).npcId}.ncard ≤ npcMemoryMax := by
    have size := Set.ncard_le_card {i | 0 ≤ (st i).npcId}
    rwa [Nat.card_eq_fintype_card, Fintype.card_fin] at size
  have whole : npcMemoryMax ≤ {i | 0 ≤ (st i).npcId}.ncard ↔ ∀ i, 0 ≤ (st i).npcId := by
    have all := Set.eq_univ_iff_ncard {i | 0 ≤ (st i).npcId}
    rw [Nat.card_eq_fintype_card, Fintype.card_fin, Set.eq_univ_iff_forall] at all
    constructor
    · intro enough
      exact all.mpr (Nat.le_antisymm bound enough)
    · intro used
      exact (all.mp used).ge
  rw [Logs.Full, logsOf_eq_none valid, count, whole]

/-- A write to a slot shows only under the ids before and after it. -/
theorem logsOf_update_of_ne {i : Fin npcMemoryMax} (mem : NpcMemory) {id : Int} (after : mem.npcId ≠ id ∨ id < 0)
    (before : (st i).npcId ≠ id ∨ id < 0) : logsOf (Function.update st i mem) id = logsOf st id := by
  unfold logsOf
  by_cases negative : id < 0
  · rw [if_pos negative, if_pos negative]
  · have same : findMemory (Function.update st i mem) id = findMemory st id := by
      apply List.find?_congr
      intro j _
      by_cases own : j = i
      · rw [own, Function.update_self, decide_eq_false (after.resolve_right negative),
          decide_eq_false (before.resolve_right negative)]
      · rw [Function.update_of_ne own]
    rw [if_neg negative, if_neg negative, same]
    cases found : findMemory st id with
    | none => rfl
    | some j =>
        have apart : j ≠ i := by
          rintro rfl
          exact before.resolve_right negative (npcId_of_findMemory found)
        rw [Option.map_some, Option.map_some, Function.update_of_ne apart]

/-- A slot that takes a log of an id no other slot has puts it under this id. -/
theorem Tidy.store (tidy : Tidy st) (i : Fin npcMemoryMax) (mem : NpcMemory) (valid : 0 ≤ mem.npcId)
    (terminated : mem.Terminated) (others : ∀ j, j ≠ i → (st j).npcId ≠ mem.npcId)
    (place : (st i).npcId = mem.npcId ∨ (st i).npcId < 0) :
    Tidy (Function.update st i mem) ∧
      logsOf (Function.update st i mem) = Function.update (logsOf st) mem.npcId (some mem.log) := by
  have kept : Tidy (Function.update st i mem) := by
    constructor
    · intro j k used same
      by_cases first : j = i
      · by_cases second : k = i
        · rw [first, second]
        · rw [first, Function.update_self, Function.update_of_ne second] at same
          exact absurd same.symm (others k second)
      · rw [Function.update_of_ne first] at used same
        by_cases second : k = i
        · rw [second, Function.update_self] at same
          exact absurd same (others j first)
        · rw [Function.update_of_ne second] at same
          exact tidy.unique j k used same
    · intro j used
      by_cases own : j = i
      · rw [own, Function.update_self]
        exact terminated
      · rw [Function.update_of_ne own] at used ⊢
        exact tidy.terminated j used
  refine ⟨kept, ?_⟩
  funext id
  by_cases same : id = mem.npcId
  · have slot := kept.logsOf_slot (i := i) (by rwa [Function.update_self])
    rw [Function.update_self] at slot
    rw [same, slot, Function.update_self]
  · rw [Function.update_of_ne same]
    apply logsOf_update_of_ne _ (Or.inl (Ne.symm same))
    omega

/-- A log is as long as a slot allows. -/
theorem Tidy.log_length (tidy : Tidy st) (npcId : Int) : ((logsOf st).log npcId).length ≤ npcMemoryL2Size - 1 := by
  unfold Logs.log logsOf
  split
  · exact Nat.zero_le _
  · rename_i valid
    cases found : findMemory st npcId with
    | none => exact Nat.zero_le _
    | some i =>
        have own := npcId_of_findMemory found
        rw [Option.map_some, Option.getD_some, NpcMemory.log, length_slice]
        exact (tidy.terminated i (by omega)).len

/-- The slot for an id holds its log, or the store is full. -/
theorem Tidy.findOrAlloc (tidy : Tidy st) (valid : 0 ≤ npcId) :
    ((logsOf st).Full npcId ∧ findOrAllocMemory st npcId = (none, st)) ∨
      ¬(logsOf st).Full npcId ∧ ∃ i mem, findOrAllocMemory st npcId = (some i, Function.update st i mem) ∧
        mem.npcId = npcId ∧ mem.log = (logsOf st).log npcId ∧ mem.l2Len ≤ npcMemoryL2Size - 1 ∧
        (∀ j, j ≠ i → (st j).npcId ≠ npcId) ∧ ((st i).npcId = npcId ∨ (st i).npcId < 0) := by
  unfold findOrAllocMemory
  cases found : findMemory st npcId with
  | some i =>
      have own := npcId_of_findMemory found
      have slot := tidy.logsOf_slot (i := i) (by omega)
      rw [own] at slot
      right
      constructor
      · intro full
        rw [Logs.Full, slot] at full
        exact absurd full.1 (by simp)
      · refine ⟨i, st i, ?_, own, ?_, (tidy.terminated i (by omega)).len, ?_, Or.inl own⟩
        · rw [Function.update_eq_self]
        · rw [Logs.log, slot, Option.getD_some]
        · intro j apart same
          exact apart (tidy.unique j i (by omega) (by omega))
  | none =>
      have others := findMemory_none found
      have unseen : logsOf st npcId = none := (logsOf_eq_none valid).mpr others
      cases spare : (List.finRange npcMemoryMax).find? fun i => (st i).npcId < 0 with
      | some i =>
          have free : (st i).npcId < 0 := by simpa using List.find?_some spare
          right
          constructor
          · intro full
            have used := ((tidy.full_iff valid).mp full).2 i
            omega
          · refine ⟨i, { st i with npcId, l2Len := 0 }, rfl, rfl, ?_, Nat.zero_le _, fun j _ => others j, Or.inr free⟩
            rw [Logs.log, unseen]
            rfl
      | none =>
          left
          refine ⟨(tidy.full_iff valid).mpr ⟨others, fun i => ?_⟩, rfl⟩
          have refused := List.find?_eq_none.mp spare i (List.mem_finRange i)
          simpa using refused

/-- A save does to the logs what their own save does. -/
theorem Tidy.save (tidy : Tidy st) (valid : 0 ≤ npcId) (content : Memory) {len : Int} (positive : 0 < len) :
    Tidy (npcMemorySave st npcId (some content) len).2 ∧
      ((npcMemorySave st npcId (some content) len).1, logsOf (npcMemorySave st npcId (some content) len).2) =
        (logsOf st).save npcId (slice content 0 len.toNat) ∧
      ((logsOf st).Full npcId → npcMemorySave st npcId (some content) len = (-1, st)) := by
  have accepted : ¬(npcId < 0 ∨ len ≤ 0) := by omega
  rcases tidy.findOrAlloc valid with ⟨full, refused⟩ | ⟨room, i, mem, found, own, log, short, others, place⟩
  · have result : npcMemorySave st npcId (some content) len = (-1, st) := by
      simp only [npcMemorySave, accepted, if_false, refused]
    rw [result, Logs.save, if_pos full]
    exact ⟨tidy, rfl, fun _ => rfl⟩
  · obtain ⟨count, number, extended, terminated⟩ := appendL2_log content short positive
    have result : npcMemorySave st npcId (some content) len =
        ((appendL2 mem content len).1, Function.update st i (appendL2 mem content len).2) := by
      simp only [npcMemorySave, accepted, if_false, found, Function.update_self, Function.update_idem]
    rw [own] at number
    obtain ⟨kept, logs⟩ := tidy.store i (appendL2 mem content len).2 (by omega) terminated
      (by rwa [number]) (by rwa [number])
    rw [result, Logs.save, if_neg room, logs, count, extended, number, log, length_slice]
    exact ⟨kept, rfl, fun full => absurd full room⟩

/-- A load gives the start of the log with a terminator, and leaves the rest of the buffer alone. -/
theorem Tidy.load (tidy : Tidy st) (valid : 0 ≤ npcId) (buf : Memory) {maxlen : Int} (positive : 0 < maxlen) :
    ∃ after, npcMemoryLoad st npcId (some buf) maxlen = ((((logsOf st).load npcId maxlen.toNat).length : Int), some after) ∧
      slice after 0 ((logsOf st).load npcId maxlen.toNat).length = (logsOf st).load npcId maxlen.toNat ∧
      after ((logsOf st).load npcId maxlen.toNat).length = 0 ∧
      ∀ k, ((logsOf st).load npcId maxlen.toNat).length < k → after k = buf k := by
  have accepted : ¬(npcId < 0 ∨ maxlen ≤ 0) := by omega
  unfold npcMemoryLoad
  simp only [accepted, if_false]
  cases found : findMemory st npcId with
  | none =>
      have empty : (logsOf st).load npcId maxlen.toNat = [] := by
        rw [Logs.load, Logs.log, (logsOf_eq_none valid).mpr (findMemory_none found)]
        exact List.take_nil
      rw [empty]
      exact ⟨_, rfl, rfl, Function.update_self _ _ _, fun k above => Function.update_of_ne (by simp at above; omega) _ _⟩
  | some i =>
      have own := npcId_of_findMemory found
      have slot := tidy.logsOf_slot (i := i) (by omega)
      rw [own] at slot
      have loaded : (logsOf st).load npcId maxlen.toNat =
          slice (st i).l2Memory 0 (min (maxlen.toNat - 1) (st i).l2Len) := by
        rw [Logs.load, Logs.log, slot, Option.getD_some, NpcMemory.log, take_slice]
      have count : (if ((st i).l2Len : Int) < maxlen - 1 then ((st i).l2Len : Int) else maxlen - 1) =
          (min (maxlen.toNat - 1) (st i).l2Len : Nat) := by
        split <;> omega
      rw [loaded, length_slice]
      simp only [count, Int.toNat_natCast]
      refine ⟨_, rfl, ?_, Function.update_self _ _ _, ?_⟩
      · rw [slice_update_of_outside _ _ (by omega), slice_splice]
      · intro k above
        rw [Function.update_of_ne (by omega), splice_outside _ _ (by omega)]

/-- The user gets the start of the log and a terminator, whatever was on the kernel stack. -/
theorem Tidy.sysLoad (tidy : Tidy st) (valid : 0 ≤ npcId) (buf : Memory) (maxlen : Int) :
    let limit := if maxlen ≤ 0 ∨ npcMemoryL2Size < maxlen then npcMemoryL2Size else maxlen.toNat
    sysNpcMemoryLoad st npcId buf maxlen true =
      ((((logsOf st).load npcId limit).length : Int), (logsOf st).load npcId limit ++ [0]) := by
  intro limit
  have size : npcMemoryL2Size = 2048 := rfl
  have clamped : (if maxlen ≤ 0 ∨ npcMemoryL2Size < maxlen then (npcMemoryL2Size : Int) else maxlen) = limit := by
    by_cases outside : maxlen ≤ 0 ∨ (npcMemoryL2Size : Int) < maxlen
    · simp only [limit, outside, if_true]
    · simp only [limit, outside, if_false]
      omega
  have positive : (0 : Int) < limit := by
    rw [← clamped]
    split <;> omega
  obtain ⟨after, loaded, bytes, null, _⟩ := tidy.load valid buf positive
  rw [Int.toNat_natCast] at loaded bytes null
  unfold sysNpcMemoryLoad
  simp only [clamped, loaded]
  rw [if_neg (by omega), if_neg (by decide)]
  split
  · rw [Option.getD_some, Int.toNat_natCast, slice_succ, bytes, Nat.zero_add, null]
  · rename_i nothing
    have empty : (logsOf st).load npcId limit = [] := List.length_eq_zero_iff.mp (by omega)
    rw [empty]
    rfl

/-- A clear does to the logs what their own clear does. -/
theorem Tidy.clear (tidy : Tidy st) (valid : 0 ≤ npcId) :
    Tidy (npcMemoryClear st npcId).2 ∧
      ((npcMemoryClear st npcId).1, logsOf (npcMemoryClear st npcId).2) = (logsOf st).clear npcId := by
  cases found : findMemory st npcId with
  | none =>
      simp only [npcMemoryClear, found]
      rw [Logs.clear, if_pos ((logsOf_eq_none valid).mpr (findMemory_none found))]
      exact ⟨tidy, rfl⟩
  | some i =>
      have own := npcId_of_findMemory found
      have slot := tidy.logsOf_slot (i := i) (by omega)
      rw [own] at slot
      simp only [npcMemoryClear, found]
      rw [Logs.clear, if_neg (by simp [slot])]
      have others (j : Fin npcMemoryMax) (used : 0 ≤ (Function.update st i { st i with npcId := -1, l2Len := 0 } j).npcId) :
          j ≠ i ∧ Function.update st i { st i with npcId := -1, l2Len := 0 } j = st j := by
        have apart : j ≠ i := by
          rintro rfl
          simp at used
        exact ⟨apart, Function.update_of_ne apart _ _⟩
      refine ⟨⟨fun j k used same => ?_, fun j used => ?_⟩, Prod.ext rfl (funext fun id => ?_)⟩
      · have first := (others j used).2
        have second := (others k (by rwa [← same])).2
        rw [first] at used same
        rw [second] at same
        exact tidy.unique j k used same
      · have kept := (others j used).2
        rw [kept] at used ⊢
        exact tidy.terminated j used
      · dsimp only
        by_cases same : id = npcId
        · rw [same, Function.update_self, logsOf_eq_none valid]
          intro j holds
          obtain ⟨apart, kept⟩ := others j (valid.trans_eq holds.symm)
          rw [kept] at holds
          exact apart (tidy.unique j i (by omega) (by omega))
        · rw [Function.update_of_ne same]
          apply logsOf_update_of_ne
          · show -1 ≠ id ∨ id < 0
            omega
          · left
            rw [own]
            exact Ne.symm same

/-- A save without room for its id or with a length of 0 or less changes nothing. -/
theorem save_refused (st : Memories) (npcId : Int) (content : Option Memory) {len : Int}
    (refused : content = none ∨ npcId < 0 ∨ len ≤ 0) : npcMemorySave st npcId content len = (-1, st) := by
  cases content with
  | none => rfl
  | some content =>
      have refused : npcId < 0 ∨ len ≤ 0 := by simpa using refused
      simp only [npcMemorySave, refused, if_true]

/-- A system call that passes its checks saves the copied bytes. -/
theorem sysSave_eq (st : Memories) (npcId : Int) (content : Option Memory) (len : Int) :
    sysNpcMemorySave st npcId content len = (-1, st) ∨
      ∃ copied, sysNpcMemorySave st npcId content len = npcMemorySave st npcId (some copied) len ∧
        ∃ bytes, content = some bytes ∧ slice copied 0 len.toNat = slice bytes 0 len.toNat := by
  unfold sysNpcMemorySave
  split
  · exact Or.inl rfl
  · cases content with
    | none => exact Or.inl rfl
    | some bytes =>
        right
        exact ⟨_, rfl, bytes, rfl, slice_update_of_outside bytes 0 (by omega)⟩

/-- A save of any content and length keeps the store tidy. -/
theorem Tidy.save_any (tidy : Tidy st) (npcId : Int) (content : Option Memory) (len : Int) :
    Tidy (npcMemorySave st npcId content len).2 := by
  by_cases refused : content = none ∨ npcId < 0 ∨ len ≤ 0
  · rw [save_refused st npcId content refused]
    exact tidy
  · push Not at refused
    obtain ⟨present, valid, positive⟩ := refused
    obtain ⟨bytes, rfl⟩ := Option.ne_none_iff_exists'.mp present
    exact (tidy.save valid bytes positive).1

theorem step_tidy {after : Memories} {action : MemoryAction} {results : List Int} (tidy : Tidy st)
    (valid : 0 ≤ action.npcId) (stepped : memoryStep st action = some (after, results)) : Tidy after := by
  cases action with
  | save npcId content len =>
      simp only [memoryStep, Option.some.injEq, Prod.mk.injEq] at stepped
      rw [← stepped.1]
      exact tidy.save_any npcId content len
  | sysSave npcId content len =>
      simp only [memoryStep, Option.some.injEq, Prod.mk.injEq] at stepped
      rw [← stepped.1]
      rcases sysSave_eq st npcId content len with refused | ⟨copied, saved, _⟩
      · rw [refused]
        exact tidy
      · rw [saved]
        exact tidy.save_any npcId (some copied) len
  | clear npcId =>
      simp only [memoryStep, Option.some.injEq, Prod.mk.injEq] at stepped
      rw [← stepped.1]
      exact (tidy.clear valid).1

/-- The store after `npc_memory_init`. -/
def Initialised (st : Memories) : Prop := ∃ before, st = npcMemoryInit before

theorem initialised_tidy (begun : Initialised st) : Tidy st ∧ logsOf st = fun _ => none := by
  obtain ⟨before, rfl⟩ := begun
  refine ⟨⟨fun i j used => ?_, fun i used => ?_⟩, ?_⟩
  · simp [npcMemoryInit] at used
  · simp [npcMemoryInit] at used
  · funext id
    by_cases negative : id < 0
    · exact if_pos negative
    · rw [logsOf_eq_none (by omega)]
      intro i own
      simp only [npcMemoryInit] at own
      omega

/-- The calls on one id leave the logs of the others alone. -/
theorem Logs.kept (logs : Logs) {npcId other : Int} (apart : other ≠ npcId) (content : List Byte) :
    (logs.save npcId content).2 other = logs other ∧ (logs.clear npcId).2 other = logs other := by
  constructor
  · unfold Logs.save
    split
    · rfl
    · exact Function.update_of_ne apart _ _
  · unfold Logs.clear
    split
    · rfl
    · exact Function.update_of_ne apart _ _

/-- After every run of calls, no id has two slots, each slot in use holds a terminated log of at most 2047 bytes, and
saves, loads and clears do to the logs what their abstract calls do: a save without a slot changes nothing, another one
puts the largest number of bytes that fits behind what it keeps, and no call changes the log of another id. -/
theorem memory_logs {trace : List Int}
    (reached : Reaches memoryStep (fun _ _ action => 0 ≤ action.npcId) Initialised st trace) :
    (∀ i j, 0 ≤ (st i).npcId → (st i).npcId = (st j).npcId → i = j) ∧
      (∀ i, 0 ≤ (st i).npcId → (st i).l2Len ≤ npcMemoryL2Size - 1 ∧ (st i).l2Memory (st i).l2Len = 0) ∧
      ∀ npcId : Int, 0 ≤ npcId →
        (∀ content len, 0 < len →
          ((npcMemorySave st npcId (some content) len).1, logsOf (npcMemorySave st npcId (some content) len).2) =
              (logsOf st).save npcId (slice content 0 len.toNat) ∧
            ((logsOf st).Full npcId → npcMemorySave st npcId (some content) len = (-1, st)) ∧
            IsGreatest {count | count ≤ len.toNat ∧
                (base ((logsOf st).log npcId)).length + count ≤ npcMemoryL2Size - 1}
              (fitting ((logsOf st).log npcId) len.toNat) ∧
            ∀ other, other ≠ npcId → logsOf (npcMemorySave st npcId (some content) len).2 other = logsOf st other) ∧
        (∀ buf maxlen, 0 < maxlen →
          ∃ after, npcMemoryLoad st npcId (some buf) maxlen =
              ((((logsOf st).load npcId maxlen.toNat).length : Int), some after) ∧
            slice after 0 ((logsOf st).load npcId maxlen.toNat).length = (logsOf st).load npcId maxlen.toNat ∧
            after ((logsOf st).load npcId maxlen.toNat).length = 0) ∧
        ((npcMemoryClear st npcId).1, logsOf (npcMemoryClear st npcId).2) = (logsOf st).clear npcId ∧
        ∀ other, other ≠ npcId → logsOf (npcMemoryClear st npcId).2 other = logsOf st other := by
  have tidy : Tidy st := by
    apply reached.invariant (fun st _ => Tidy st)
    · intro st begun
      exact (initialised_tidy begun).1
    · intro st trace action after results tidy valid stepped
      exact step_tidy tidy valid stepped
  refine ⟨tidy.unique, fun i used => ⟨(tidy.terminated i used).len, (tidy.terminated i used).null⟩, ?_⟩
  intro npcId valid
  refine ⟨fun content len positive => ?_, fun buf maxlen positive => ?_, (tidy.clear valid).2, fun other apart => ?_⟩
  · obtain ⟨_, same, refused⟩ := tidy.save valid content positive
    refine ⟨same, refused, fitting_greatest _ _ (tidy.log_length npcId), fun other apart => ?_⟩
    have logs := (Prod.ext_iff.mp same).2
    simp only at logs
    rw [logs]
    exact ((logsOf st).kept apart _).1
  · obtain ⟨after, loaded, bytes, null, _⟩ := tidy.load valid buf positive
    exact ⟨after, loaded, bytes, null⟩
  · have logs := (Prod.ext_iff.mp (tidy.clear valid).2).2
    simp only at logs
    rw [logs]
    exact ((logsOf st).kept apart []).2

/-- A log that is one byte short of full takes a line feed only, and the next save starts anew. -/
theorem memory_logs_run : ∃ st trace,
    Reaches memoryStep (fun _ _ action => 0 ≤ action.npcId) Initialised st trace ∧ trace = [2046, 0, 5] ∧
      ((npcMemorySave st 3 (some fun _ => 65) 5).1, logsOf (npcMemorySave st 3 (some fun _ => 65) 5).2) =
        (logsOf st).save 3 (slice (fun _ => 65) 0 5) := by
  obtain ⟨st, trace, reached, test⟩ := replay_witness memoryStep (fun _ _ action => 0 ≤ action.npcId) Initialised
    [.save 3 (some fun _ => 65) 2046, .save 3 (some fun _ => 66) 9, .save 3 (some fun _ => 67) 5]
    (npcMemoryInit fun _ => { npcId := 0, l2Memory := fun _ => 0, l2Len := 0 }) ⟨_, rfl⟩
    (fun _ trace => decide (trace = [2046, 0, 5])) (by decide +kernel)
  have saved := ((memory_logs reached).2.2 3 (by decide)).1 (fun _ => 65) 5 (by decide)
  exact ⟨st, trace, reached, of_decide_eq_true test, saved.1⟩

end BtbuOs.Npc
