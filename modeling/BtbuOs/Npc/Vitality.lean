import BtbuOs.Npc.AiSched

namespace BtbuOs.Npc

open Machine
open Sched (Slot nproc)

/-- The priority after a tick for an NPC of this priority that has received these bytes; -1 is death. -/
def vitality (prio : Int) (bytes : Nat) : Int :=
  let next := min npcPrioMax (prio - npcDecayRate + (bytes / npcIpcRewardBytes : Nat))
  if 0 < next then next else -1

/-- The points for the bytes fit an `int` together with the priority, or what is left of them after the narrowing
still reaches the limit and fits. -/
def Fits (prio : Int) (bytes : Nat) : Prop :=
  prio + (bytes / npcIpcRewardBytes : Nat) ≤ 2 ^ 31 ∨
    (npcPrioMax < prio + (bytes / npcIpcRewardBytes % 2 ^ 32 : Nat) ∧
      prio + (bytes / npcIpcRewardBytes % 2 ^ 32 : Nat) ≤ 2 ^ 31)

instance (prio : Int) (bytes : Nat) : Decidable (Fits prio bytes) := inferInstanceAs (Decidable (_ ∨ _))

/-- More bytes never lower the priority that the law gives. -/
theorem vitality_mono (prio : Int) {fewer more : Nat} (le : fewer ≤ more) : vitality prio fewer ≤ vitality prio more := by
  have points : fewer / npcIpcRewardBytes ≤ more / npcIpcRewardBytes := Nat.div_le_div_right le
  unfold vitality npcPrioMax
  dsimp only
  split <;> split <;> omega

theorem int32_of_fits {value : Int} (low : -2 ^ 31 ≤ value) (high : value < 2 ^ 31) : int32 value = value := by
  unfold int32
  apply Int.bmod_eq_of_le
  · omega
  · omega

theorem int32_of_high {value : Int} (low : 2 ^ 31 ≤ value) (high : value < 2 ^ 32) : int32 value = value - 2 ^ 32 := by
  have shifted : int32 (value - 2 ^ 32) = value - 2 ^ 32 := int32_of_fits (by omega) (by omega)
  rw [← shifted]
  unfold int32
  have same := Int.sub_bmod_right value (2 ^ 32)
  exact same.symm

/-- The narrowing keeps the low 32 bits of the points. -/
theorem reward_eq (bytes : Nat) : reward (bytes % 2 ^ 64) = int32 (bytes / npcIpcRewardBytes % 2 ^ 32 : Nat) := by
  have low : bytes % 2 ^ 64 / npcIpcRewardBytes % 2 ^ 32 = bytes / npcIpcRewardBytes % 2 ^ 32 := by
    unfold npcIpcRewardBytes
    omega
  rw [← low]
  unfold reward int32
  rw [Int.natCast_mod]
  exact (Int.emod_bmod _ _).symm

/-- The priority that the loop body leaves. -/
theorem settleNpc_dynamicPrio (p : Vitals) (low : 1 ≤ p.dynamicPrio) (high : p.dynamicPrio ≤ npcPrioMax) :
    (settleNpc p).dynamicPrio =
      let next := int32 (p.dynamicPrio - npcDecayRate + max 0 (reward p.ipcRxBytes))
      if npcPrioMax < next then npcPrioMax else if next ≤ npcDeathThreshold then -1 else next := by
  have decayed : int32 (p.dynamicPrio - npcDecayRate) = p.dynamicPrio - npcDecayRate := by
    unfold npcPrioMax at high
    unfold npcDecayRate
    exact int32_of_fits (by omega) (by omega)
  have quiet : p.ipcRxBytes = 0 → reward p.ipcRxBytes = 0 := by
    intro none
    rw [none]
    decide
  unfold settleNpc
  simp only [decayed]
  by_cases some : 0 < p.ipcRxBytes
  · by_cases earned : 0 < reward p.ipcRxBytes
    · rw [max_eq_right (by omega)]
      simp only [some, earned, if_true]
      split <;> split <;> simp_all [npcPrioMax, npcDeathThreshold]
    · rw [max_eq_left (by omega), Int.add_zero, decayed]
      simp only [some, earned, if_true, if_false]
      split <;> split <;> simp_all [npcPrioMax, npcDeathThreshold]
  · rw [quiet (by omega), max_self, Int.add_zero, decayed]
    simp only [some, if_false]
    split <;> split <;> simp_all [npcPrioMax, npcDeathThreshold]

/-- The loop body follows the law exactly when the points fit. -/
theorem settleNpc_vitality (p : Vitals) {bytes : Nat} (low : 1 ≤ p.dynamicPrio) (high : p.dynamicPrio ≤ npcPrioMax)
    (counted : p.ipcRxBytes = bytes % 2 ^ 64) :
    (settleNpc p).dynamicPrio = vitality p.dynamicPrio bytes ↔ Fits p.dynamicPrio bytes := by
  rw [settleNpc_dynamicPrio p low high, counted, reward_eq]
  unfold vitality Fits
  generalize bytes / npcIpcRewardBytes = points at *
  have bound : points % 2 ^ 32 < 2 ^ 32 := Nat.mod_lt _ (by decide)
  unfold npcPrioMax at *
  unfold npcDecayRate npcDeathThreshold
  by_cases positive : points % 2 ^ 32 < 2 ^ 31
  · have narrow : int32 (points % 2 ^ 32 : Nat) = (points % 2 ^ 32 : Nat) := int32_of_fits (by omega) (by omega)
    rw [narrow, max_eq_right (by omega)]
    by_cases fits : p.dynamicPrio + (points % 2 ^ 32 : Nat) ≤ 2 ^ 31
    · have sum : int32 (p.dynamicPrio - 1 + (points % 2 ^ 32 : Nat)) = p.dynamicPrio - 1 + (points % 2 ^ 32 : Nat) :=
        int32_of_fits (by omega) (by omega)
      rw [sum]
      dsimp only
      split <;> split <;> (try split) <;> omega
    · have sum : int32 (p.dynamicPrio - 1 + (points % 2 ^ 32 : Nat)) =
          p.dynamicPrio - 1 + (points % 2 ^ 32 : Nat) - 2 ^ 32 := int32_of_high (by omega) (by omega)
      rw [sum]
      dsimp only
      split <;> split <;> (try split) <;> omega
  · have narrow : int32 (points % 2 ^ 32 : Nat) = (points % 2 ^ 32 : Nat) - 2 ^ 32 := int32_of_high (by omega) (by omega)
    have sum : int32 (p.dynamicPrio - 1) = p.dynamicPrio - 1 := int32_of_fits (by omega) (by omega)
    rw [narrow, max_eq_left (by omega), Int.add_zero, sum]
    dsimp only
    split <;> split <;> (try split) <;> omega

/-- The limit and the death check change only the priority. -/
theorem limit_kept (p : Vitals) :
    let limited := if npcPrioMax < p.dynamicPrio then { p with dynamicPrio := npcPrioMax } else p
    let checked := if limited.dynamicPrio ≤ npcDeathThreshold then { limited with dynamicPrio := -1 } else limited
    checked.npcId = p.npcId ∧ checked.ipcRxBytes = p.ipcRxBytes ∧
      (checked.dynamicPrio = -1 ∨ 1 ≤ checked.dynamicPrio ∧ checked.dynamicPrio ≤ npcPrioMax) := by
  unfold npcPrioMax npcDeathThreshold
  dsimp only
  by_cases exceeds : 100 < p.dynamicPrio
  · simp [exceeds]
  · by_cases dies : p.dynamicPrio ≤ 0
    · simp [exceeds, dies]
    · simp only [exceeds, dies, if_false, true_and]
      omega

/-- A settled NPC keeps its number, has no bytes left, and is dead or has a priority from 1 to the limit. -/
theorem settleNpc_kept (p : Vitals) : (settleNpc p).npcId = p.npcId ∧ (settleNpc p).ipcRxBytes = 0 ∧
    ((settleNpc p).dynamicPrio = -1 ∨ 1 ≤ (settleNpc p).dynamicPrio ∧ (settleNpc p).dynamicPrio ≤ npcPrioMax) := by
  unfold settleNpc
  dsimp only
  by_cases some : 0 < p.ipcRxBytes
  · rw [if_pos some]
    exact limit_kept _
  · have none : p.ipcRxBytes = 0 := by omega
    rw [if_neg some]
    obtain ⟨number, bytes, range⟩ := limit_kept { p with dynamicPrio := int32 (p.dynamicPrio - npcDecayRate) }
    exact ⟨number, bytes.trans none, range⟩

theorem aiSchedTick_isNpc (w : World) (s : Slot) : (aiSchedTick w).IsNpc s ↔ w.IsNpc s := by
  have same : ((aiSchedTick w).npc s).npcId = (w.npc s).npcId := by
    rw [aiSchedTick_npc]
    split
    · exact (settleNpc_kept _).1
    · rfl
  rw [World.IsNpc, same, aiSchedTick_kernel, World.IsNpc]

/-- The bytes go to the only NPC with this pid. -/
theorem aiSchedAddIpc_npc {w : World} (numbered : Numbered w.kernel) (pid : Int) (bytes : Nat) (s : Slot) :
    (aiSchedAddIpc w pid bytes).npc s = if w.IsNpc s ∧ (w.kernel.pool s).pid = pid then
      { w.npc s with ipcRxBytes := ((w.npc s).ipcRxBytes + bytes) % 2 ^ 64 } else w.npc s := by
  unfold aiSchedAddIpc
  split
  · rename_i none
    rw [if_neg]
    intro chosen
    have refused := List.find?_eq_none.mp none s (List.mem_finRange s)
    simp [chosen.1.1, chosen.1.2, chosen.2] at refused
  · rename_i r found
    have chosen := List.find?_some found
    simp only [Bool.and_eq_true, decide_eq_true_eq, beq_iff_eq] at chosen
    obtain ⟨⟨used, same⟩, npc⟩ := chosen
    by_cases own : s = r
    · subst own
      rw [if_pos ⟨⟨used, npc⟩, same⟩]
      exact Function.update_self _ _ _
    · rw [if_neg]
      · exact Function.update_of_ne own _ _
      · intro both
        have equal : (w.kernel.pool s).pid = (w.kernel.pool r).pid := by omega
        exact own (numbered.distinct s r (by simp [both.1.1]) (by simp [used]) equal)

theorem aiSchedAddIpc_kernel (w : World) (pid : Int) (bytes : Nat) : (aiSchedAddIpc w pid bytes).kernel = w.kernel := by
  unfold aiSchedAddIpc
  split <;> rfl

theorem aiSchedAddIpc_isNpc {w : World} (numbered : Numbered w.kernel) (pid : Int) (bytes : Nat) (s : Slot) :
    (aiSchedAddIpc w pid bytes).IsNpc s ↔ w.IsNpc s := by
  have same : ((aiSchedAddIpc w pid bytes).npc s).npcId = (w.npc s).npcId := by
    rw [aiSchedAddIpc_npc numbered]
    split <;> rfl
  rw [World.IsNpc, same, aiSchedAddIpc_kernel, World.IsNpc]

theorem aiSchedAddIpc_dynamicPrio {w : World} (numbered : Numbered w.kernel) (pid : Int) (bytes : Nat) (s : Slot) :
    ((aiSchedAddIpc w pid bytes).npc s).dynamicPrio = (w.npc s).dynamicPrio := by
  rw [aiSchedAddIpc_npc numbered]
  split <;> rfl

/-- Each NPC is dead or has a priority from 1 to the limit. -/
structure Ranged (w : World) : Prop where
  numbered : Numbered w.kernel
  range : ∀ s, w.IsNpc s → (w.npc s).dynamicPrio = -1 ∨
    1 ≤ (w.npc s).dynamicPrio ∧ (w.npc s).dynamicPrio ≤ npcPrioMax

variable {w : World}

/-- No process is an NPC at the start. -/
theorem freshWorld_isNpc (s : Slot) : ¬freshWorld.IsNpc s := by
  intro npc
  by_cases first : s = 0
  · simp [World.IsNpc, freshWorld, first] at npc
  · simp [World.IsNpc, freshWorld, Sched.freshKernel, first] at npc

theorem freshWorld_ranged : Ranged freshWorld := by
  constructor
  · exact freshKernel_numbered
  · intro s npc
    exact absurd npc (freshWorld_isNpc s)

theorem Ranged.tick (ranged : Ranged w) : Ranged (aiSchedTick w) := by
  constructor
  · exact ranged.numbered
  · intro s npc
    have before := (aiSchedTick_isNpc _ s).mp npc
    rw [aiSchedTick_npc]
    split
    · exact (settleNpc_kept _).2.2
    · exact ranged.range s before

theorem Ranged.sched (ranged : Ranged w) {action : Sched.Action} {after : World} {events : List Event}
    (stepped : schedStep w action = some (after, events)) : Ranged after := by
  constructor
  · unfold schedStep at stepped
    rw [Option.map_eq_some_iff] at stepped
    obtain ⟨⟨kernel, listed⟩, moved, result⟩ := stepped
    simp only [Prod.mk.injEq] at result
    rw [← result.1]
    exact step_numbered ranged.numbered moved
  · intro s npc
    have before := ((schedStep_kept stepped s).1.mp npc).1
    rw [(schedStep_kept stepped s).2 before]
    exact ranged.range s before

theorem Ranged.register (ranged : Ranged w) (s : Slot) (npcId : Int) : Ranged (aiSchedRegister w s npcId).1 := by
  unfold aiSchedRegister
  split
  · exact ranged
  · constructor
    · exact ranged.numbered
    · intro r npc
      by_cases own : r = s
      · subst own
        simp [World.setNpc, npcInitPrio, npcPrioMax]
      · simp only [World.IsNpc, World.setNpc, Function.update_of_ne own] at npc ⊢
        exact ranged.range r npc

theorem Ranged.addIpc (ranged : Ranged w) (pid : Int) (bytes : Nat) : Ranged (aiSchedAddIpc w pid bytes) := by
  constructor
  · rw [aiSchedAddIpc_kernel]
    exact ranged.numbered
  · intro s npc
    rw [aiSchedAddIpc_dynamicPrio ranged.numbered]
    exact ranged.range s ((aiSchedAddIpc_isNpc ranged.numbered _ _ s).mp npc)

/-- What a step does to the world: one lemma for each operation covers it. -/
theorem step_cases {after : World} {action : Action} {events : List Event} (stepped : step w action = some (after, events)) :
    (∃ inner, action = .sched inner ∧ schedStep w inner = some (after, events)) ∨
      (∃ s npcId, action = .npcRegister npcId ∧ w.running = some s ∧ after = (aiSchedRegister w s npcId).1) ∨
      (∃ maxPage, action = .npcStatus maxPage ∧ after = w) ∨
      (action = .npcYield ∧ schedStep (aiSchedTick w) .yield = some (after, events)) ∨
      (∃ targetPid bytes, action = .npcIpcNotify targetPid bytes ∧ after = aiSchedAddIpc w targetPid (uint64 bytes)) := by
  cases action with
  | sched inner => exact Or.inl ⟨inner, rfl, stepped⟩
  | npcRegister npcId =>
      obtain ⟨s, running, result⟩ := Option.map_eq_some_iff.mp stepped
      exact Or.inr (Or.inl ⟨s, npcId, rfl, running, (Prod.ext_iff.mp result).1.symm⟩)
  | npcStatus maxPage =>
      obtain ⟨s, running, result⟩ := Option.map_eq_some_iff.mp stepped
      exact Or.inr (Or.inr (Or.inl ⟨maxPage, rfl, (Prod.ext_iff.mp result).1.symm⟩))
  | npcYield =>
      obtain ⟨s, running, result⟩ := Option.bind_eq_some_iff.mp stepped
      exact Or.inr (Or.inr (Or.inr (Or.inl ⟨rfl, result⟩)))
  | npcIpcNotify targetPid bytes =>
      obtain ⟨s, running, result⟩ := Option.map_eq_some_iff.mp stepped
      exact Or.inr (Or.inr (Or.inr (Or.inr ⟨targetPid, bytes, rfl, (Prod.ext_iff.mp result).1.symm⟩)))

theorem step_ranged {after : World} {action : Action} {events : List Event} (ranged : Ranged w)
    (stepped : step w action = some (after, events)) : Ranged after := by
  rcases step_cases stepped with ⟨inner, -, moved⟩ | ⟨s, npcId, -, -, rfl⟩ | ⟨_, -, rfl⟩ | ⟨-, moved⟩ | ⟨pid, bytes, -, rfl⟩
  · exact ranged.sched moved
  · exact ranged.register s npcId
  · exact ranged
  · exact ranged.tick.sched moved
  · exact ranged.addIpc pid (uint64 bytes)

/-- The world with the bytes that each slot was notified of since its last tick or registration. -/
structure Ledger where
  world : World
  received : Slot → Nat

namespace Ledger

/-- The bytes received after an action. -/
def entries (l : Ledger) : Action → Slot → Nat
  | .npcYield => fun _ => 0
  | .npcRegister npcId => fun s => if l.world.running = some s ∧ 0 ≤ npcId ∧ npcId < npcMaxCount then 0 else l.received s
  | .npcIpcNotify targetPid bytes => fun s =>
      if l.world.IsNpc s ∧ (l.world.kernel.pool s).pid = targetPid then l.received s + bytes.toNat else l.received s
  | _ => l.received

def step (l : Ledger) (action : Action) : Option (Ledger × List Event) :=
  (Npc.step l.world action).map fun (world, events) => ({ world, received := l.entries action }, events)

def Initial (l : Ledger) : Prop := l.world = freshWorld ∧ l.received = fun _ => 0

/-- The byte counts of notifications are not negative. -/
def Counts : Action → Prop
  | .npcIpcNotify _ bytes => 0 ≤ bytes
  | _ => True

instance : (action : Action) → Decidable (Counts action)
  | .npcIpcNotify _ bytes => inferInstanceAs (Decidable (0 ≤ bytes))
  | .sched _ | .npcRegister _ | .npcStatus _ | .npcYield => inferInstanceAs (Decidable True)

/-- The NPCs are within the limits, and the kernel counts the bytes of the living modulo 2^64. -/
structure Sane (l : Ledger) : Prop where
  ranged : Ranged l.world
  counted : ∀ s, l.world.Live s → (l.world.npc s).ipcRxBytes = l.received s % 2 ^ 64

variable {l : Ledger}

theorem initial_sane (begun : Initial l) : Sane l := by
  obtain ⟨fresh, none⟩ := begun
  constructor
  · rw [fresh]
    exact freshWorld_ranged
  · intro s live
    rw [fresh] at live
    exact absurd live.1 (freshWorld_isNpc s)

/-- A tick empties the counters of the living. -/
theorem aiSchedTick_ipcRxBytes {w : World} {s : Slot} (live : (aiSchedTick w).Live s) :
    ((aiSchedTick w).npc s).ipcRxBytes = 0 := by
  have before := (aiSchedTick_isNpc _ s).mp live.1
  have positive := live.2
  rw [aiSchedTick_npc] at positive ⊢
  split
  · exact (settleNpc_kept _).2.1
  · rename_i dead
    rw [if_neg dead] at positive
    exact absurd ⟨before, positive.le⟩ dead

/-- A step that notifies of counts that are not negative keeps the books. -/
theorem step_sane {after : Ledger} {action : Action} {events : List Event} (sane : Sane l) (counts : Counts action)
    (stepped : l.step action = some (after, events)) : Sane after := by
  unfold step at stepped
  rw [Option.map_eq_some_iff] at stepped
  obtain ⟨⟨world, listed⟩, moved, result⟩ := stepped
  simp only [Prod.mk.injEq] at result
  obtain ⟨rfl, rfl⟩ := result
  refine ⟨step_ranged sane.ranged moved, fun s live => ?_⟩
  rcases step_cases moved with ⟨inner, rfl, taken⟩ | ⟨r, npcId, rfl, running, rfl⟩ | ⟨_, rfl, rfl⟩ | ⟨rfl, taken⟩ |
    ⟨targetPid, bytes, rfl, rfl⟩
  · have before := ((schedStep_kept taken s).1.mp live.1).1
    have positive := live.2
    simp only [(schedStep_kept taken s).2 before] at positive ⊢
    exact sane.counted s ⟨before, positive⟩
  · simp only [entries, running, Option.some.injEq]
    unfold aiSchedRegister at live ⊢
    split
    · rename_i refused
      rw [if_pos refused] at live
      rw [if_neg (by omega)]
      exact sane.counted s live
    · rename_i valid
      rw [if_neg valid] at live
      by_cases own : s = r
      · subst own
        rw [if_pos ⟨rfl, by omega⟩]
        simp [World.setNpc]
      · rw [if_neg fun chosen => own chosen.1.symm]
        simp only [World.Live, World.IsNpc, World.setNpc, Function.update_of_ne own] at live ⊢
        exact sane.counted s live
  · exact sane.counted s live
  · have before := ((schedStep_kept taken s).1.mp live.1).1
    have positive := live.2
    simp only [(schedStep_kept taken s).2 before] at positive ⊢
    exact aiSchedTick_ipcRxBytes ⟨before, positive⟩
  · have npc := (aiSchedAddIpc_isNpc sane.ranged.numbered _ _ s).mp live.1
    have alive := live.2
    simp only [aiSchedAddIpc_dynamicPrio sane.ranged.numbered] at alive
    have counted := sane.counted s ⟨npc, alive⟩
    have positive : 0 ≤ bytes := counts
    simp only [aiSchedAddIpc_npc sane.ranged.numbered, entries]
    split
    · simp only [counted, uint64]
      omega
    · exact counted

/-- A dead NPC stays dead until it registers. -/
theorem step_dead {w after : World} {action : Action} {events : List Event} (numbered : Numbered w.kernel)
    (stepped : Npc.step w action = some (after, events)) {s : Slot} (npc : w.IsNpc s)
    (dead : (w.npc s).dynamicPrio = -1) (silent : ¬Registers w s action) : (after.npc s).dynamicPrio = -1 := by
  rcases step_cases stepped with ⟨inner, rfl, taken⟩ | ⟨r, npcId, rfl, running, rfl⟩ | ⟨_, rfl, rfl⟩ | ⟨rfl, taken⟩ |
    ⟨targetPid, bytes, rfl, rfl⟩
  · rw [(schedStep_kept taken s).2 npc]
    exact dead
  · unfold aiSchedRegister
    split
    · exact dead
    · rename_i valid
      have apart : s ≠ r := by
        rintro rfl
        exact silent ⟨running, by omega, by omega⟩
      simp only [World.setNpc, Function.update_of_ne apart]
      exact dead
  · exact dead
  · rw [(schedStep_kept taken s).2 ((aiSchedTick_isNpc _ s).mpr npc), aiSchedTick_npc, if_neg (by omega)]
    exact dead
  · rw [aiSchedAddIpc_dynamicPrio numbered]
    exact dead

/-- In every run with counts that are not negative, an NPC is dead or within the limits, a tick follows the law exactly
when the points fit, more bytes that fit never lower the priority, and a dead NPC stays dead until it registers. -/
theorem vitality_law {trace : List Event} (reached : Reaches step (fun _ _ action => Counts action) Initial l trace)
    (s : Slot) (npc : l.world.IsNpc s) :
    ((l.world.npc s).dynamicPrio = -1 ∨ 1 ≤ (l.world.npc s).dynamicPrio ∧ (l.world.npc s).dynamicPrio ≤ npcPrioMax) ∧
      (1 ≤ (l.world.npc s).dynamicPrio →
        (((aiSchedTick l.world).npc s).dynamicPrio = vitality (l.world.npc s).dynamicPrio (l.received s) ↔
          Fits (l.world.npc s).dynamicPrio (l.received s))) ∧
      (1 ≤ (l.world.npc s).dynamicPrio → Fits (l.world.npc s).dynamicPrio (l.received s) → ∀ fewer ≤ l.received s,
        Fits (l.world.npc s).dynamicPrio fewer →
        (settleNpc { l.world.npc s with ipcRxBytes := fewer % 2 ^ 64 }).dynamicPrio ≤
          ((aiSchedTick l.world).npc s).dynamicPrio) ∧
      ((l.world.npc s).dynamicPrio = -1 → ∀ action after events, l.step action = some (after, events) →
        ¬Registers l.world s action → (after.world.npc s).dynamicPrio = -1) := by
  have sane : Sane l := by
    apply reached.invariant (fun l _ => Sane l)
    · intro l begun
      exact initial_sane begun
    · intro l trace action after events sane counts stepped
      exact step_sane sane counts stepped
  have range := sane.ranged.range s npc
  have law (living : 1 ≤ (l.world.npc s).dynamicPrio) :
      ((aiSchedTick l.world).npc s).dynamicPrio = vitality (l.world.npc s).dynamicPrio (l.received s) ↔
        Fits (l.world.npc s).dynamicPrio (l.received s) := by
    rw [aiSchedTick_npc, if_pos ⟨npc, by omega⟩]
    exact settleNpc_vitality _ living (by omega) (sane.counted s ⟨npc, by omega⟩)
  refine ⟨range, law, ?_, ?_⟩
  · intro living fits fewer le fewerFits
    have limit : (l.world.npc s).dynamicPrio ≤ npcPrioMax := by omega
    have lower := (settleNpc_vitality { l.world.npc s with ipcRxBytes := fewer % 2 ^ 64 } living limit rfl).mpr fewerFits
    rw [lower, (law living).mpr fits]
    exact vitality_mono _ le
  · intro dead action after events stepped silent
    obtain ⟨⟨world, listed⟩, moved, result⟩ := Option.map_eq_some_iff.mp stepped
    simp only [Prod.mk.injEq] at result
    rw [← result.1]
    exact step_dead sane.ranged.numbered moved npc dead silent

def first : Ledger := { world := freshWorld, received := fun _ => 0 }

/-- An NPC with 6400 bytes reaches the limit at its next tick. -/
theorem vitality_law_run : ∃ l trace, Reaches step (fun _ _ action => Counts action) Initial l trace ∧
    l.world.IsNpc 0 ∧ ((aiSchedTick l.world).npc 0).dynamicPrio = 100 := by
  obtain ⟨l, trace, reached, test⟩ := replay_witness step (fun _ _ action => Counts action) Initial
    [.sched .scheduler, .npcRegister 0, .npcIpcNotify 1 6400] first ⟨rfl, rfl⟩
    (fun l _ => decide (l.world.IsNpc 0 ∧ 1 ≤ (l.world.npc 0).dynamicPrio ∧
      Fits (l.world.npc 0).dynamicPrio (l.received 0) ∧
      vitality (l.world.npc 0).dynamicPrio (l.received 0) = 100)) (by decide +kernel)
  obtain ⟨npc, living, fits, value⟩ := of_decide_eq_true test
  exact ⟨l, trace, reached, npc, (((vitality_law reached 0 npc).2.1 living).mpr fits).trans value⟩

/-- An NPC with 64 notifications of the largest `int` dies at its next tick. -/
theorem rich_npc_dies : ¬∀ l trace, Reaches step (fun _ _ action => Counts action) Initial l trace →
    ∀ s, l.world.IsNpc s → 1 ≤ (l.world.npc s).dynamicPrio →
      ((aiSchedTick l.world).npc s).dynamicPrio = vitality (l.world.npc s).dynamicPrio (l.received s) := by
  intro claim
  obtain ⟨l, trace, reached, test⟩ := replay_witness step (fun _ _ action => Counts action) Initial
    ([.sched .scheduler, .npcRegister 0] ++ List.replicate 64 (.npcIpcNotify 1 2147483647)) first ⟨rfl, rfl⟩
    (fun l _ => decide (l.world.IsNpc 0 ∧ 1 ≤ (l.world.npc 0).dynamicPrio ∧
      ((aiSchedTick l.world).npc 0).dynamicPrio ≠ vitality (l.world.npc 0).dynamicPrio (l.received 0)))
    (by decide +kernel)
  obtain ⟨npc, living, differs⟩ := of_decide_eq_true test
  exact differs (claim l trace reached 0 npc living)

end Ledger

end BtbuOs.Npc
