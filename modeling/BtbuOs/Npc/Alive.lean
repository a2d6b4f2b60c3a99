import BtbuOs.Npc.Vitality

namespace BtbuOs.Npc

open Machine
open Sched (Slot nproc)

/-- The next tick kills an NPC whose points do not outweigh the decay or overflow an `int`. -/
def Perishes (p : Vitals) : Prop :=
  p.dynamicPrio + max 0 (reward p.ipcRxBytes) ≤ 1 ∨ 2 ^ 31 < p.dynamicPrio + reward p.ipcRxBytes

instance (p : Vitals) : Decidable (Perishes p) := inferInstanceAs (Decidable (_ ∨ _))

/-- The number of slots with a property. -/
def count (property : Slot → Prop) [DecidablePred property] : Nat := (List.finRange nproc).countP fun s => property s

/-- A disjoint choice splits the count. -/
theorem count_split {whole first second : Slot → Prop} [DecidablePred whole] [DecidablePred first]
    [DecidablePred second] (splits : ∀ s, whole s ↔ first s ∨ second s) (apart : ∀ s, first s → ¬second s) :
    count whole = count first + count second := by
  unfold count
  induction List.finRange nproc with
  | nil => rfl
  | cons s rest ih =>
      simp only [List.countP_cons, ih, decide_eq_true_eq]
      by_cases one : first s
      · have other := apart s one
        simp only [one, other, (splits s).mpr (Or.inl one), if_true, if_false]
        omega
      · by_cases two : second s
        · simp only [one, two, (splits s).mpr (Or.inr two), if_true, if_false]
          omega
        · have neither : ¬whole s := fun chosen => ((splits s).mp chosen).elim one two
          simp only [one, two, neither, if_false]
          omega

theorem count_congr {first second : Slot → Prop} [DecidablePred first] [DecidablePred second]
    (same : ∀ s, first s ↔ second s) : count first = count second := by
  unfold count
  apply List.countP_congr
  intro s _
  simp [same s]

theorem count_le (property : Slot → Prop) [DecidablePred property] : count property ≤ nproc := by
  have bound := List.countP_le_length (p := fun s => decide (property s)) (l := List.finRange nproc)
  rwa [List.length_finRange] at bound

/-- Only the slot itself counts. -/
theorem count_single (property : Slot → Prop) [DecidablePred property] (s : Slot) :
    count (fun r => r = s ∧ property r) = if property s then 1 else 0 := by
  by_cases chosen : property s
  · rw [if_pos chosen]
    have only : count (fun r => r = s ∧ property r) = (List.finRange nproc).count s := by
      unfold count List.count
      apply List.countP_congr
      intro r _
      by_cases own : r = s
      · subst own
        simp [chosen]
      · simp [own]
    rw [only]
    exact List.count_eq_one_of_mem (List.nodup_finRange nproc) (List.mem_finRange s)
  · rw [if_neg chosen]
    apply List.countP_eq_zero.mpr
    intro r _
    simp only [decide_eq_true_eq]
    rintro ⟨rfl, holds⟩
    exact chosen holds

/-- The loop body kills exactly the NPCs that perish. -/
theorem settleNpc_dies (p : Vitals) (low : 1 ≤ p.dynamicPrio) (high : p.dynamicPrio ≤ npcPrioMax) :
    0 < (settleNpc p).dynamicPrio ↔ ¬Perishes p := by
  rw [settleNpc_dynamicPrio p low high]
  have narrow : reward p.ipcRxBytes < 2 ^ 31 := by
    unfold reward int32
    have bound := Int.bmod_lt (x := (p.ipcRxBytes / npcIpcRewardBytes : Nat)) (m := 2 ^ 32) (by decide)
    omega
  unfold Perishes
  unfold npcPrioMax at *
  unfold npcDecayRate npcDeathThreshold
  generalize reward p.ipcRxBytes = points at *
  by_cases fits : p.dynamicPrio + points ≤ 2 ^ 31
  · have sum : int32 (p.dynamicPrio - 1 + max 0 points) = p.dynamicPrio - 1 + max 0 points :=
      int32_of_fits (by omega) (by omega)
    rw [sum]
    dsimp only
    split <;> (try split) <;> omega
  · have sum : int32 (p.dynamicPrio - 1 + max 0 points) = p.dynamicPrio - 1 + max 0 points - 2 ^ 32 :=
      int32_of_high (by omega) (by omega)
    rw [sum]
    dsimp only
    split <;> (try split) <;> omega

/-- The world with the number of living NPCs that the counter has missed since the last tick. -/
structure Census where
  world : World
  drift : Nat

namespace Census

/-- The deaths of the tick start the count; exits and further registrations of living NPCs add to it. -/
def drifts (c : Census) : Action → Nat
  | .npcYield => count fun s => c.world.Live s ∧ Perishes (c.world.npc s)
  | action => c.drift + count fun s => c.world.Live s ∧ (Ends c.world s action ∨ Registers c.world s action)

def step (c : Census) (action : Action) : Option (Census × List Event) :=
  (Npc.step c.world action).map fun (world, events) => ({ world, drift := c.drifts action }, events)

def Initial (c : Census) : Prop := c.world = freshWorld ∧ c.drift = 0

/-- The counter of the kernel exceeds the number of living NPCs by the drift. -/
structure Counted (c : Census) : Prop where
  ranged : Ranged c.world
  counter : c.world.aliveNpcs = int32 (count c.world.Live + c.drift : Nat)

variable {c : Census} {w : World}

/-- Two values become the same `int` when they agree modulo 2^32. -/
theorem int32_eq_iff {first second : Int} : int32 first = int32 second ↔ (2 ^ 32 : Int) ∣ first - second := by
  have whole : ((2 ^ 32 : Nat) : Int) = 2 ^ 32 := Int.natCast_pow 2 32
  unfold int32
  rw [Int.bmod_eq_bmod_iff_bmod_sub_eq_zero, ← Int.dvd_iff_bmod_eq_zero, whole]

/-- The counter shows the number of living NPCs exactly when the drift is a multiple of 2^32. -/
theorem Counted.truthful (counted : Counted c) : c.world.aliveNpcs = count c.world.Live ↔ 2 ^ 32 ∣ c.drift := by
  have bound : count c.world.Live ≤ 128 := count_le c.world.Live
  rw [counted.counter]
  have small : int32 (count c.world.Live : Nat) = (count c.world.Live : Nat) := int32_of_fits (by omega) (by omega)
  rw [← small, int32_eq_iff]
  push_cast
  omega

/-- A step of the scheduler takes the NPCs whose main thread exits from the living. -/
theorem schedStep_live {after : World} {action : Sched.Action} {events : List Event}
    (stepped : schedStep w action = some (after, events)) :
    count w.Live = count after.Live + count fun s => w.Live s ∧ Ends w s (.sched action) := by
  apply count_split
  · intro s
    obtain ⟨npc, same⟩ := schedStep_kept stepped s
    unfold World.Live
    rw [npc]
    by_cases registered : w.IsNpc s
    · rw [same registered]
      tauto
    · tauto
  · intro s live ends
    exact ((schedStep_kept stepped s).1.mp live.1).2 ends.2

/-- A step of the scheduler leaves the globals of the evolution scheduler alone. -/
theorem schedStep_aliveNpcs {after : World} {action : Sched.Action} {events : List Event}
    (stepped : schedStep w action = some (after, events)) : after.aliveNpcs = w.aliveNpcs := by
  obtain ⟨⟨kernel, listed⟩, _, result⟩ := Option.map_eq_some_iff.mp stepped
  simp only [Prod.mk.injEq] at result
  rw [← result.1]

/-- A tick takes the NPCs that perish from the living. -/
theorem aiSchedTick_live (ranged : Ranged w) :
    count w.Live = count (aiSchedTick w).Live + count fun s => w.Live s ∧ Perishes (w.npc s) := by
  have settled (s : Slot) (live : w.Live s) : (aiSchedTick w).Live s ↔ ¬Perishes (w.npc s) := by
    obtain ⟨npc, positive⟩ := live
    have limit : (w.npc s).dynamicPrio ≤ npcPrioMax := by
      have := ranged.range s npc
      omega
    rw [← settleNpc_dies _ positive limit, World.Live, aiSchedTick_isNpc, aiSchedTick_npc, if_pos ⟨npc, positive.le⟩]
    simp [npc]
  apply count_split
  · intro s
    by_cases live : w.Live s
    · rw [settled s live]
      by_cases perishes : Perishes (w.npc s) <;> simp [perishes, live]
    · constructor
      · intro chosen
        exact absurd chosen live
      · rintro (after | both)
        · refine absurd after ?_
          unfold World.Live at live ⊢
          rw [aiSchedTick_isNpc, aiSchedTick_npc]
          split
          · rename_i both
            have := ranged.range s both.1
            exact fun chosen => live ⟨both.1, by omega⟩
          · exact live
        · exact both.1
  · intro s after both
    exact (settled s both.1).mp after both.2

/-- A tick stores the number of NPCs that lived before it. -/
theorem aiSchedTick_counter (ranged : Ranged w) : (aiSchedTick w).aliveNpcs = count w.Live := by
  rw [aiSchedTick_aliveNpcs]
  have same : count (fun s => w.IsNpc s ∧ 0 ≤ (w.npc s).dynamicPrio) = count w.Live := by
    apply count_congr
    intro s
    unfold World.Live
    constructor
    · rintro ⟨npc, positive⟩
      have := ranged.range s npc
      exact ⟨npc, by omega⟩
    · rintro ⟨npc, positive⟩
      exact ⟨npc, positive.le⟩
  rw [← same]
  rfl

/-- A valid registration adds the process to the living, unless it is among them. -/
theorem aiSchedRegister_live {s : Slot} {npcId : Int} (used : (w.kernel.pool s).state = .used) (low : 0 ≤ npcId)
    (high : npcId < npcMaxCount) :
    count (aiSchedRegister w s npcId).1.Live + (if w.Live s then 1 else 0) = count w.Live + 1 := by
  have after : count (aiSchedRegister w s npcId).1.Live =
      count (fun r => r = s ∧ True) + count fun r => r ≠ s ∧ w.Live r := by
    unfold aiSchedRegister
    rw [if_neg (by omega)]
    apply count_split
    · intro r
      by_cases own : r = s
      · subst own
        simp [World.Live, World.IsNpc, World.setNpc, used, low, npcInitPrio]
      · simp [World.Live, World.IsNpc, World.setNpc, own]
    · intro r own other
      exact other.1 own.1
  have before : count w.Live = count (fun r => r = s ∧ w.Live r) + count fun r => r ≠ s ∧ w.Live r := by
    apply count_split
    · intro r
      tauto
    · intro r own other
      exact other.1 own.1
  rw [after, before, count_single, count_single, if_pos trivial]
  omega

/-- No slot meets a condition that fails. -/
theorem count_none {property : Slot → Prop} [DecidablePred property] (none : ∀ s, ¬property s) : count property = 0 := by
  apply List.countP_eq_zero.mpr
  intro s _
  simp [none s]

/-- An action that ends and registers no living NPC leaves the drift as it is. -/
theorem drifts_quiet {action : Action} (later : action ≠ .npcYield) (ends : ∀ s, ¬Ends c.world s action)
    (registers : ∀ s, ¬Registers c.world s action) : c.drifts action = c.drift := by
  have none : (count fun s => c.world.Live s ∧ (Ends c.world s action ∨ Registers c.world s action)) = 0 := by
    apply count_none
    intro s both
    exact both.2.elim (ends s) (registers s)
  rw [drifts, none, Nat.add_zero]
  exact later

theorem running_used {s : Slot} (numbered : Numbered w.kernel) (running : w.running = some s) :
    (w.kernel.pool s).state = .used := by
  unfold World.running at running
  split at running
  · contradiction
  · obtain ⟨task, current, rfl⟩ := Option.map_eq_some_iff.mp running
    have runs := numbered.covered.runs task.1 task.2 current
    exact numbered.covered.used task.1 task.2 (by simp [runs])

/-- Each step keeps the difference between the counter and the number of living NPCs. -/
theorem step_counted {after : Census} {action : Action} {events : List Event} (counted : Counted c)
    (stepped : c.step action = some (after, events)) : Counted after := by
  unfold step at stepped
  obtain ⟨⟨world, listed⟩, moved, result⟩ := Option.map_eq_some_iff.mp stepped
  simp only [Prod.mk.injEq] at result
  obtain ⟨rfl, rfl⟩ := result
  refine ⟨step_ranged counted.ranged moved, ?_⟩
  have counter := counted.counter
  rcases step_cases moved with ⟨inner, rfl, taken⟩ | ⟨s, npcId, rfl, running, rfl⟩ | ⟨maxPage, rfl, rfl⟩ | ⟨rfl, taken⟩ |
    ⟨targetPid, bytes, rfl, rfl⟩
  · have live := schedStep_live taken
    have ended : (count fun s => c.world.Live s ∧ (Ends c.world s (.sched inner) ∨ Registers c.world s (.sched inner))) =
        count fun s => c.world.Live s ∧ Ends c.world s (.sched inner) := by
      apply count_congr
      intro s
      simp [Registers]
    simp only [schedStep_aliveNpcs taken, counter, drifts, ended, live]
    congr 2
    omega
  · have used := running_used counted.ranged.numbered running
    by_cases valid : 0 ≤ npcId ∧ npcId < npcMaxCount
    · have live := aiSchedRegister_live used valid.1 valid.2
      have again : (count fun r => c.world.Live r ∧ (Ends c.world r (.npcRegister npcId) ∨
          Registers c.world r (.npcRegister npcId))) = if c.world.Live s then 1 else 0 := by
        rw [← count_single]
        apply count_congr
        intro r
        constructor
        · rintro ⟨live, ends | registers⟩
          · exact absurd ends id
          · rw [Registers, running, Option.some.injEq] at registers
            exact ⟨registers.1.symm, live⟩
        · rintro ⟨rfl, alive⟩
          exact ⟨alive, Or.inr ⟨running, valid⟩⟩
      have counter : (aiSchedRegister c.world s npcId).1.aliveNpcs = int32 (c.world.aliveNpcs + 1) := by
        unfold aiSchedRegister
        rw [if_neg (by omega)]
      rw [counter, counted.counter]
      simp only [drifts, again]
      have grown : int32 (int32 (count c.world.Live + c.drift : Nat) + 1) =
          int32 ((count c.world.Live + c.drift : Nat) + 1) := Int.bmod_add_bmod
      have sum : ((count c.world.Live + c.drift : Nat) + 1 : Int) =
          (count (aiSchedRegister c.world s npcId).1.Live + (c.drift + if c.world.Live s then 1 else 0) : Nat) := by
        omega
      rw [grown, sum]
    · have same : (aiSchedRegister c.world s npcId).1 = c.world := by
        unfold aiSchedRegister
        rw [if_pos (by omega)]
      have quiet : c.drifts (.npcRegister npcId) = c.drift :=
        drifts_quiet (by simp) (fun _ => id) fun r registers => valid registers.2
      simp only [same, quiet]
      exact counter
  · have quiet : c.drifts (.npcStatus maxPage) = c.drift := drifts_quiet (by simp) (fun _ => id) fun _ => id
    simp only [quiet]
    exact counter
  · have live := aiSchedTick_live counted.ranged
    have kept := schedStep_live taken
    have none : (count fun s => (aiSchedTick c.world).Live s ∧ Ends (aiSchedTick c.world) s (.sched .yield)) = 0 :=
      count_none fun s both => both.2
    have bound : count c.world.Live ≤ 128 := count_le c.world.Live
    simp only [schedStep_aliveNpcs taken, aiSchedTick_counter counted.ranged, drifts]
    rw [int32_of_fits (by omega) (by omega)]
    omega
  · have numbered := counted.ranged.numbered
    have quiet : c.drifts (.npcIpcNotify targetPid bytes) = c.drift := drifts_quiet (by simp) (fun _ => id) fun _ => id
    have same : count (aiSchedAddIpc c.world targetPid (uint64 bytes)).Live = count c.world.Live := by
      apply count_congr
      intro s
      rw [World.Live, aiSchedAddIpc_isNpc numbered, aiSchedAddIpc_dynamicPrio numbered, World.Live]
    simp only [quiet, same]
    rw [← counter]
    unfold aiSchedAddIpc
    split <;> rfl

/-- In every run, after every tick, every registration and every other call, the counter is the number of living NPCs
exactly when the drift is a multiple of 2^32; a status call reports the counter. -/
theorem alive_counter {trace : List Event} (reached : Reaches step (fun _ _ _ => True) Initial c trace) :
    (c.world.aliveNpcs = c.world.liveCount ↔ 2 ^ 32 ∣ c.drift) ∧
      ∀ s maxPage, (aiSchedGetStatus c.world s maxPage).aliveNpcs = c.world.aliveNpcs := by
  have counted : Counted c := by
    apply reached.invariant (fun c _ => Counted c)
    · rintro c ⟨fresh, none⟩
      constructor
      · rw [fresh]
        exact freshWorld_ranged
      · rw [fresh, none, count_none fun s live => freshWorld_isNpc s live.1]
        decide
    · intro c trace action after events counted _ stepped
      exact step_counted counted stepped
  exact ⟨counted.truthful, fun _ _ => rfl⟩

def first : Census := { world := freshWorld, drift := 0 }

/-- Two processes register and a tick kills neither. -/
theorem alive_counter_run : ∃ c trace, Reaches step (fun _ _ _ => True) Initial c trace ∧ c.world.aliveNpcs = 2 ∧
    c.world.aliveNpcs = c.world.liveCount := by
  obtain ⟨c, trace, reached, test⟩ := replay_witness step (fun _ _ _ => True) Initial
    [.sched .scheduler, .npcRegister 0, .sched .fork, .npcYield, .sched .scheduler, .npcRegister 1] first ⟨rfl, rfl⟩
    (fun c _ => decide (c.world.aliveNpcs = 2 ∧ c.drift = 0)) (by decide +kernel)
  obtain ⟨two, even⟩ := of_decide_eq_true test
  exact ⟨c, trace, reached, two, (alive_counter reached).1.mpr ⟨0, even⟩⟩

/-- The calls after which the counter is compared. -/
def Observes : Action → Prop
  | .npcRegister _ | .npcYield => True
  | _ => False

/-- A process registers twice, and the counter shows two NPCs where there is one. -/
theorem registered_twice : ¬∀ c trace, Reaches step (fun _ _ _ => True) Initial c trace →
    ∀ action after events, Observes action → c.step action = some (after, events) →
      after.world.aliveNpcs = after.world.liveCount := by
  intro claim
  obtain ⟨c, trace, reached, test⟩ := replay_witness step (fun _ _ _ => True) Initial
    [.sched .scheduler, .npcRegister 0] first ⟨rfl, rfl⟩
    (fun c _ => (c.step (.npcRegister 0)).any fun (after, _) =>
      decide (after.world.aliveNpcs ≠ after.world.liveCount)) (by decide +kernel)
  obtain ⟨result, stepped, differs⟩ := (Option.any_eq_true _ _).mp test
  exact of_decide_eq_true differs (claim c trace reached (.npcRegister 0) result.1 result.2 trivial stepped)

end Census

end BtbuOs.Npc
