import BtbuOs.Sched.Reaping
import Mathlib.Data.List.FinRange

namespace BtbuOs.Npc

open Sched (Slot nproc)

/-- The macro `NPC_INIT_PRIO`. -/
def npcInitPrio : Int := 50

/-- The macro `NPC_DECAY_RATE`. -/
def npcDecayRate : Int := 1

/-- The macro `NPC_IPC_REWARD_BYTES`. -/
def npcIpcRewardBytes : Nat := 64

/-- The macro `NPC_DEATH_THRESHOLD`. -/
def npcDeathThreshold : Int := 0

/-- The macro `NPC_MAX_COUNT`. -/
def npcMaxCount : Int := 8

/-- The macro `NPC_PRIO_MAX`. -/
def npcPrioMax : Int := 100

/-- The value of a 32-bit `int`. -/
def int32 (value : Int) : Int := value.bmod (2 ^ 32)

/-- The value of a `uint64`. -/
def uint64 (value : Int) : Nat := (value % 2 ^ 64).toNat

/-- The fields of `struct proc` that the evolution scheduler uses. -/
structure Vitals where
  npcId : Int
  dynamicPrio : Int
  ipcRxBytes : Nat
  deriving DecidableEq

/-- The kernel with the evolution scheduler: `g_world_tick` and `g_alive_npcs` are its globals. -/
structure World where
  kernel : Sched.Kernel
  npc : Slot → Vitals
  worldTick : Int
  aliveNpcs : Int

namespace World

variable (w : World)

/-- The slot holds a process that has registered as an NPC. -/
def IsNpc (s : Slot) : Prop := (w.kernel.pool s).state = .used ∧ 0 ≤ (w.npc s).npcId

instance (s : Slot) : Decidable (w.IsNpc s) := inferInstanceAs (Decidable (_ ∧ _))

/-- The slot holds an NPC that has not died. -/
def Live (s : Slot) : Prop := w.IsNpc s ∧ 0 < (w.npc s).dynamicPrio

instance (s : Slot) : Decidable (w.Live s) := inferInstanceAs (Decidable (_ ∧ _))

/-- The number of processes in use that are NPCs with a positive priority. -/
def liveCount : Nat := (List.finRange nproc).countP fun s => w.Live s

def setNpc (s : Slot) (p : Vitals) : World := { w with npc := Function.update w.npc s p }

end World

/-- The priority points for the bytes of a tick, narrowed to `int`. -/
def reward (bytes : Nat) : Int := int32 ((bytes / npcIpcRewardBytes : Nat) : Int)

/-- The body of the loop in `ai_sched_tick` for an NPC that has not died: decay, reward, limit and death. -/
def settleNpc (p : Vitals) : Vitals :=
  let decayed := int32 (p.dynamicPrio - npcDecayRate)
  let p := { p with dynamicPrio := decayed }
  let p :=
    if 0 < p.ipcRxBytes then
      { p with
        dynamicPrio := if 0 < reward p.ipcRxBytes then int32 (p.dynamicPrio + reward p.ipcRxBytes) else p.dynamicPrio
        ipcRxBytes := 0 }
    else p
  let p := if npcPrioMax < p.dynamicPrio then { p with dynamicPrio := npcPrioMax } else p
  if p.dynamicPrio ≤ npcDeathThreshold then { p with dynamicPrio := -1 } else p

/-- One round of the loop: dead NPCs and other processes are skipped. -/
def tickRound (w : World) (before : (Slot → Vitals) × Int) (s : Slot) : (Slot → Vitals) × Int :=
  if (w.kernel.pool s).state ≠ .used ∨ (before.1 s).npcId < 0 then before
  else if (before.1 s).dynamicPrio < 0 then before
  else (Function.update before.1 s (settleNpc (before.1 s)), before.2 + 1)

def aiSchedTick (w : World) : World :=
  let (npc, alive) := (List.finRange nproc).foldl (tickRound w) (w.npc, 0)
  { w with npc, worldTick := int32 (w.worldTick + 1), aliveNpcs := alive }

def aiSchedRegister (w : World) (s : Slot) (npcId : Int) : World × Int :=
  if npcId < 0 ∨ npcMaxCount ≤ npcId then (w, -1)
  else
    ({ w.setNpc s { npcId, dynamicPrio := npcInitPrio, ipcRxBytes := 0 } with
      aliveNpcs := int32 (w.aliveNpcs + 1) }, 0)

/-- `struct npc_status`. -/
structure NpcStatus where
  npcId : Int
  myPrio : Int
  myMemory : Int
  worldLoad : Int
  aliveNpcs : Int
  tick : Int
  deriving DecidableEq

/-- The page count of the process comes from its address space. -/
def aiSchedGetStatus (w : World) (s : Slot) (maxPage : Nat) : NpcStatus where
  npcId := (w.npc s).npcId
  myPrio := (w.npc s).dynamicPrio
  myMemory := int32 maxPage
  worldLoad := w.aliveNpcs
  aliveNpcs := w.aliveNpcs
  tick := w.worldTick

/-- The first NPC in use with this pid receives the bytes. -/
def aiSchedAddIpc (w : World) (pid : Int) (bytes : Nat) : World :=
  match (List.finRange nproc).find? fun s =>
      (w.kernel.pool s).state = .used && ((w.kernel.pool s).pid : Int) == pid && 0 ≤ (w.npc s).npcId with
  | none => w
  | some s => w.setNpc s { w.npc s with ipcRxBytes := ((w.npc s).ipcRxBytes + bytes) % 2 ^ 64 }

/-- `allocproc` clears the fields of the slot that it takes. -/
def allocNpc (before after : Sched.Kernel) (npc : Slot → Vitals) (s : Slot) : Vitals :=
  if (before.pool s).state = .unused ∧ (after.pool s).state ≠ .unused then
    { npcId := -1, dynamicPrio := 0, ipcRxBytes := 0 }
  else npc s

/-- The operations of the scheduler and the system calls of NPCs. -/
inductive Action where
  | sched (action : Sched.Action)
  | npcRegister (npcId : Int)
  | npcStatus (maxPage : Nat)
  | npcYield
  | npcIpcNotify (targetPid bytes : Int)
  deriving DecidableEq

inductive Event where
  | sched (event : Sched.Event)
  | returned (value : Int)
  | status (st : NpcStatus)
  deriving DecidableEq

/-- A step of the scheduler changes the NPC fields of a slot that it takes. -/
def schedStep (w : World) (action : Sched.Action) : Option (World × List Event) :=
  (Sched.step w.kernel action).map fun (kernel, events) =>
    ({ w with kernel, npc := allocNpc w.kernel kernel w.npc }, events.map .sched)

/-- The slot of the current process. -/
def World.running (w : World) : Option Slot := if w.kernel.halted then none else w.kernel.current.map Prod.fst

/-- The system calls run on behalf of the current process. -/
def step (w : World) : Action → Option (World × List Event)
  | .sched action => schedStep w action
  | .npcRegister npcId => w.running.map fun s =>
      ((aiSchedRegister w s npcId).1, [.returned (aiSchedRegister w s npcId).2])
  | .npcStatus maxPage => w.running.map fun s => (w, [.status (aiSchedGetStatus w s maxPage)])
  | .npcYield => w.running.bind fun _ => schedStep (aiSchedTick w) .yield
  | .npcIpcNotify targetPid bytes => w.running.map fun _ => (aiSchedAddIpc w targetPid (uint64 bytes), [.returned 0])

/-- `ai_sched_init` after `load_init_app`; the other slots are as the loader left them. -/
def freshWorld : World where
  kernel := Sched.freshKernel
  npc s := { npcId := if s = 0 then -1 else 0, dynamicPrio := 0, ipcRxBytes := 0 }
  worldTick := 0
  aliveNpcs := 0

variable {w : World} {s : Slot}

/-- The rounds over distinct slots settle each NPC that has not died and count it. -/
theorem foldl_tickRound (slots : List Slot) (npc : Slot → Vitals) (alive : Int) (distinct : slots.Nodup) :
    slots.foldl (tickRound w) (npc, alive) =
      (fun s => if s ∈ slots ∧ (w.kernel.pool s).state = .used ∧ 0 ≤ (npc s).npcId ∧ 0 ≤ (npc s).dynamicPrio then
          settleNpc (npc s) else npc s,
        alive + (slots.countP fun s =>
          (w.kernel.pool s).state = .used ∧ 0 ≤ (npc s).npcId ∧ 0 ≤ (npc s).dynamicPrio : Nat)) := by
  induction slots generalizing npc alive with
  | nil => simp
  | cons s rest ih =>
      obtain ⟨fresh, distinct⟩ := List.nodup_cons.mp distinct
      rw [List.foldl_cons, List.countP_cons]
      by_cases takes : (w.kernel.pool s).state = .used ∧ 0 ≤ (npc s).npcId ∧ 0 ≤ (npc s).dynamicPrio
      · have round : tickRound w (npc, alive) s = (Function.update npc s (settleNpc (npc s)), alive + 1) := by
          unfold tickRound
          rw [if_neg (by simp [takes.1, takes.2.1]), if_neg (by simp [takes.2.2])]
        have count : (rest.countP fun r => (w.kernel.pool r).state = .used ∧
            0 ≤ (Function.update npc s (settleNpc (npc s)) r).npcId ∧
            0 ≤ (Function.update npc s (settleNpc (npc s)) r).dynamicPrio) =
            rest.countP fun r => (w.kernel.pool r).state = .used ∧ 0 ≤ (npc r).npcId ∧ 0 ≤ (npc r).dynamicPrio := by
          apply List.countP_congr
          intro r member
          have apart : r ≠ s := by
            intro same
            exact fresh (same ▸ member)
          simp [apart]
        rw [round, ih _ _ distinct, count]
        apply Prod.ext
        · funext r
          by_cases own : r = s
          · subst own
            simp [fresh, takes]
          · simp [own]
        · simp only [takes, and_self, decide_true, if_true]
          omega
      · have round : tickRound w (npc, alive) s = (npc, alive) := by
          unfold tickRound
          split
          · rfl
          · rename_i chosen
            push Not at chosen
            rw [if_pos (by
              by_contra positive
              exact takes ⟨chosen.1, chosen.2, Int.not_lt.mp positive⟩)]
        rw [round, ih _ _ distinct]
        apply Prod.ext
        · funext r
          by_cases own : r = s
          · subst own
            simp [takes]
          · simp [own]
        · simp [takes]

/-- A tick settles each NPC that has not died. -/
theorem aiSchedTick_npc (w : World) (s : Slot) : (aiSchedTick w).npc s =
    if w.IsNpc s ∧ 0 ≤ (w.npc s).dynamicPrio then settleNpc (w.npc s) else w.npc s := by
  simp [aiSchedTick, foldl_tickRound _ _ _ (List.nodup_finRange nproc), World.IsNpc, and_assoc]

/-- A tick counts the NPCs that had not died before it. -/
theorem aiSchedTick_aliveNpcs (w : World) : (aiSchedTick w).aliveNpcs =
    ((List.finRange nproc).countP fun s => w.IsNpc s ∧ 0 ≤ (w.npc s).dynamicPrio : Nat) := by
  simp [aiSchedTick, foldl_tickRound _ _ _ (List.nodup_finRange nproc), World.IsNpc, and_assoc]

@[simp] theorem aiSchedTick_kernel (w : World) : (aiSchedTick w).kernel = w.kernel := rfl

/-- The main thread of the process in this slot exits. -/
def Ends (w : World) (s : Slot) : Action → Prop
  | .sched (.exit _) => w.kernel.current = some (s, 0)
  | _ => False

instance (w : World) (s : Slot) : (action : Action) → Decidable (Ends w s action)
  | .sched (.exit _) => inferInstanceAs (Decidable (w.kernel.current = some (s, 0)))
  | .sched .scheduler | .sched .yield | .sched .sleep | .sched (.wake _) | .sched .threadCreate | .sched .fork
  | .sched (.spawn _) | .sched (.wait _) | .sched (.waittid _) | .sched (.setPriority _) => inferInstanceAs (Decidable False)
  | .npcRegister _ | .npcStatus _ | .npcYield | .npcIpcNotify _ _ => inferInstanceAs (Decidable False)

/-- The process in this slot registers as an NPC. -/
def Registers (w : World) (s : Slot) : Action → Prop
  | .npcRegister npcId => w.running = some s ∧ 0 ≤ npcId ∧ npcId < npcMaxCount
  | _ => False

instance (w : World) (s : Slot) : (action : Action) → Decidable (Registers w s action)
  | .npcRegister npcId => inferInstanceAs (Decidable (w.running = some s ∧ 0 ≤ npcId ∧ npcId < npcMaxCount))
  | .sched _ | .npcStatus _ | .npcYield | .npcIpcNotify _ _ => inferInstanceAs (Decidable False)

/-- A kernel step leaves the process tree alone or is an operation of the running thread that changes it. -/
theorem sched_change {k after : Sched.Kernel} {action : Sched.Action} {events : List Sched.Event}
    (stepped : Sched.step k action = some (after, events)) :
    ((∀ code, action ≠ .exit code) ∧ Sched.Alike k after) ∨
      ∃ s t, k.current = some (s, t) ∧ Sched.Change k s t action after := by
  unfold Sched.step at stepped
  split at stepped
  · contradiction
  · cases current : k.current with
    | none =>
        left
        cases action with
        | scheduler =>
            simp only [current, Option.some.injEq] at stepped
            cases result : Sched.scheduler k with
            | error message =>
                simp only [result, Sched.settle, Prod.mk.injEq] at stepped
                obtain ⟨rfl, rfl⟩ := stepped
                exact ⟨by simp, rfl, fun _ => ⟨rfl, rfl, rfl⟩⟩
            | ok pair =>
                obtain ⟨mid, listed⟩ := pair
                simp only [result, Sched.settle, Prod.mk.injEq] at stepped
                obtain ⟨rfl, rfl⟩ := stepped
                exact ⟨by simp, Sched.scheduler_alike result⟩
        | _ => simp [current] at stepped
    | some task =>
        obtain ⟨s, t⟩ := task
        simp only [current, Option.map_eq_some_iff] at stepped
        obtain ⟨result, operated, settling⟩ := stepped
        cases result with
        | error message =>
            simp only [Sched.settle, Prod.mk.injEq] at settling
            obtain ⟨rfl, rfl⟩ := settling
            left
            constructor
            · intro code exits
              simp [exits, Sched.operate] at operated
            · exact ⟨rfl, fun _ => ⟨rfl, rfl, rfl⟩⟩
        | ok pair =>
            obtain ⟨next, listed⟩ := pair
            simp only [Sched.settle, Prod.mk.injEq] at settling
            obtain ⟨rfl, rfl⟩ := settling
            exact Or.inr ⟨s, t, rfl, Sched.operate_change operated⟩

/-- A step of the scheduler takes an NPC away only by the exit of its main thread, and makes none. -/
theorem schedStep_kept {after : World} {action : Sched.Action} {events : List Event}
    (stepped : schedStep w action = some (after, events)) (s : Slot) :
    (after.IsNpc s ↔ w.IsNpc s ∧ ¬Ends w s (.sched action)) ∧ (w.IsNpc s → after.npc s = w.npc s) := by
  unfold schedStep at stepped
  rw [Option.map_eq_some_iff] at stepped
  obtain ⟨⟨kernel, listed⟩, moved, result⟩ := stepped
  simp only [Prod.mk.injEq] at result
  obtain ⟨rfl, rfl⟩ := result
  have same (state : (kernel.pool s).state = (w.kernel.pool s).state) : allocNpc w.kernel kernel w.npc s = w.npc s := by
    unfold allocNpc
    rw [if_neg]
    rw [state]
    exact fun both => both.2 both.1
  have quiet (ends : ∀ code, action ≠ .exit code) : ¬Ends w s (.sched action) := by
    cases action with
    | exit code => exact absurd rfl (ends code)
    | _ => exact id
  have kept (ends : ¬Ends w s (.sched action)) (state : (kernel.pool s).state = (w.kernel.pool s).state) :
      (World.IsNpc ⟨kernel, allocNpc w.kernel kernel w.npc, w.worldTick, w.aliveNpcs⟩ s ↔
        w.IsNpc s ∧ ¬Ends w s (.sched action)) ∧
        (w.IsNpc s → allocNpc w.kernel kernel w.npc s = w.npc s) := by
    simp [World.IsNpc, same state, state, ends]
  rcases sched_change moved with ⟨ends, alike⟩ | ⟨r, t, current, change⟩
  · exact kept (quiet ends) (alike.kept s).1
  · cases change with
    | alike ends alike =>
        refine kept ?_ (alike.kept s).1
        cases action with
        | exit code =>
            intro main
            have main : w.kernel.current = some (s, 0) := main
            rw [current, Option.some.injEq, Prod.mk.injEq] at main
            exact ends code rfl main.2
        | _ => exact id
    | born ends np born =>
        by_cases own : s = np
        · subst own
          simp [World.IsNpc, allocNpc, born.free, born.state]
        · exact kept (quiet ends) (born.kept s own).1
    | freed ends np freed =>
        by_cases own : s = np
        · subst own
          simp [World.IsNpc, freed.zombie, freed.state]
        · exact kept (quiet ends) (freed.kept s own).1
    | left code exits main left =>
        subst exits main
        by_cases own : s = r
        · subst own
          have state : (kernel.pool s).state ≠ .used := by
            rw [left.state]
            split <;> simp
          have ends : Ends w s (.sched (.exit code)) := current
          constructor
          · simp [World.IsNpc, state, ends]
          · intro npc
            show allocNpc w.kernel kernel w.npc s = w.npc s
            unfold allocNpc
            rw [if_neg (by simp [npc.1])]
        · apply kept
          · intro main
            have main : w.kernel.current = some (s, 0) := main
            rw [current, Option.some.injEq, Prod.mk.injEq] at main
            exact own main.1.symm
          · exact left.kept s own

/-- The processes that exist have different pids, all of them handed out. -/
structure Numbered (k : Sched.Kernel) : Prop where
  covered : Sched.Covered k
  pids : ∀ s, (k.pool s).state ≠ .unused → (k.pool s).pid < k.nextPid
  distinct : ∀ s r, (k.pool s).state ≠ .unused → (k.pool r).state ≠ .unused → (k.pool s).pid = (k.pool r).pid → s = r

/-- A step that lets no slot but free ones change its pid keeps the pids different. -/
theorem Numbered.alike {k after : Sched.Kernel} (numbered : Numbered k) (covered : Sched.Covered after)
    (next : after.nextPid = k.nextPid)
    (present : ∀ s, (after.pool s).state ≠ .unused → (k.pool s).state ≠ .unused ∧ (after.pool s).pid = (k.pool s).pid) :
    Numbered after := by
  constructor
  · exact covered
  · intro s there
    rw [(present s there).2, next]
    exact numbered.pids s (present s there).1
  · intro s r there other equal
    rw [(present s there).2, (present r other).2] at equal
    exact numbered.distinct s r (present s there).1 (present r other).1 equal

theorem step_numbered {k after : Sched.Kernel} {action : Sched.Action} {events : List Sched.Event}
    (numbered : Numbered k) (stepped : Sched.step k action = some (after, events)) : Numbered after := by
  have covered := (Sched.step_kept numbered.covered stepped).1
  have same (alike : Sched.Alike k after) : Numbered after := by
    apply numbered.alike covered alike.next
    intro s there
    exact ⟨by rwa [(alike.kept s).1] at there, (alike.kept s).2.1⟩
  rcases sched_change stepped with ⟨_, alike⟩ | ⟨r, t, current, change⟩
  · exact same alike
  · cases change with
    | alike _ alike => exact same alike
    | born _ np born =>
        have older (s : Slot) (apart : s ≠ np) (there : (after.pool s).state ≠ .unused) :
            (k.pool s).state ≠ .unused ∧ (after.pool s).pid = (k.pool s).pid := by
          obtain ⟨state, pid, _⟩ := born.kept s apart
          exact ⟨by rwa [state] at there, pid⟩
        constructor
        · exact covered
        · intro s there
          rw [born.next]
          by_cases own : s = np
          · rw [own, born.pid]
            omega
          · rw [(older s own there).2]
            have := numbered.pids s (older s own there).1
            omega
        · intro s u there other equal
          by_cases own : s = np
          · by_cases both : u = np
            · rw [own, both]
            · rw [own, born.pid, (older u both other).2] at equal
              have := numbered.pids u (older u both other).1
              omega
          · by_cases both : u = np
            · rw [both, born.pid, (older s own there).2] at equal
              have := numbered.pids s (older s own there).1
              omega
            · rw [(older s own there).2, (older u both other).2] at equal
              exact numbered.distinct s u (older s own there).1 (older u both other).1 equal
    | freed _ np freed =>
        apply numbered.alike covered freed.next
        intro s there
        by_cases own : s = np
        · exact absurd freed.state (own ▸ there)
        · obtain ⟨state, pid, _⟩ := freed.kept s own
          exact ⟨by rwa [state] at there, pid⟩
    | left code exits main left =>
        have runs := numbered.covered.runs r t current
        have used := numbered.covered.used r t (by simp [runs])
        apply numbered.alike covered left.next
        intro s there
        by_cases own : s = r
        · exact ⟨by simp [own, used], left.pid s⟩
        · exact ⟨by rwa [left.kept s own] at there, left.pid s⟩

theorem freshKernel_numbered : Numbered Sched.freshKernel := by
  have first (s : Slot) (present : (Sched.freshKernel.pool s).state ≠ .unused) : s = 0 := by
    by_contra other
    exact present (by simp [Sched.freshKernel, other])
  constructor
  · exact Sched.freshKernel_kept.1
  · intro s present
    rw [first s present]
    decide
  · intro s r present there same
    rw [first s present, first r there]

end BtbuOs.Npc
