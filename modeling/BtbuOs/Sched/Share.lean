import BtbuOs.Sched.Turns
import Mathlib.Data.Finset.Lattice.Fold
import Mathlib.Order.Lattice.Nat

namespace BtbuOs.Sched

open Machine
open Sync (nthread Tid ThreadState)

/-- The turns of the scheduler, each with the thread that it runs. -/
def turnStep (k : Kernel) (_ : Unit) : Option (Kernel × List (Slot × Tid)) :=
  (turn k).map fun (task, after) => (after, [task])

/-- The queued processes start with one stride. -/
structure Level (k : Kernel) : Prop where
  contested : Contested k
  equal : ∀ s r, Queued k s → Queued k r → (k.pool s).stride = (k.pool r).stride

/-- The next turn does not take a stride past the end of its 64 bits. -/
def Grows (k : Kernel) : Prop :=
  (turn k).all (fun (_, after) => decide (∀ id ∈ k.queue.toList, strideOf k id ≤ strideOf after id)) = true

/-- Some queued process has a stride below the maximum. -/
def Choosable (k : Kernel) : Prop := ∃ id ∈ k.queue.toList, strideOf k id < 2 ^ 64 - 1

instance (k : Kernel) : Decidable (Grows k) := inferInstanceAs (Decidable (_ = _))

instance (k : Kernel) : Decidable (Choosable k) :=
  decidable_of_iff ((k.queue.toList.any fun id => strideOf k id < 2 ^ 64 - 1) = true) (by simp [Choosable])

def largestPass (k : Kernel) : Nat := (Finset.univ.filter (Queued k)).sup (passOf k)

/-- The number of turns that a process got. -/
def selected (s : Slot) (trace : List (Slot × Tid)) : Nat := (trace.map Prod.fst).count s

/-- No two strides are further apart than the largest pass, and each stride counts the turns of its process. -/
structure Shared (start : Kernel) (base : Nat) (k : Kernel) (trace : List (Slot × Tid)) : Prop where
  contested : Contested k
  queued : ∀ s, Queued k s ↔ Queued start s
  pass : ∀ s, passOf k s = passOf start s
  close : ∀ s r, Queued start s → Queued start r → (k.pool s).stride ≤ (k.pool r).stride + largestPass start
  counted : ∀ s, Queued start s → (k.pool s).stride = base + selected s trace * passOf start s

variable {start k after : Kernel} {base : Nat} {trace : List (Slot × Tid)} {s : Slot} {t : Tid}

theorem pass_le_largest (queued : Queued k s) : passOf k s ≤ largestPass k :=
  Finset.le_sup (f := passOf k) (Finset.mem_filter.mpr ⟨Finset.mem_univ s, queued⟩)

/-- A stride that does not wrap grows by the pass. -/
theorem advance_eq {stride pass : Nat} (small : stride < 2 ^ 64) (short : pass ≤ bigStride)
    (grows : stride ≤ (stride + pass) % 2 ^ 64) : (stride + pass) % 2 ^ 64 = stride + pass := by
  have width : bigStride < 2 ^ 64 := by decide
  by_cases inside : stride + pass < 2 ^ 64
  · exact Nat.mod_eq_of_lt inside
  · rw [Nat.mod_eq_sub_mod (by omega), Nat.mod_eq_of_lt (by omega)] at grows
    omega

theorem selected_append (r s : Slot) (t : Tid) (trace : List (Slot × Tid)) :
    selected r (trace ++ [(s, t)]) = selected r trace + if s = r then 1 else 0 := by
  simp [selected, List.count_append, List.count_singleton, beq_iff_eq]

/-- A turn gives its process one pass and keeps the others close. -/
theorem Shared.turn (shared : Shared start base k trace) (contested : Contested after) (turned : Turned k after s t)
    (grows : (k.pool s).stride ≤ (after.pool s).stride) (choosable : Choosable k) :
    Shared start base after (trace ++ [(s, t)]) := by
  obtain ⟨before, rest, content, listed, choice⟩ := turned.moved
  have mine := (shared.queued s).mp turned.chosen
  obtain ⟨minimal, advanced⟩ : (∀ r, Queued start r → (k.pool s).stride ≤ (k.pool r).stride) ∧
      (after.pool s).stride = (k.pool s).stride + passOf start s := by
    cases choice with
    | least small minimal strict advanced =>
        constructor
        · intro r queued
          obtain ⟨id, member, owner⟩ := (shared.queued r).mpr queued
          have bound := minimal id member
          rwa [strideOf, owner] at bound
        · rw [advanced] at grows ⊢
          rw [← shared.pass]
          exact advance_eq (shared.contested.stride s) (Nat.div_le_self ..) grows
    | oldest none stuck stays =>
        obtain ⟨id, member, small⟩ := choosable
        have maximal := stuck id member
        omega
  have pass := pass_le_largest mine
  constructor
  · exact contested
  · intro r
    rw [turned.queued r, shared.queued r]
  · intro r
    rw [turned.pass r, shared.pass r]
  · intro r u first second
    have near := shared.close r u first second
    by_cases own : r = s
    · subst own
      by_cases same : u = r
      · subst same
        omega
      · have below := minimal u second
        rw [turned.others u same, advanced]
        omega
    · rw [turned.others r own]
      by_cases same : u = s
      · subst same
        omega
      · rwa [turned.others u same]
  · intro r queued
    have count := shared.counted r queued
    rw [selected_append]
    by_cases own : r = s
    · subst own
      rw [advanced, count, if_pos rfl, Nat.add_mul, Nat.one_mul, Nat.add_assoc]
    · rw [turned.others r own, count, if_neg (Ne.symm own), Nat.add_zero]

/-- When the strides start level and none of them wraps, no two strides are ever further apart than the largest pass, and
so are the shares of any two processes, as long as one stride is below the maximum. -/
theorem stride_shares (level : Level start)
    (reached : Reaches turnStep (fun k _ _ => Grows k ∧ Choosable k) (· = start) k trace) :
    (∀ s r, Queued start s → Queued start r → (k.pool s).stride ≤ (k.pool r).stride + largestPass start) ∧
      ∀ s r, Queued start s → Queued start r →
        selected s trace * passOf start s ≤ selected r trace * passOf start r + largestPass start := by
  obtain ⟨base, levelled⟩ : ∃ base, ∀ s, Queued start s → (start.pool s).stride = base := by
    by_cases some : ∃ s, Queued start s
    · obtain ⟨s, queued⟩ := some
      exact ⟨(start.pool s).stride, fun r other => level.equal r s other queued⟩
    · exact ⟨0, fun s queued => absurd ⟨s, queued⟩ some⟩
  have shared : Shared start base k trace := by
    refine reached.invariant (fun k trace => Shared start base k trace) ?_ ?_
    · rintro k rfl
      refine ⟨level.contested, fun s => Iff.rfl, fun s => rfl, fun s r first second => ?_, fun s queued => ?_⟩
      · rw [level.equal s r first second]
        exact Nat.le_add_right ..
      · simp [levelled s queued, selected]
    · rintro k trace ⟨⟩ next events shared ⟨grows, choosable⟩ stepped
      unfold turnStep at stepped
      rw [Option.map_eq_some_iff] at stepped
      obtain ⟨⟨task, after⟩, moved, result⟩ := stepped
      simp only [Prod.mk.injEq] at result
      obtain ⟨rfl, rfl⟩ := result
      have waiting : k.queue.toList ≠ [] := by
        obtain ⟨id, member, _⟩ := choosable
        exact List.ne_nil_of_mem member
      obtain ⟨s, t, last, ran, contested, turned⟩ := turn_turned shared.contested waiting
      rw [ran, Option.some.injEq, Prod.mk.injEq] at moved
      obtain ⟨rfl, rfl⟩ := moved
      have monotone : ∀ id ∈ k.queue.toList, strideOf k id ≤ strideOf last id := by simpa [Grows, ran] using grows
      obtain ⟨id, member, rfl⟩ := turned.chosen
      exact shared.turn contested turned (monotone id member) choosable
  refine ⟨shared.close, fun s r first second => ?_⟩
  have near := shared.close s r first second
  rw [shared.counted s first, shared.counted r second] at near
  omega

/-- Two processes wait for the processor. -/
def duel (stride : Slot → Nat) (first second : Nat) : Kernel where
  current := none
  pool s := {
    state := if s.val < 2 then .used else .unused
    pid := s.val
    parent := none
    exitCode := 0
    stride := stride s
    priority := if s = 0 then first else second
    threads := fun t => if s.val < 2 ∧ t = 0 then .runnable else .unused
    threadExit := fun _ => 0 }
  queue := { data := fun i => if i = 0 then taskToId 0 0 else taskToId 1 0, size := queueSize, front := 0, tail := 2, empty := false }
  nextPid := 2
  halted := false

theorem duel_entries (stride : Slot → Nat) (first second : Nat) :
    (duel stride first second).queue.toList = [taskToId 0 0, taskToId 1 0] := rfl

theorem duel_contested {stride : Slot → Nat} {first second : Nat} (small : ∀ s, stride s < 2 ^ 64) (one : 2 ≤ first)
    (other : 2 ≤ second) : Contested (duel stride first second) := by
  have valid : (duel stride first second).queue.Valid := by constructor <;> simp [duel, queueSize]
  refine ⟨rfl, rfl, valid, rfl, by rw [duel_entries]; decide, ?_, ?_, small⟩
  · intro id member
    rw [duel_entries] at member
    rcases List.mem_pair.mp member with rfl | rfl <;> rfl
  · intro s _
    show 2 ≤ if s = 0 then first else second
    split <;> assumption

theorem duel_queued (stride : Slot → Nat) (first second : Nat) :
    Queued (duel stride first second) 0 ∧ Queued (duel stride first second) 1 := by
  constructor
  · exact ⟨taskToId 0 0, List.mem_cons_self, congrArg Prod.fst (idToTask_taskToId 0 0)⟩
  · exact ⟨taskToId 1 0, List.mem_cons_of_mem _ List.mem_cons_self, congrArg Prod.fst (idToTask_taskToId 1 0)⟩

/-- Two processes with one thread each wait for the processor, and the first one has waited longer. -/
structure Dueling (start k : Kernel) (s r : Slot) (mine other : Nat) : Prop where
  contested : Contested k
  content : k.queue.toList = [taskToId s 0, taskToId r 0]
  apart : s ≠ r
  mine : (k.pool s).stride = mine
  other : (k.pool r).stride = other
  pass : ∀ q, passOf k q = passOf start q

namespace Dueling

variable {r : Slot} {mine other : Nat}

theorem choosable (dueling : Dueling start k s r mine other) (small : mine < 2 ^ 64 - 1 ∨ other < 2 ^ 64 - 1) :
    Choosable k := by
  rw [Choosable, dueling.content]
  rcases small with first | second
  · refine ⟨taskToId s 0, List.mem_cons_self, ?_⟩
    rwa [strideOf, idToTask_taskToId, dueling.mine]
  · refine ⟨taskToId r 0, List.mem_cons_of_mem _ List.mem_cons_self, ?_⟩
    rwa [strideOf, idToTask_taskToId, dueling.other]

/-- No stride wraps when neither of the two gets smaller. -/
theorem grows {p : Slot} (dueling : Dueling start k s r mine other) (ran : turn k = some ((p, t), after))
    (first : mine ≤ (after.pool s).stride) (second : other ≤ (after.pool r).stride) : Grows k := by
  unfold Grows
  simp only [ran, Option.all_some, decide_eq_true_eq]
  intro id member
  rw [dueling.content] at member
  rcases List.mem_pair.mp member with rfl | rfl
  · rwa [strideOf, strideOf, idToTask_taskToId, dueling.mine]
  · rwa [strideOf, strideOf, idToTask_taskToId, dueling.other]

/-- A turn runs the first thread, or the second one past the first. -/
theorem cases (dueling : Dueling start k s r mine other) :
    ∃ p after, turn k = some ((p, 0), after) ∧ Contested after ∧ Turned k after p 0 ∧
      (p = s ∧ after.queue.toList = [taskToId r 0, taskToId s 0] ∧ Choice k (after.pool s).stride s [] ∨
        p = r ∧ after.queue.toList = [taskToId s 0, taskToId r 0] ∧
          Choice k (after.pool r).stride r [taskToId s 0]) := by
  obtain ⟨p, t, after, ran, contested, turned⟩ := turn_turned dueling.contested (by simp [dueling.content])
  obtain ⟨before, rest, content, listed, choice⟩ := turned.moved
  rw [dueling.content] at content
  match before with
  | [] =>
      obtain ⟨same, tail⟩ := List.cons.inj content
      rw [eq_comm, taskToId_eq_iff, idToTask_taskToId, Prod.mk.injEq] at same
      obtain ⟨rfl, rfl⟩ := same
      exact ⟨s, after, ran, contested, turned, Or.inl ⟨rfl, by rw [listed, ← tail]; rfl, choice⟩⟩
  | [first] =>
      obtain ⟨rfl, tail⟩ := List.cons.inj content
      obtain ⟨same, rfl⟩ := List.cons.inj tail
      rw [eq_comm, taskToId_eq_iff, idToTask_taskToId, Prod.mk.injEq] at same
      obtain ⟨rfl, rfl⟩ := same
      exact ⟨r, after, ran, contested, turned, Or.inr ⟨rfl, listed, choice⟩⟩
  | first :: second :: more => simp at content

/-- The first process runs when the other one has no smaller stride; a stride at the maximum stays. -/
theorem front (dueling : Dueling start k s r mine other) (next : Nat) (least : mine ≤ other)
    (sum : mine = 2 ^ 64 - 1 ∧ next = mine ∨ mine < 2 ^ 64 - 1 ∧ next = mine + passOf start s ∧ next < 2 ^ 64) :
    ∃ after, turnStep k () = some (after, [(s, 0)]) ∧ Grows k ∧ Dueling start after r s other next := by
  obtain ⟨p, after, ran, contested, turned, chosen⟩ := dueling.cases
  have first : strideOf k (taskToId s 0) = mine := by rw [strideOf, idToTask_taskToId, dueling.mine]
  rcases chosen with ⟨rfl, listed, choice⟩ | ⟨rfl, listed, choice⟩
  · have own : (after.pool p).stride = next := by
      cases choice with
      | least small minimal strict advanced =>
          rw [dueling.mine] at small
          rw [advanced, dueling.mine, dueling.pass]
          obtain ⟨maximal, _⟩ | ⟨_, rfl, bound⟩ := sum
          · omega
          · exact Nat.mod_eq_of_lt bound
      | oldest none stuck stays =>
          have maximal := stuck (taskToId p 0) (by simp [dueling.content])
          rw [stays, dueling.mine]
          omega
    have still := turned.others r dueling.apart.symm
    refine ⟨after, by simp [turnStep, ran], dueling.grows ran ?_ ?_, contested, listed, dueling.apart.symm, ?_, own, fun q => ?_⟩
    · omega
    · rw [still, dueling.other]
    · rw [still, dueling.other]
    · rw [turned.pass, dueling.pass]
  · cases choice with
    | least small minimal strict advanced =>
        have above := strict (taskToId s 0) List.mem_cons_self
        rw [first, dueling.other] at above
        omega
    | oldest none stuck stays => simp at none

/-- The second process runs when its stride is smaller. -/
theorem back (dueling : Dueling start k s r mine other) (next : Nat) (less : other < mine)
    (sum : next = other + passOf start r) (bound : next < 2 ^ 64) :
    ∃ after, turnStep k () = some (after, [(r, 0)]) ∧ Grows k ∧ Dueling start after s r mine next := by
  obtain ⟨p, after, ran, contested, turned, chosen⟩ := dueling.cases
  have second : strideOf k (taskToId r 0) = other := by rw [strideOf, idToTask_taskToId, dueling.other]
  have queued : taskToId r 0 ∈ k.queue.toList := by simp [dueling.content]
  rcases chosen with ⟨rfl, listed, choice⟩ | ⟨rfl, listed, choice⟩
  · cases choice with
    | least small minimal strict advanced =>
        have above := minimal _ queued
        rw [second, dueling.mine] at above
        omega
    | oldest none stuck stays =>
        have maximal := stuck _ queued
        have small := dueling.contested.stride p
        rw [dueling.mine] at small
        omega
  · have own : (after.pool p).stride = next := by
      cases choice with
      | least small minimal strict advanced =>
          rw [advanced, dueling.other, dueling.pass, ← sum]
          exact Nat.mod_eq_of_lt bound
      | oldest none stuck stays => simp at none
    have still := turned.others s dueling.apart
    refine ⟨after, by simp [turnStep, ran], dueling.grows ran ?_ ?_, contested, listed, dueling.apart, ?_, own, fun q => ?_⟩
    · rw [still, dueling.mine]
    · omega
    · rw [still, dueling.mine]
    · rw [turned.pass, dueling.pass]

end Dueling

theorem duel_dueling {stride : Slot → Nat} {first second : Nat} (small : ∀ s, stride s < 2 ^ 64) (one : 2 ≤ first)
    (other : 2 ≤ second) :
    Dueling (duel stride first second) (duel stride first second) 0 1 (stride 0) (stride 1) :=
  ⟨duel_contested small one other, duel_entries stride first second, by decide, rfl, rfl, fun _ => rfl⟩

/-- Five turns of two processes with passes 32768 and 21845. -/
theorem stride_shares_run : ∃ k trace,
    Reaches turnStep (fun k _ _ => Grows k ∧ Choosable k) (· = duel (fun _ => 0) 2 3) k trace ∧ selected 1 trace = 3 ∧
      selected 1 trace * passOf (duel (fun _ => 0) 2 3) 1 ≤
        selected 0 trace * passOf (duel (fun _ => 0) 2 3) 0 + largestPass (duel (fun _ => 0) 2 3) := by
  obtain ⟨start, fresh⟩ : ∃ start, start = duel (fun _ => 0) 2 3 := ⟨_, rfl⟩
  have level : Level start := by
    rw [fresh]
    exact ⟨duel_contested (fun _ => by decide) (by decide) (by decide), fun _ _ _ _ => rfl⟩
  have queued : Queued start 0 ∧ Queued start 1 := by
    rw [fresh]
    exact duel_queued _ 2 3
  have pass : passOf start 0 = 32768 ∧ passOf start 1 = 21845 := by
    rw [fresh]
    exact ⟨rfl, rfl⟩
  have begun : Dueling start start 0 1 0 0 := by
    rw [fresh]
    exact duel_dueling (fun _ => by decide) (by decide) (by decide)
  rw [← fresh]
  have reached : Reaches turnStep (fun k _ _ => Grows k ∧ Choosable k) (· = start) start [] := .start rfl
  obtain ⟨_, turned, grows, one⟩ := begun.front 32768 (by decide) (by omega)
  have reached := reached.next ⟨grows, begun.choosable (by decide)⟩ turned
  obtain ⟨_, turned, grows, two⟩ := one.front 21845 (by decide) (by omega)
  have reached := reached.next ⟨grows, one.choosable (by decide)⟩ turned
  obtain ⟨_, turned, grows, three⟩ := two.back 43690 (by decide) (by omega) (by decide)
  have reached := reached.next ⟨grows, two.choosable (by decide)⟩ turned
  obtain ⟨_, turned, grows, four⟩ := three.front 65536 (by decide) (by omega)
  have reached := reached.next ⟨grows, three.choosable (by decide)⟩ turned
  obtain ⟨k, turned, grows, five⟩ := four.front 65535 (by decide) (by omega)
  have reached := reached.next ⟨grows, four.choosable (by decide)⟩ turned
  exact ⟨k, _, reached, by decide, (stride_shares level reached).2 1 0 queued.2 queued.1⟩

/-- Strides at the maximum are passed over by the scan, so the processes get their turns without regard to priority. -/
theorem top_strides_unshared : ¬∀ start k trace, Level start →
    Reaches turnStep (fun k _ _ => Grows k) (· = start) k trace → ∀ s r, Queued start s → Queued start r →
      selected s trace * passOf start s ≤ selected r trace * passOf start r + largestPass start := by
  intro claim
  obtain ⟨start, fresh⟩ : ∃ start, start = duel (fun _ => 2 ^ 64 - 1) 2 3 := ⟨_, rfl⟩
  have level : Level start := by
    rw [fresh]
    exact ⟨duel_contested (fun _ => by decide) (by decide) (by decide), fun _ _ _ _ => rfl⟩
  have queued : Queued start 0 ∧ Queued start 1 := by
    rw [fresh]
    exact duel_queued _ 2 3
  have pass : passOf start 0 = 32768 ∧ passOf start 1 = 21845 := by
    rw [fresh]
    exact ⟨rfl, rfl⟩
  have largest : largestPass start ≤ 32768 := by
    apply Finset.sup_le
    intro s _
    rw [fresh]
    exact Nat.div_le_div_left (show 2 ≤ if s = 0 then 2 else 3 by split <;> decide) (by decide)
  have begun : Dueling start start 0 1 (2 ^ 64 - 1) (2 ^ 64 - 1) := by
    rw [fresh]
    exact duel_dueling (fun _ => by decide) (by decide) (by decide)
  have reached : Reaches turnStep (fun k _ _ => Grows k) (· = start) start [] := .start rfl
  obtain ⟨_, turned, grows, one⟩ := begun.front (2 ^ 64 - 1) (by decide) (Or.inl ⟨rfl, rfl⟩)
  have reached := reached.next grows turned
  obtain ⟨_, turned, grows, two⟩ := one.front (2 ^ 64 - 1) (by decide) (Or.inl ⟨rfl, rfl⟩)
  have reached := reached.next grows turned
  obtain ⟨_, turned, grows, _⟩ := two.front (2 ^ 64 - 1) (by decide) (Or.inl ⟨rfl, rfl⟩)
  have reached := reached.next grows turned
  have bound := claim start _ _ level reached 0 1 queued.1 queued.2
  have first : selected 0 (([] ++ [(0, 0)] ++ [(1, 0)] ++ [(0, 0)] : List (Slot × Tid))) = 2 := by decide
  have second : selected 1 (([] ++ [(0, 0)] ++ [(1, 0)] ++ [(0, 0)] : List (Slot × Tid))) = 1 := by decide
  rw [first, second] at bound
  omega

end BtbuOs.Sched
