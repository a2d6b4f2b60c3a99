import BtbuOs.Lib.Wrap
import BtbuOs.Sched.Share
import Mathlib.Algebra.BigOperators.Group.Finset.Basic
import Mathlib.Algebra.Order.BigOperators.Group.Finset

namespace BtbuOs.Sched

open Sync (nthread Tid ThreadState)

/-- The kernel after a number of turns. -/
def turns : Nat → Kernel → Option Kernel
  | 0, k => some k
  | n + 1, k => (turn k).bind fun (_, after) => turns n after

/-- The thread that the scheduler fetches after a number of turns. -/
def fetched (k : Kernel) (n : Nat) : Option (Slot × Tid) := (turns n k).bind fun k => (turn k).map Prod.fst

/-- The stride of each queued process gets, modulo 2^64, to one that is not below the stride of any other. -/
def Passable (k : Kernel) : Prop :=
  ∀ s r, Queued k s → Queued k r → (k.pool r).stride ≤ Wrap.top (2 ^ 64) (passOf k s) (k.pool s).stride

/-- The number of entries ahead of the process. -/
def position (k : Kernel) (r : Slot) : Nat := k.queue.toList.findIdx fun id => (idToTask id).1 = r

/-- The turns that the others need to get past the process. -/
noncomputable def distance (k : Kernel) (r : Slot) : Nat :=
  ∑ s : Slot, Wrap.delay (2 ^ 64) (passOf k s) (k.pool s).stride (k.pool r).stride

variable {k after : Kernel} {s r : Slot} {t : Tid}

/-- A turn stays in the orbit of the stride. -/
theorem Turned.top (turned : Turned k after s t) (u : Slot) :
    Wrap.top (2 ^ 64) (passOf after u) (after.pool u).stride = Wrap.top (2 ^ 64) (passOf k u) (k.pool u).stride := by
  rw [turned.pass u]
  by_cases own : u = s
  · subst own
    obtain ⟨before, rest, _, _, choice⟩ := turned.moved
    cases choice with
    | least small minimal strict advanced => rw [advanced, Wrap.top_step]
    | oldest none stuck stays => rw [stays]
  · rw [turned.others u own]

/-- A turn of another process brings the process nearer to the front or the others nearer to its stride. -/
theorem Turned.nearer (turned : Turned k after s t) (contested : Contested k) (queued : Queued k r) (other : s ≠ r)
    (passable : ∀ u, Queued k u → (k.pool r).stride ≤ Wrap.top (2 ^ 64) (passOf k u) (k.pool u).stride) :
    position after r < position k r ∨ position after r = position k r ∧ distance after r < distance k r := by
  obtain ⟨before, rest, content, listed, choice⟩ := turned.moved
  have owner : ¬(idToTask (taskToId s t)).1 = r := by rwa [idToTask_taskToId]
  by_cases ahead : ∃ id ∈ before, (idToTask id).1 = r
  · right
    have found : before.findIdx (fun id => (idToTask id).1 = r) < before.length := by
      rw [List.findIdx_lt_length]
      simpa using ahead
    constructor
    · rw [position, position, content, listed, List.append_assoc]
      simp only [List.findIdx_append, if_pos found]
    · obtain ⟨id, member, mine⟩ := ahead
      cases choice with
      | oldest none stuck stays => simp [none] at member
      | least small minimal strict advanced =>
          have low := strict id member
          rw [strideOf, mine] at low
          have closer : Wrap.delay (2 ^ 64) (passOf after s) (after.pool s).stride (after.pool r).stride <
              Wrap.delay (2 ^ 64) (passOf k s) (k.pool s).stride (k.pool r).stride := by
            rw [turned.pass s, advanced, turned.others r (Ne.symm other)]
            exact Wrap.delay_step (contested.stride s) low (passable s turned.chosen)
          apply Finset.sum_lt_sum
          · intro u _
            by_cases own : u = s
            · subst own
              exact Nat.le_of_lt closer
            · rw [turned.pass u, turned.others u own, turned.others r (Ne.symm other)]
          · exact ⟨s, Finset.mem_univ s, closer⟩
  · left
    have absent : before.findIdx (fun id => (idToTask id).1 = r) = before.length := by
      rw [List.findIdx_eq_length]
      intro id member
      simpa using fun mine => ahead ⟨id, member, mine⟩
    have behind : rest.findIdx (fun id => (idToTask id).1 = r) < rest.length := by
      rw [List.findIdx_lt_length]
      obtain ⟨id, member, mine⟩ := queued
      rw [content, List.mem_append, List.mem_cons] at member
      rcases member with earlier | same | later
      · exact absurd ⟨id, earlier, mine⟩ ahead
      · rw [same] at mine
        exact absurd mine owner
      · exact ⟨id, later, by simpa using mine⟩
    rw [position, position, content, listed, List.append_assoc]
    simp only [List.findIdx_append, absent, Nat.lt_irrefl, if_false, if_pos behind, List.findIdx_cons, owner,
      decide_false, cond_false]
    omega

theorem turns_after {n : Nat} (ran : turn k = some ((s, t), after)) : fetched k (n + 1) = fetched after n := by
  simp [fetched, turns, ran]

/-- A process that all others get past is fetched. -/
theorem served (contested : Contested k) (queued : Queued k r)
    (passable : ∀ u, Queued k u → (k.pool r).stride ≤ Wrap.top (2 ^ 64) (passOf k u) (k.pool u).stride) :
    ∃ n t, fetched k n = some (r, t) := by
  obtain ⟨ahead, place⟩ : ∃ ahead, position k r = ahead := ⟨_, rfl⟩
  induction ahead using Nat.strong_induction_on generalizing k with
  | _ ahead front =>
    obtain ⟨delay, way⟩ : ∃ delay, distance k r = delay := ⟨_, rfl⟩
    induction delay using Nat.strong_induction_on generalizing k with
    | _ delay closer =>
      have waiting : k.queue.toList ≠ [] := by
        obtain ⟨id, member, _⟩ := queued
        exact List.ne_nil_of_mem member
      obtain ⟨s, t, after, ran, next, turned⟩ := turn_turned contested waiting
      by_cases own : s = r
      · subst own
        exact ⟨0, t, by simp [fetched, turns, ran]⟩
      · have still : Queued after r := (turned.queued r).mpr queued
        have going : ∀ u, Queued after u →
            (after.pool r).stride ≤ Wrap.top (2 ^ 64) (passOf after u) (after.pool u).stride := by
          intro u there
          rw [turned.top u, turned.others r (Ne.symm own)]
          exact passable u ((turned.queued u).mp there)
        obtain ⟨n, u, later⟩ : ∃ n t, fetched after n = some (r, t) := by
          rcases turned.nearer contested queued own passable with moved | ⟨same, shorter⟩
          · exact front _ (place ▸ moved) next still going rfl
          · exact closer _ (way ▸ shorter) next still going (same.trans place) rfl
        exact ⟨n + 1, u, by rw [turns_after ran, later]⟩

/-- A process above the orbit of another one is not fetched next. -/
theorem blocked_turn (contested : Contested k) (other : Queued k s) (queued : Queued k r)
    (above : Wrap.top (2 ^ 64) (passOf k s) (k.pool s).stride < (k.pool r).stride) :
    ∃ u t after, turn k = some ((u, t), after) ∧ Contested after ∧ Turned k after u t ∧ u ≠ r := by
  have waiting : k.queue.toList ≠ [] := by
    obtain ⟨id, member, _⟩ := queued
    exact List.ne_nil_of_mem member
  obtain ⟨u, t, after, ran, next, turned⟩ := turn_turned contested waiting
  refine ⟨u, t, after, ran, next, turned, ?_⟩
  have below := Wrap.le_top (q := passOf k s) (contested.stride s)
  rintro rfl
  obtain ⟨before, rest, _, _, choice⟩ := turned.moved
  obtain ⟨id, member, owner⟩ := other
  cases choice with
  | least small minimal strict advanced =>
      have bound := minimal id member
      rw [strideOf, owner] at bound
      omega
  | oldest none stuck stays =>
      have first := stuck id member
      have bound := contested.stride u
      rw [strideOf, owner] at first
      omega

/-- A process above the orbit of another one is never fetched. -/
theorem blocked (contested : Contested k) (other : Queued k s) (queued : Queued k r)
    (above : Wrap.top (2 ^ 64) (passOf k s) (k.pool s).stride < (k.pool r).stride) (n : Nat) (t : Tid) :
    fetched k n ≠ some (r, t) := by
  induction n generalizing k with
  | zero =>
      obtain ⟨u, v, after, ran, _, _, apart⟩ := blocked_turn contested other queued above
      simp [fetched, turns, ran, apart]
  | succ n ih =>
      obtain ⟨u, v, after, ran, next, turned, apart⟩ := blocked_turn contested other queued above
      rw [turns_after ran]
      apply ih next ((turned.queued s).mpr other) ((turned.queued r).mpr queued)
      rwa [turned.top s, turned.others r (Ne.symm apart)]

/-- The bound exists exactly when the stride of each queued process gets past those of all others. -/
theorem starvation_free_iff (contested : Contested k) :
    (∃ bound, ∀ s, Queued k s → ∃ n, n < bound ∧ ∃ t, fetched k n = some (s, t)) ↔ Passable k := by
  constructor
  · rintro ⟨bound, fetches⟩ s r other queued
    by_contra above
    obtain ⟨n, _, t, fetch⟩ := fetches r queued
    exact blocked contested other queued (Nat.lt_of_not_le above) n t fetch
  · intro passable
    have each (s : Slot) : ∃ n, Queued k s → ∃ t, fetched k n = some (s, t) := by
      by_cases queued : Queued k s
      · obtain ⟨n, t, fetch⟩ := served contested queued fun u there => passable u s there queued
        exact ⟨n, fun _ => ⟨t, fetch⟩⟩
      · exact ⟨0, fun there => absurd there queued⟩
    choose turn fetches using each
    refine ⟨Finset.univ.sup turn + 1, fun s queued => ⟨turn s, ?_, fetches s queued⟩⟩
    exact Nat.lt_succ_of_le (Finset.le_sup (Finset.mem_univ s))

/-- Positive passes are enough when no stride is within one pass of the end of its 64 bits. -/
theorem passable_of_short (contested : Contested k) (moves : ∀ s, Queued k s → (k.pool s).priority ≤ bigStride)
    (low : ∀ s, Queued k s → (k.pool s).stride + bigStride ≤ 2 ^ 64) : Passable k := by
  intro s r other queued
  have positive : 0 < passOf k s := Nat.div_pos (moves s other) (Nat.lt_of_lt_of_le (by decide) (contested.priority s other))
  have divisor : Nat.gcd (passOf k s) (2 ^ 64) ≤ bigStride :=
    Nat.le_trans (Nat.gcd_le_left _ positive) (Nat.div_le_self ..)
  have room := low r queued
  unfold Wrap.top
  omega

/-- Two processes with priorities 2 and 3 are both served. -/
theorem starvation_free_duel : ∃ bound, ∀ s, Queued (duel (fun _ => 0) 2 3) s →
    ∃ n, n < bound ∧ ∃ t, fetched (duel (fun _ => 0) 2 3) n = some (s, t) := by
  have contested : Contested (duel (fun _ => 0) 2 3) := duel_contested (fun _ => by decide) (by decide) (by decide)
  apply (starvation_free_iff contested).mpr
  apply passable_of_short contested
  · intro s _
    show (if s = 0 then 2 else 3) ≤ bigStride
    split <;> decide
  · intro s _
    show 0 + bigStride ≤ 2 ^ 64
    decide

/-- A process of priority 65537 has the pass 0 and keeps the processor from one whose stride is larger. -/
theorem zero_pass_starves : ¬∀ k, Contested k →
    ∃ bound, ∀ s, Queued k s → ∃ n, n < bound ∧ ∃ t, fetched k n = some (s, t) := by
  intro claim
  have contested : Contested (duel (fun s => if s = 0 then 1 else 0) 2 65537) :=
    duel_contested (fun s => by split <;> decide) (by decide) (by decide)
  have queued := duel_queued (fun s => if s = 0 then 1 else 0) 2 65537
  obtain ⟨bound, fetches⟩ := claim _ contested
  obtain ⟨n, _, t, fetch⟩ := fetches 0 queued.1
  exact blocked contested queued.2 queued.1 (by decide) n t fetch

end BtbuOs.Sched
