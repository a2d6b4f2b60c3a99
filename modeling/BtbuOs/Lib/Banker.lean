import Mathlib.Algebra.BigOperators.Fin
import Mathlib.Algebra.BigOperators.Group.Finset.Basic
import Mathlib.Algebra.BigOperators.Group.List.Basic
import Mathlib.Algebra.Order.BigOperators.Group.Finset
import Mathlib.Algebra.Order.Group.Int

/-- The requests of threads, the units they hold, and the units that nobody holds. -/
structure Banker (Thread Resource : Type) where
  live : Finset Thread
  request : Thread → Resource → Int
  allocation : Thread → Resource → Int
  available : Resource → Int

namespace Banker

variable {Thread Resource : Type} [DecidableEq Thread] {bank : Banker Thread Resource} {group larger : Finset Thread}
  {t : Thread}

/-- The units that are available or held by live threads outside the group. -/
def supply (bank : Banker Thread Resource) (group : Finset Thread) (r : Resource) : Int :=
  bank.available r + ∑ u ∈ bank.live \ group, bank.allocation u r

/-- The supply covers everything that the thread requests. -/
def Covers (bank : Banker Thread Resource) (group : Finset Thread) (t : Thread) : Prop :=
  ∀ r, bank.request t r ≤ bank.supply group r

/-- Every thread of the group requests more of a resource than there is outside the group. -/
structure Starving (bank : Banker Thread Resource) (group : Finset Thread) : Prop where
  nonempty : group.Nonempty
  live : group ⊆ bank.live
  short : ∀ t ∈ group, ∃ r, bank.supply group r < bank.request t r

/-- While every live thread waits, only the available units are left. -/
theorem supply_live (bank : Banker Thread Resource) (r : Resource) : bank.supply bank.live r = bank.available r := by
  rw [supply, Finset.sdiff_self, Finset.sum_empty, Int.add_zero]

/-- A thread that leaves the group adds its units to the supply. -/
theorem supply_erase (live : group ⊆ bank.live) (member : t ∈ group) (r : Resource) :
    bank.supply (group.erase t) r = bank.supply group r + bank.allocation t r := by
  have outside : t ∉ bank.live \ group := by simp [member]
  have grown : bank.live \ group.erase t = insert t (bank.live \ group) := by
    ext u
    by_cases same : u = t
    · simp [same, live member]
    · simp [same]
  rw [supply, supply, grown, Finset.sum_insert outside]
  omega

/-- A larger group leaves less. -/
theorem supply_le (nonneg : ∀ u r, 0 ≤ bank.allocation u r) (subset : group ⊆ larger) (r : Resource) :
    bank.supply larger r ≤ bank.supply group r := by
  have fewer : bank.live \ larger ⊆ bank.live \ group := Finset.sdiff_subset_sdiff (Finset.Subset.refl _) subset
  have sums := Finset.sum_le_sum_of_subset_of_nonneg fewer fun u _ _ => nonneg u r
  unfold supply
  omega

/-- No thread of a starving group is covered while the whole group waits. -/
theorem Starving.not_mem (starving : bank.Starving group) (nonneg : ∀ u r, 0 ≤ bank.allocation u r)
    (subset : group ⊆ larger) (covers : bank.Covers larger t) : t ∉ group := by
  intro member
  obtain ⟨r, short⟩ := starving.short t member
  have covered := covers r
  have less := supply_le nonneg subset r
  omega

/-- The available units alone bound the supply from below. -/
theorem available_le_supply (nonneg : ∀ u r, 0 ≤ bank.allocation u r) (r : Resource) :
    bank.available r ≤ bank.supply group r := by
  have sum := Finset.sum_nonneg fun u (_ : u ∈ bank.live \ group) => nonneg u r
  unfold supply
  omega

/-- A live thread outside the group holds nothing of a resource that is used up. -/
theorem allocation_of_spent (nonneg : ∀ u r, 0 ≤ bank.allocation u r) {r : Resource} (free : 0 ≤ bank.available r)
    (spent : bank.supply group r ≤ 0) (live : t ∈ bank.live) (outside : t ∉ group) : bank.allocation t r ≤ 0 := by
  have member : t ∈ bank.live \ group := Finset.mem_sdiff.mpr ⟨live, outside⟩
  have part := Finset.single_le_sum (fun u _ => nonneg u r) member
  unfold supply at spent
  omega

/-- The threads are ordered such that each is covered by the available units and those held by the threads before it. -/
structure Safe (bank : Banker Thread Resource) (order : List Thread) : Prop where
  nodup : order.Nodup
  complete : ∀ t, t ∈ order ↔ t ∈ bank.live
  served : ∀ before t after, order = before ++ t :: after →
    ∀ r, bank.request t r ≤ bank.available r + (before.map fun u => bank.allocation u r).sum

/-- The first thread of a group in an order that serves it is covered while the whole group waits. -/
theorem Safe.not_starving {order : List Thread} (safe : bank.Safe order) (nonneg : ∀ u r, 0 ≤ bank.allocation u r) :
    ¬bank.Starving group := by
  intro starving
  have split (left : List Thread) : ∀ done, order = done ++ left → (∀ u ∈ done, u ∉ group) → ∃ before t after,
      order = before ++ t :: after ∧ t ∈ group ∧ ∀ u ∈ before, u ∉ group := by
    induction left with
    | nil =>
        intro done whole outside
        obtain ⟨t, member⟩ := starving.nonempty
        have inside := (safe.complete t).mpr (starving.live member)
        rw [whole, List.append_nil] at inside
        exact absurd member (outside t inside)
    | cons t rest ih =>
        intro done whole outside
        by_cases member : t ∈ group
        · exact ⟨done, t, rest, whole, member, outside⟩
        · apply ih (done ++ [t])
          · rw [whole, List.append_assoc, List.singleton_append]
          · intro u inside
            rcases List.mem_append.mp inside with early | last
            · exact outside u early
            · rwa [List.mem_singleton.mp last]
  obtain ⟨before, t, after, whole, member, outside⟩ := split order [] rfl (by simp)
  obtain ⟨r, short⟩ := starving.short t member
  have served := safe.served before t after whole r
  have distinct : before.Nodup := by
    have nodup := safe.nodup
    rw [whole] at nodup
    exact (List.nodup_append.mp nodup).1
  have fewer : before.toFinset ⊆ bank.live \ group := by
    intro u inside
    rw [List.mem_toFinset] at inside
    have listed : u ∈ order := by
      rw [whole]
      exact List.mem_append_left _ inside
    exact Finset.mem_sdiff.mpr ⟨(safe.complete u).mp listed, outside u inside⟩
  have sums := Finset.sum_le_sum_of_subset_of_nonneg fewer fun u _ _ => nonneg u r
  rw [List.sum_toFinset _ distinct] at sums
  unfold supply at short
  omega

/-- Threads without a starving group can be served one after the other. -/
theorem exists_served (fed : ∀ group, ¬bank.Starving group) (live : group ⊆ bank.live) :
    ∃ order : List Thread, order.Nodup ∧ (∀ t, t ∈ order ↔ t ∈ group) ∧ ∀ before t after, order = before ++ t :: after →
      ∀ r, bank.request t r ≤ bank.supply group r + (before.map fun u => bank.allocation u r).sum := by
  induction size : group.card generalizing group with
  | zero =>
      refine ⟨[], List.nodup_nil, ?_, ?_⟩
      · simp [Finset.card_eq_zero.mp size]
      · intro before t after whole
        simp at whole
  | succ count ih =>
      have nonempty : group.Nonempty := Finset.card_pos.mp (by omega)
      obtain ⟨t, member, covers⟩ : ∃ t ∈ group, bank.Covers group t := by
        by_contra none
        push Not at none
        refine fed group ⟨nonempty, live, fun t member => ?_⟩
        have short := none t member
        unfold Covers at short
        push Not at short
        exact short
      obtain ⟨rest, nodup, complete, served⟩ := ih ((Finset.erase_subset t group).trans live)
        (by rw [Finset.card_erase_of_mem member, size, Nat.add_sub_cancel])
      have absent : t ∉ rest := by simp [complete]
      refine ⟨t :: rest, List.nodup_cons.mpr ⟨absent, nodup⟩, ?_, ?_⟩
      · intro u
        by_cases own : u = t
        · simp [own, member]
        · simp [own, complete]
      · intro before u after whole r
        cases before with
        | nil =>
            simp only [List.nil_append, List.cons.injEq] at whole
            rw [← whole.1]
            simpa using covers r
        | cons first early =>
            simp only [List.cons_append, List.cons.injEq] at whole
            have later := served early u after whole.2 r
            rw [supply_erase live member] at later
            rw [List.map_cons, List.sum_cons, ← whole.1]
            omega

/-- An order that serves every live thread exists exactly when no group starves. -/
theorem exists_safe_iff (nonneg : ∀ u r, 0 ≤ bank.allocation u r) :
    (∃ order, bank.Safe order) ↔ ∀ group, ¬bank.Starving group := by
  constructor
  · rintro ⟨order, safe⟩ group
    exact safe.not_starving nonneg
  · intro fed
    obtain ⟨order, nodup, complete, served⟩ := exists_served fed (Finset.Subset.refl bank.live)
    refine ⟨order, nodup, complete, fun before t after whole r => ?_⟩
    rw [← supply_live]
    exact served before t after whole r

end Banker
