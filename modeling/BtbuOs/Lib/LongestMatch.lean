import Mathlib.Algebra.BigOperators.Fin
import Mathlib.Data.List.Induction
import Mathlib.Order.Defs.LinearOrder
import Mathlib.Tactic.Common

namespace LongestMatch

section Pick

variable {Item Key : Type} [LinearOrder Key] {fits : Item → Bool} {key : Item → Key} {items : List Item} {item : Item}

/-- A later item replaces the candidate only when its key is greater. -/
def round (fits : Item → Bool) (key : Item → Key) (candidate : Option Item) (item : Item) : Option Item :=
  if fits item then
    match candidate with
    | none => some item
    | some best => if key best < key item then some item else candidate
  else candidate

/-- The first of the items that fit with the greatest key. -/
def pick (fits : Item → Bool) (key : Item → Key) (items : List Item) : Option Item := items.foldl (round fits key) none

theorem pick_concat (fits : Item → Bool) (key : Item → Key) (items : List Item) (item : Item) :
    pick fits key (items ++ [item]) = round fits key (pick fits key items) item := by
  rw [pick, List.foldl_append]
  rfl

/-- Nothing is picked exactly when nothing fits. -/
theorem pick_eq_none_iff : pick fits key items = none ↔ ∀ x ∈ items, fits x = false := by
  induction items using List.reverseRecOn with
  | nil => exact ⟨fun _ x member => absurd member List.not_mem_nil, fun _ => rfl⟩
  | append_singleton items item ih =>
      rw [pick_concat]
      unfold round
      cases right : fits item with
      | false =>
          rw [if_neg (by simp), ih]
          constructor
          · intro none x member
            rcases List.mem_append.mp member with old | new
            · exact none x old
            · rwa [List.mem_singleton.mp new]
          · exact fun none x member => none x (List.mem_append_left _ member)
      | true =>
          rw [if_pos rfl]
          constructor
          · intro absent
            cases earlier : pick fits key items with
            | none =>
                rw [earlier] at absent
                cases absent
            | some best =>
                rw [earlier] at absent
                dsimp only at absent
                split at absent <;> cases absent
          · intro none
            rw [none item (List.mem_append_right _ (List.mem_singleton_self item))] at right
            cases right

/-- The items in front of the one picked have smaller keys, and those behind it no greater ones. -/
theorem pick_split (picked : pick fits key items = some item) : fits item = true ∧ ∃ before after, items = before ++ item :: after ∧
    (∀ x ∈ before, fits x = true → key x < key item) ∧ ∀ x ∈ after, fits x = true → key x ≤ key item := by
  induction items using List.reverseRecOn generalizing item with
  | nil => cases picked
  | append_singleton items last ih =>
      rw [pick_concat] at picked
      unfold round at picked
      cases right : fits last with
      | false =>
          rw [right, if_neg (by simp)] at picked
          obtain ⟨own, before, after, whole, smaller, bound⟩ := ih picked
          refine ⟨own, before, after ++ [last], by rw [whole, List.append_assoc, List.cons_append], smaller, ?_⟩
          intro x member fit
          rcases List.mem_append.mp member with old | new
          · exact bound x old fit
          · rw [List.mem_singleton.mp new, right] at fit
            cases fit
      | true =>
          rw [right, if_pos rfl] at picked
          cases earlier : pick fits key items with
          | none =>
              rw [earlier] at picked
              cases picked
              refine ⟨right, items, [], rfl, ?_, fun x member => absurd member List.not_mem_nil⟩
              intro x member fit
              rw [pick_eq_none_iff.mp earlier x member] at fit
              cases fit
          | some best =>
              rw [earlier] at picked
              dsimp only at picked
              obtain ⟨own, before, after, whole, smaller, bound⟩ := ih earlier
              by_cases greater : key best < key last
              · rw [if_pos greater] at picked
                cases picked
                refine ⟨right, items, [], rfl, ?_, fun x member => absurd member List.not_mem_nil⟩
                intro x member fit
                rw [whole] at member
                rcases List.mem_append.mp member with front | rest
                · exact lt_trans (smaller x front fit) greater
                · rcases List.mem_cons.mp rest with same | behind
                  · rwa [same]
                  · exact lt_of_le_of_lt (bound x behind fit) greater
              · rw [if_neg greater] at picked
                cases picked
                refine ⟨own, before, after ++ [last], by rw [whole, List.append_assoc, List.cons_append], smaller, ?_⟩
                intro x member fit
                rcases List.mem_append.mp member with old | new
                · exact bound x old fit
                · rw [List.mem_singleton.mp new]
                  exact not_lt.mp greater

end Pick

/-- The mask of a prefix has its ones in front. -/
def mask (width length : Nat) : BitVec width := BitVec.allOnes width <<< (width - length)

theorem toNat_mask {width length : Nat} (inside : length ≤ width) : (mask width length).toNat = 2 ^ width - 2 ^ (width - length) := by
  have positive := Nat.two_pow_pos (width - length)
  have product : 2 ^ length * 2 ^ (width - length) = 2 ^ width := by
    rw [← Nat.pow_add, Nat.add_sub_cancel' inside]
  have shifted : (2 ^ width - 1) * 2 ^ (width - length) = (2 ^ width - 2 ^ (width - length)) + 2 ^ width * (2 ^ (width - length) - 1) := by
    have bound : 2 ^ (width - length) ≤ 2 ^ width := Nat.pow_le_pow_right (by decide) (Nat.sub_le ..)
    rw [Nat.sub_mul, Nat.mul_sub, Nat.mul_one, Nat.one_mul]
    have large : 2 ^ width ≤ 2 ^ width * 2 ^ (width - length) := Nat.le_mul_of_pos_right _ positive
    omega
  rw [mask, BitVec.toNat_shiftLeft, BitVec.toNat_allOnes, Nat.shiftLeft_eq, shifted, Nat.add_mul_mod_self_left]
  apply Nat.mod_eq_of_lt
  have := Nat.two_pow_pos width
  omega

/-- A longer prefix has a greater mask. -/
theorem mask_lt_mask {width j k : Nat} (inside : k ≤ width) (longer : j < k) : (mask width j).toNat < (mask width k).toNat := by
  rw [toNat_mask inside, toNat_mask (by omega)]
  have less : 2 ^ (width - k) < 2 ^ (width - j) := Nat.pow_lt_pow_right (by decide) (by omega)
  have bound : 2 ^ (width - j) ≤ 2 ^ width := Nat.pow_le_pow_right (by decide) (Nat.sub_le ..)
  omega

/-- Masks are ordered as the lengths of their prefixes. -/
theorem le_of_mask_le {width j k : Nat} (inside : j ≤ width) (smaller : (mask width j).toNat ≤ (mask width k).toNat) : j ≤ k := by
  by_contra longer
  have greater := mask_lt_mask inside (Nat.not_le.mp longer)
  omega

end LongestMatch
