import Mathlib.Algebra.BigOperators.Fin
import Mathlib.Data.List.Nodup
import Mathlib.Logic.Function.Basic
import Mathlib.Tactic.Common

namespace Partition

variable {Frame Role : Type}

/-- Every managed frame is on the free list once or has exactly one role, and no other frame is in use. -/
structure Owned (managed : Frame → Prop) (free : List Frame) (owner : Role → Option Frame) : Prop where
  nodup : free.Nodup
  freeManaged : ∀ frame, frame ∈ free → managed frame
  roleManaged : ∀ role frame, owner role = some frame → managed frame
  apart : ∀ role frame, owner role = some frame → frame ∉ free
  single : ∀ role other frame, owner role = some frame → owner other = some frame → role = other
  cover : ∀ frame, managed frame → frame ∈ free ∨ ∃ role, owner role = some frame

variable {managed : Frame → Prop} {free : List Frame} {owner : Role → Option Frame}

/-- A managed frame is in exactly one place. -/
theorem Owned.exactly [DecidableEq Frame] (owned : Owned managed free owner) {frame : Frame} (known : managed frame) :
    free.count frame = 1 ∧ (∀ role, owner role ≠ some frame) ∨ frame ∉ free ∧ ∃! role, owner role = some frame := by
  rcases owned.cover frame known with listed | ⟨role, held⟩
  · refine Or.inl ⟨List.count_eq_one_of_mem owned.nodup listed, fun role held => ?_⟩
    exact owned.apart role frame held listed
  · refine Or.inr ⟨owned.apart role frame held, role, held, fun other same => ?_⟩
    exact owned.single other role frame same held

variable [DecidableEq Role]

/-- The first free frame gets a role. -/
theorem Owned.take {frame : Frame} {rest : List Frame} (owned : Owned managed (frame :: rest) owner) {role : Role}
    (vacant : owner role = none) : Owned managed rest (Function.update owner role (some frame)) := by
  have fresh := List.nodup_cons.mp owned.nodup
  have unheld (other : Role) : owner other ≠ some frame := fun held => owned.apart other frame held List.mem_cons_self
  constructor
  · exact fresh.2
  · exact fun other listed => owned.freeManaged other (List.mem_cons_of_mem frame listed)
  · intro other known held
    by_cases own : other = role
    · subst own
      rw [Function.update_self, Option.some.injEq] at held
      subst held
      exact owned.freeManaged frame List.mem_cons_self
    · rw [Function.update_of_ne own] at held
      exact owned.roleManaged other known held
  · intro other known held
    by_cases own : other = role
    · subst own
      rw [Function.update_self, Option.some.injEq] at held
      subst held
      exact fresh.1
    · rw [Function.update_of_ne own] at held
      exact fun listed => owned.apart other known held (List.mem_cons_of_mem frame listed)
  · intro first second known held same
    by_cases ownFirst : first = role <;> by_cases ownSecond : second = role
    · rw [ownFirst, ownSecond]
    · subst ownFirst
      rw [Function.update_self, Option.some.injEq] at held
      rw [Function.update_of_ne ownSecond, ← held] at same
      exact absurd same (unheld second)
    · subst ownSecond
      rw [Function.update_self, Option.some.injEq] at same
      rw [Function.update_of_ne ownFirst, ← same] at held
      exact absurd held (unheld first)
    · rw [Function.update_of_ne ownFirst] at held
      rw [Function.update_of_ne ownSecond] at same
      exact owned.single first second known held same
  · intro known isManaged
    rcases owned.cover known isManaged with listed | ⟨other, held⟩
    · rcases List.mem_cons.mp listed with rfl | later
      · exact Or.inr ⟨role, Function.update_self ..⟩
      · exact Or.inl later
    · have own : other ≠ role := by
        rintro rfl
        simp [vacant] at held
      exact Or.inr ⟨other, by rw [Function.update_of_ne own, held]⟩

/-- A frame loses its role and becomes free. -/
theorem Owned.give {frame : Frame} (owned : Owned managed free owner) {role : Role} (held : owner role = some frame) :
    Owned managed (frame :: free) (Function.update owner role none) := by
  have keep {other : Role} {known : Frame} (still : Function.update owner role none other = some known) :
      other ≠ role ∧ owner other = some known := by
    have own : other ≠ role := by
      rintro rfl
      simp at still
    exact ⟨own, by rwa [Function.update_of_ne own] at still⟩
  constructor
  · exact List.nodup_cons.mpr ⟨owned.apart role frame held, owned.nodup⟩
  · intro known listed
    rcases List.mem_cons.mp listed with rfl | later
    · exact owned.roleManaged role known held
    · exact owned.freeManaged known later
  · exact fun other known still => owned.roleManaged other known (keep still).2
  · intro other known still listed
    rcases List.mem_cons.mp listed with rfl | later
    · exact (keep still).1 (owned.single other role known (keep still).2 held)
    · exact owned.apart other known (keep still).2 later
  · exact fun first second known left right => owned.single first second known (keep left).2 (keep right).2
  · intro known isManaged
    rcases owned.cover known isManaged with listed | ⟨other, still⟩
    · exact Or.inl (List.mem_cons_of_mem frame listed)
    · by_cases own : other = role
      · subst own
        rw [held, Option.some.injEq] at still
        exact Or.inl (by rw [still]; exact List.mem_cons_self)
      · exact Or.inr ⟨other, by rw [Function.update_of_ne own, still]⟩

/-- A frame changes its role. -/
theorem Owned.move {frame : Frame} (owned : Owned managed free owner) {role next : Role}
    (held : owner role = some frame) (vacant : owner next = none) :
    Owned managed free (Function.update (Function.update owner role none) next (some frame)) := by
  apply (owned.give held).take
  by_cases own : next = role
  · subst own
    exact Function.update_self ..
  · rw [Function.update_of_ne own, vacant]

end Partition
