import Mathlib.Algebra.BigOperators.Fin
import Mathlib.Data.List.TakeWhile
import Mathlib.Tactic.Common

namespace Cursor

variable {α β : Type}

/-- The loop `while (test(*p)) step(*p++)`. A pointer is the rest of its array, behind which a read has no defined result. -/
def scan (test : α → Bool) (step : β → α → β) : β → List α → Option (β × List α)
  | _, [] => none
  | b, c :: p => if test c then scan test step (step b c) p else some (b, c :: p)

/-- The loop `while (p < end && test(*p)) step(*p++)`. The element at `end` is the last one of the array. -/
def scanWithin (test : α → Bool) (step : β → α → β) : β → List α → β × List α
  | b, c :: d :: p => if test c then scanWithin test step (step b c) (d :: p) else (b, c :: d :: p)
  | b, p => (b, p)

def skip (test : α → Bool) (p : List α) : Option (List α) := (scan test (fun b _ => b) () p).map Prod.snd

def skipWithin (test : α → Bool) (p : List α) : List α := (scanWithin test (fun b _ => b) () p).2

variable {test : α → Bool} {step : β → α → β} {s p : List α} {c z : α}

/-- The loop ends at the first element that fails the test. -/
theorem scan_stop (b : β) (stop : test z = false) :
    scan test step b (s ++ z :: p) = some ((s.takeWhile test).foldl step b, s.dropWhile test ++ z :: p) := by
  induction s generalizing b with
  | nil => exact if_neg (by rw [stop]; exact Bool.false_ne_true)
  | cons c s ih =>
      rw [List.cons_append, scan, List.takeWhile_cons, List.dropWhile_cons]
      split
      · exact ih (step b c)
      · rfl

theorem skip_stop (stop : test z = false) : skip test (s ++ z :: p) = some (s.dropWhile test ++ z :: p) := by
  rw [skip, scan_stop () stop]
  rfl

/-- The loop ends at its end at the latest. -/
theorem scanWithin_eq (b : β) (s : List α) (z : α) :
    scanWithin test step b (s ++ [z]) = ((s.takeWhile test).foldl step b, s.dropWhile test ++ [z]) := by
  induction s generalizing b with
  | nil => rfl
  | cons c s ih =>
      rw [List.takeWhile_cons, List.dropWhile_cons]
      obtain ⟨d, p, shape⟩ : ∃ d p, s ++ [z] = d :: p := by
        cases s with
        | nil => exact ⟨z, [], rfl⟩
        | cons d s => exact ⟨d, s ++ [z], rfl⟩
      rw [List.cons_append, shape, scanWithin, ← shape]
      split
      · exact ih (step b c)
      · rfl

theorem skipWithin_eq (s : List α) (z : α) : skipWithin test (s ++ [z]) = s.dropWhile test ++ [z] := by
  rw [skipWithin, scanWithin_eq]

/-- A part whose elements pass the test ends before an element that fails it. -/
theorem takeWhile_stop (stop : test z = false) : (s ++ z :: p).takeWhile test = s.takeWhile test := by
  induction s with
  | nil => exact List.takeWhile_cons_of_neg (by rw [stop]; exact Bool.false_ne_true)
  | cons c s ih =>
      rw [List.cons_append, List.takeWhile_cons, List.takeWhile_cons, ih]

theorem dropWhile_stop (stop : test z = false) : (s ++ z :: p).dropWhile test = s.dropWhile test ++ z :: p := by
  induction s with
  | nil => exact List.dropWhile_cons_of_neg (by rw [stop]; exact Bool.false_ne_true)
  | cons c s ih =>
      rw [List.cons_append, List.dropWhile_cons, List.dropWhile_cons, ih]
      split <;> rfl

/-- All elements before the first one that fails the test are passed. -/
theorem dropWhile_passed (passed : ∀ c ∈ s, test c = true) (stop : test z = false) : (s ++ z :: p).dropWhile test = z :: p := by
  rw [List.dropWhile_append_of_pos passed, List.dropWhile_cons_of_neg (by rw [stop]; exact Bool.false_ne_true)]

/-- Two words in front of the first separator are compared with the separator. -/
theorem prefix_separated {a b : List α} (first : z ∉ a) (second : z ∉ b) : a ++ [z] <+: b ++ z :: p ↔ a = b := by
  induction a generalizing b with
  | nil =>
      cases b with
      | nil => simp
      | cons d b =>
          have different : z ≠ d := fun same => second (same ▸ List.mem_cons_self)
          simp [different]
  | cons c a ih =>
      rw [List.mem_cons, not_or] at first
      cases b with
      | nil => simp [Ne.symm first.1]
      | cons d b =>
          rw [List.mem_cons, not_or] at second
          rw [List.cons_append, List.cons_append, List.cons_prefix_cons, ih first.2 second.2, List.cons.injEq]

/-- The last element of a kind decides what a loop leaves. -/
theorem foldl_last {γ : Type} (kind : α → Bool) (value : α → γ) (start : γ) (s : List α) :
    s.foldl (fun old c => if kind c then value c else old) start = ((s.filter kind).getLast?.map value).getD start := by
  induction s generalizing start with
  | nil => rfl
  | cons c s ih =>
      rw [List.foldl_cons, ih, List.filter_cons]
      split
      · cases s.filter kind with
        | nil => rfl
        | cons d more =>
            rw [List.getLast?_cons_cons, List.getLast?_eq_some_getLast (List.cons_ne_nil d more)]
            rfl
      · rfl

end Cursor
