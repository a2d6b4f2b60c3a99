import BtbuOs.Lib.Text
import Mathlib.Data.Nat.Digits.Lemmas

namespace Decimal

open Bytes

/-- The character of a digit. -/
def digit (d : Nat) : Byte := chr '0' + BitVec.ofNat 8 d

def isDigit (c : Byte) : Bool := chr '0' ≤ c && c ≤ chr '9'

/-- The number that a digit shows. -/
def digitValue (c : Byte) : Nat := (c - chr '0').toNat

/-- The decimal text of a number, without leading zeros. -/
def text (n : Nat) : List Byte := if n = 0 then [chr '0'] else ((Nat.digits 10 n).map digit).reverse

/-- The number that digits show behind those of another one. -/
def appended (n : Nat) (s : List Byte) : Nat := s.foldl (fun n c => n * 10 + digitValue c) n

def value (s : List Byte) : Nat := appended 0 s

/-- A digit is put behind a signed number of a width. -/
def wrapped (width : Nat) (n : Int) (c : Byte) : Int := (n * 10 + ((c.toNat : Int) - 48)).bmod (2 ^ width)

/-- A loop over the digits at the start of a string. -/
def scan {α : Type} (step : α → Byte → α) : α → List Byte → α × List Byte
  | a, [] => (a, [])
  | a, c :: s => if isDigit c then scan step (step a c) s else (a, c :: s)

variable {n d k : Nat} {c : Byte} {s rest : List Byte}

theorem isDigit_iff : isDigit c = true ↔ 48 ≤ c.toNat ∧ c.toNat ≤ 57 := by
  rw [isDigit, Bool.and_eq_true, decide_eq_true_eq, decide_eq_true_eq, BitVec.le_def, BitVec.le_def]
  rfl

theorem digit_toNat (small : d < 10) : (digit d).toNat = 48 + d := by
  rw [digit, BitVec.toNat_add, BitVec.toNat_ofNat]
  change (48 + d % 256) % 256 = 48 + d
  omega

theorem isDigit_digit (small : d < 10) : isDigit (digit d) = true := by
  rw [isDigit_iff, digit_toNat small]
  omega

theorem digitValue_eq (low : 48 ≤ c.toNat) : digitValue c = c.toNat - 48 := by
  have order : chr '0' ≤ c := BitVec.le_def.mpr low
  rw [digitValue, BitVec.toNat_sub_of_le order]
  rfl

@[simp] theorem digitValue_digit (small : d < 10) : digitValue (digit d) = d := by
  have code := digit_toNat small
  rw [digitValue_eq (by omega), code]
  exact Nat.add_sub_cancel_left 48 d

/-- The value of a digit is one of ten. -/
theorem digitValue_lt (here : isDigit c = true) : digitValue c < 10 := by
  obtain ⟨low, high⟩ := isDigit_iff.mp here
  rw [digitValue_eq low]
  omega

theorem text_digits (n : Nat) : ∀ c ∈ text n, isDigit c = true := by
  intro c listed
  rw [text] at listed
  split at listed
  · rw [List.mem_singleton.mp listed]
    rfl
  · rw [List.mem_reverse] at listed
    obtain ⟨d, member, rfl⟩ := List.mem_map.mp listed
    exact isDigit_digit (Nat.digits_lt_base (by decide) member)

theorem text_ne_nil (n : Nat) : text n ≠ [] := by
  rw [text]
  split
  · exact List.cons_ne_nil _ _
  · rename_i positive
    rw [ne_eq, List.reverse_eq_nil_iff, List.map_eq_nil_iff, Nat.digits_eq_nil_iff_eq_zero]
    exact positive

/-- A text has at most as many characters as the bound of its number has zeros. -/
theorem length_text_le (positive : 0 < k) : (text n).length ≤ k ↔ n < 10 ^ k := by
  rw [text]
  split
  · rename_i zero
    rw [zero, List.length_singleton]
    exact iff_of_true positive (Nat.pow_pos (by decide))
  · rw [List.length_reverse, List.length_map]
    exact Nat.digits_length_le_iff (by decide) n

theorem appended_append (n : Nat) (first second : List Byte) :
    appended n (first ++ second) = appended (appended n first) second := List.foldl_append ..

/-- More digits never show a smaller number. -/
theorem le_appended (n : Nat) (s : List Byte) : n ≤ appended n s := by
  induction s generalizing n with
  | nil => exact Nat.le_refl n
  | cons c s ih =>
      have next := ih (n * 10 + digitValue c)
      have grown : n ≤ n * 10 + digitValue c := by omega
      exact Nat.le_trans grown next

/-- A signed number that fits is not wrapped. -/
theorem foldl_wrapped {width : Nat} (digits : ∀ c ∈ s, isDigit c = true) (small : 2 * appended n s < 2 ^ width) :
    s.foldl (wrapped width) (n : Int) = (appended n s : Nat) := by
  induction s generalizing n with
  | nil => rfl
  | cons c s ih =>
      have low := (isDigit_iff.mp (digits c List.mem_cons_self)).1
      have next : appended n (c :: s) = appended (n * 10 + digitValue c) s := rfl
      rw [next] at small ⊢
      have below := le_appended (n * 10 + digitValue c) s
      have exact : wrapped width n c = (n * 10 + digitValue c : Nat) := by
        have value := digitValue_eq low
        have same : (n : Int) * 10 + ((c.toNat : Int) - 48) = (n * 10 + digitValue c : Nat) := by omega
        have bound : 2 * ((n * 10 + digitValue c : Nat) : Int) < (2 ^ width : Nat) := by
          exact_mod_cast Nat.lt_of_le_of_lt (Nat.mul_le_mul_left 2 below) small
        rw [wrapped, same]
        exact Int.bmod_eq_of_le (by omega) (by omega)
      rw [List.foldl_cons, exact]
      exact ih (fun d listed => digits d (List.mem_cons_of_mem c listed)) small

/-- Digits with the lowest one last show their number. -/
theorem value_reverse (digits : List Nat) (small : ∀ d ∈ digits, d < 10) :
    value (digits.map digit).reverse = Nat.ofDigits 10 digits := by
  induction digits with
  | nil => rfl
  | cons d digits ih =>
      have head := small d List.mem_cons_self
      have rest := ih fun e listed => small e (List.mem_cons_of_mem d listed)
      rw [List.map_cons, List.reverse_cons, value, appended_append]
      rw [value] at rest
      rw [rest, Nat.ofDigits_cons]
      change Nat.ofDigits 10 digits * 10 + digitValue (digit d) = d + 10 * Nat.ofDigits 10 digits
      rw [digitValue_digit head]
      omega

/-- A text shows its number. -/
theorem value_text (n : Nat) : value (text n) = n := by
  rw [text]
  split
  · rename_i zero
    rw [zero]
    rfl
  · rw [value_reverse _ fun d listed => Nat.digits_lt_base (by decide) listed, Nat.ofDigits_digits]

section scan

variable {α β : Type} {step : α → Byte → α}

/-- The loop reads all digits up to the first other character. -/
theorem scan_append (a : α) (digits : ∀ c ∈ s, isDigit c = true) (stops : ∀ c ∈ rest.head?, isDigit c = false) :
    scan step a (s ++ rest) = (s.foldl step a, rest) := by
  induction s generalizing a with
  | nil =>
      cases rest with
      | nil => rfl
      | cons c rest =>
          have stop := stops c rfl
          rw [List.nil_append, scan, stop, if_neg Bool.false_ne_true]
          rfl
  | cons c s ih =>
      rw [List.cons_append, scan, if_pos (digits c List.mem_cons_self)]
      exact ih (step a c) fun d listed => digits d (List.mem_cons_of_mem c listed)

/-- The loop splits the string behind its first digits. -/
theorem scan_eq (a : α) (s : List Byte) : scan step a s = ((s.takeWhile isDigit).foldl step a, s.dropWhile isDigit) := by
  induction s generalizing a with
  | nil => rfl
  | cons c s ih =>
      rw [scan, List.takeWhile_cons, List.dropWhile_cons]
      split
      · exact ih (step a c)
      · rfl

theorem scan_left (a : α) (s : List Byte) : (scan step a s).2.length ≤ s.length := by
  rw [scan_eq]
  exact (List.dropWhile_sublist isDigit).length_le

/-- A loop in another representation of its numbers computes the same. -/
theorem foldl_image (image : α → β) {other : β → Byte → β} (a : α)
    (same : ∀ a c, c ∈ s → image (step a c) = other (image a) c) : image (s.foldl step a) = s.foldl other (image a) := by
  induction s generalizing a with
  | nil => rfl
  | cons c s ih =>
      rw [List.foldl_cons, List.foldl_cons, ih _ fun a d listed => same a d (List.mem_cons_of_mem c listed),
        same a c List.mem_cons_self]

end scan

end Decimal
