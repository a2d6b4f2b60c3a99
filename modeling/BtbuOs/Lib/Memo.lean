import Mathlib.Algebra.BigOperators.Fin
import Mathlib.Data.List.Basic
import Mathlib.Logic.Function.Basic
import Mathlib.Tactic.Common

namespace Memo

variable {Slot Key Value : Type} [DecidableEq Key]

/-- A slot is empty, waits for the value of its key or holds it. -/
abbrev Table (Slot Key Value : Type) := Slot → Option (Key × Option Value)

/-- The value that the last report about the key gave. -/
def latest (reports : List (Key × Value)) (key : Key) : Option Value :=
  (reports.reverse.find? fun report => report.1 = key).map Prod.snd

/-- No two slots are for the same key. -/
def Distinct (table : Table Slot Key Value) : Prop :=
  ∀ a b key x y, table a = some (key, x) → table b = some (key, y) → a = b

/-- Every value of the table is the one reported last. -/
def Fresh (table : Table Slot Key Value) (reports : List (Key × Value)) : Prop :=
  ∀ slot key value, table slot = some (key, some value) → latest reports key = some value

structure Consistent (table : Table Slot Key Value) (reports : List (Key × Value)) : Prop where
  distinct : Distinct table
  fresh : Fresh table reports

variable {table after : Table Slot Key Value} {reports : List (Key × Value)} {slot : Slot} {key other : Key} {value : Value}

/-- The last report is one of the reports. -/
theorem latest_mem {reports : List (Key × Value)} {key : Key} {value : Value} (told : latest reports key = some value) : (key, value) ∈ reports := by
  obtain ⟨report, found, rfl⟩ := Option.map_eq_some_iff.mp told
  have own : report.1 = key := by simpa using List.find?_some found
  rw [← own]
  exact List.mem_reverse.mp (List.mem_of_find?_eq_some found)

@[simp] theorem latest_append_self (reports : List (Key × Value)) (key : Key) (value : Value) :
    latest (reports ++ [(key, value)]) key = some value := by
  rw [latest, List.reverse_append, List.reverse_singleton, List.singleton_append, List.find?_cons_of_pos (by simp)]
  rfl

theorem latest_append_of_ne (reports : List (Key × Value)) (value : Value) (apart : key ≠ other) :
    latest (reports ++ [(key, value)]) other = latest reports other := by
  rw [latest, List.reverse_append, List.reverse_singleton, List.singleton_append, List.find?_cons_of_neg (by simpa using apart)]
  rfl

/-- The empty table is consistent. -/
theorem Consistent.empty (reports : List (Key × Value)) : Consistent (fun _ : Slot => none) reports := by
  constructor
  · intro a b key x y first
    cases first
  · intro slot key value held
    cases held

/-- Slots may be emptied. -/
theorem Consistent.shrink (sound : Consistent table reports) (kept : ∀ slot, after slot = table slot ∨ after slot = none) :
    Consistent after reports := by
  have back (slot : Slot) (entry : Key × Option Value) (held : after slot = some entry) : table slot = some entry := by
    rcases kept slot with same | gone
    · rw [← same, held]
    · rw [gone] at held
      cases held
  constructor
  · intro a b key x y first second
    exact sound.distinct a b key x y (back a _ first) (back b _ second)
  · intro slot key value held
    exact sound.fresh slot key value (back slot _ held)

/-- A report about a key that no slot is for changes no slot. -/
theorem Consistent.ignore (sound : Consistent table reports) (absent : ∀ slot x, table slot ≠ some (key, x)) (value : Value) :
    Consistent table (reports ++ [(key, value)]) := by
  constructor
  · exact sound.distinct
  · intro slot shared y held
    have apart : key ≠ shared := by
      rintro rfl
      exact absent slot (some y) held
    rw [latest_append_of_ne reports value apart]
    exact sound.fresh slot shared y held

variable [DecidableEq Slot]

/-- A slot becomes the one of a key that no slot is for. -/
theorem Consistent.place (sound : Consistent table reports) (absent : ∀ slot x, table slot ≠ some (key, x)) (slot : Slot)
    {held : Option Value} (reported : ∀ value, held = some value → latest reports key = some value) :
    Consistent (Function.update table slot (some (key, held))) reports := by
  constructor
  · intro a b shared x y first second
    by_cases left : a = slot
    · by_cases right : b = slot
      · rw [left, right]
      · rw [left, Function.update_self] at first
        rw [Function.update_of_ne right] at second
        cases first
        exact absurd second (absent b y)
    · rw [Function.update_of_ne left] at first
      by_cases right : b = slot
      · rw [right, Function.update_self] at second
        cases second
        exact absurd first (absent a x)
      · rw [Function.update_of_ne right] at second
        exact sound.distinct a b shared x y first second
  · intro a shared value entry
    by_cases own : a = slot
    · rw [own, Function.update_self] at entry
      cases entry
      exact reported value rfl
    · rw [Function.update_of_ne own] at entry
      exact sound.fresh a shared value entry

/-- A report goes to the slot of its key. -/
theorem Consistent.learn (sound : Consistent table reports) {x : Option Value} (held : table slot = some (key, x)) (value : Value) :
    Consistent (Function.update table slot (some (key, some value))) (reports ++ [(key, value)]) := by
  have keys (a : Slot) (shared : Key) (y : Option Value)
      (entry : Function.update table slot (some (key, some value)) a = some (shared, y)) : ∃ z, table a = some (shared, z) := by
    by_cases own : a = slot
    · rw [own, Function.update_self] at entry
      cases entry
      exact ⟨x, own ▸ held⟩
    · rw [Function.update_of_ne own] at entry
      exact ⟨y, entry⟩
  constructor
  · intro a b shared y z first second
    obtain ⟨u, left⟩ := keys a shared y first
    obtain ⟨v, right⟩ := keys b shared z second
    exact sound.distinct a b shared u v left right
  · intro a shared y entry
    by_cases own : a = slot
    · rw [own, Function.update_self] at entry
      cases entry
      exact latest_append_self reports key value
    · rw [Function.update_of_ne own] at entry
      have apart : key ≠ shared := by
        rintro rfl
        exact own (sound.distinct a slot key (some y) x entry held)
      rw [latest_append_of_ne reports value apart]
      exact sound.fresh a shared y entry

end Memo
