import Mathlib.Algebra.BigOperators.Fin
import Mathlib.Logic.Function.Basic

namespace Slots

variable {K V : Type}

/-- A row of slots, each of which is empty or has a key with its value. -/
structure Table (K V : Type) where
  slot : Nat → Option (K × V)
  count : Nat

/-- A call that changes the row, and the key it is about. -/
inductive Call (K V : Type) where
  | insert (key : K) (value : V)
  | erase (key : K)

def Call.key : Call K V → K
  | .insert key _ => key
  | .erase key => key

namespace Table

/-- A slot of the row has the key with the value. -/
def Holds (t : Table K V) (k : K) (v : V) : Prop := ∃ j, j < t.count ∧ t.slot j = some (k, v)

/-- No key has two slots. -/
def Unique (t : Table K V) : Prop :=
  ∀ i j k v w, i < t.count → j < t.count → t.slot i = some (k, v) → t.slot j = some (k, w) → i = j

/-- The value of the first slot with the key. -/
def find [DecidableEq K] (t : Table K V) (k : K) : Option V :=
  (List.range t.count).findSome? fun j => (t.slot j).bind fun entry => if entry.1 = k then some entry.2 else none

/-- A slot has a new entry, and the row reaches to it. -/
def put (t : Table K V) (j : Nat) (entry : Option (K × V)) : Table K V :=
  { slot := Function.update t.slot j entry, count := max t.count (j + 1) }

/-- The first place for an entry is the first empty slot, or the one behind the row. -/
structure Free (t : Table K V) (j : Nat) : Prop where
  inside : j ≤ t.count
  empty : j < t.count → t.slot j = none
  first : ∀ i, i < j → t.slot i ≠ none

/-- A key is inserted when it is absent and erased when it is present; other calls are refused. -/
inductive Step : Table K V → Call K V → Bool → Table K V → Prop
  | taken {t key value old} : t.Holds key old → Step t (.insert key value) false t
  | insert {t key value j} : (∀ old, ¬t.Holds key old) → t.Free j → Step t (.insert key value) true (t.put j (some (key, value)))
  | absent {t key} : (∀ old, ¬t.Holds key old) → Step t (.erase key) false t
  | erase {t key old j} : j < t.count → t.slot j = some (key, old) → Step t (.erase key) true (t.put j none)

/-- A run with its calls, the last one first, and whether they were done. -/
inductive Run : Table K V → List (Call K V × Bool) → Table K V → Prop
  | nil {t} : Run t [] t
  | call {t log mid call done after} : Run t log mid → Step mid call done after → Run t ((call, done) :: log) after

variable {t : Table K V} {i j : Nat} {k key : K} {v value : V} {entry : Option (K × V)}

theorem find_eq_none_iff [DecidableEq K] (t : Table K V) (k : K) : t.find k = none ↔ ∀ v, ¬t.Holds k v := by
  rw [find, List.findSome?_eq_none_iff]
  constructor
  · rintro absent v ⟨j, inside, held⟩
    have missed := absent j (List.mem_range.mpr inside)
    rw [held, Option.bind_some, if_pos rfl] at missed
    contradiction
  · intro absent j member
    cases held : t.slot j with
    | none => rfl
    | some entry =>
        rw [Option.bind_some, if_neg]
        rintro rfl
        exact absent entry.2 ⟨j, List.mem_range.mp member, held⟩

/-- A row without double keys has the value that is found. -/
theorem find_eq_some_iff [DecidableEq K] (unique : t.Unique) : t.find k = some v ↔ t.Holds k v := by
  constructor
  · intro found
    obtain ⟨j, member, value⟩ := List.exists_of_findSome?_eq_some found
    obtain ⟨entry, held, tested⟩ := Option.bind_eq_some_iff.mp value
    split at tested
    · rename_i same
      cases tested
      exact ⟨j, List.mem_range.mp member, by rw [held, ← same]⟩
    · contradiction
  · rintro ⟨j, inside, held⟩
    cases found : t.find k with
    | none => exact absurd ⟨j, inside, held⟩ ((find_eq_none_iff t k).mp found v)
    | some w =>
        obtain ⟨i, member, value⟩ := List.exists_of_findSome?_eq_some found
        obtain ⟨entry, other, tested⟩ := Option.bind_eq_some_iff.mp value
        split at tested
        · rename_i same
          cases tested
          have place := unique i j k entry.2 v (List.mem_range.mp member) inside (by rw [other, ← same]) held
          rw [← place, other] at held
          cases held
          rfl
        · contradiction

theorem slot_put (t : Table K V) (j : Nat) (entry : Option (K × V)) : (t.put j entry).slot j = entry := Function.update_self ..

theorem slot_put_of_ne (t : Table K V) (entry : Option (K × V)) (apart : i ≠ j) : (t.put j entry).slot i = t.slot i :=
  Function.update_of_ne apart ..

/-- The row reaches at most one slot further. -/
theorem Free.count (free : t.Free j) (i : Nat) : i < (t.put j entry).count ↔ i < t.count ∨ i = j := by
  have inside := free.inside
  show i < max t.count (j + 1) ↔ i < t.count ∨ i = j
  omega

theorem count_put (inside : j < t.count) : (t.put j entry).count = t.count := by
  show max t.count (j + 1) = t.count
  omega

/-- The entries that are held after an insertion. -/
theorem Free.holds (free : t.Free j) : (t.put j (some (key, value))).Holds k v ↔ (k = key ∧ v = value) ∨ t.Holds k v := by
  constructor
  · rintro ⟨i, inside, held⟩
    by_cases own : i = j
    · rw [own, slot_put] at held
      cases held
      exact Or.inl ⟨rfl, rfl⟩
    · rw [slot_put_of_ne t _ own] at held
      exact Or.inr ⟨i, ((free.count i).mp inside).resolve_right own, held⟩
  · rintro (⟨rfl, rfl⟩ | ⟨i, inside, held⟩)
    · exact ⟨j, (free.count j).mpr (Or.inr rfl), slot_put ..⟩
    · have apart : i ≠ j := by
        rintro rfl
        rw [free.empty inside] at held
        contradiction
      exact ⟨i, (free.count i).mpr (Or.inl inside), (slot_put_of_ne t _ apart).trans held⟩

theorem Free.unique (free : t.Free j) (absent : ∀ old, ¬t.Holds key old) (unique : t.Unique) : (t.put j (some (key, value))).Unique := by
  intro i x k v w first second held other
  rw [free.count] at first second
  by_cases own : i = j
  · by_cases too : x = j
    · rw [own, too]
    · rw [own, slot_put] at held
      rw [slot_put_of_ne t _ too] at other
      cases held
      exact absurd ⟨x, second.resolve_right too, other⟩ (absent w)
  · rw [slot_put_of_ne t _ own] at held
    by_cases too : x = j
    · rw [too, slot_put] at other
      cases other
      exact absurd ⟨i, first.resolve_right own, held⟩ (absent v)
    · rw [slot_put_of_ne t _ too] at other
      exact unique i x k v w (first.resolve_right own) (second.resolve_right too) held other

/-- The entries that are held after a slot is cleared. -/
theorem holds_erase (unique : t.Unique) (inside : j < t.count) (held : t.slot j = some (key, value)) :
    (t.put j none).Holds k v ↔ k ≠ key ∧ t.Holds k v := by
  constructor
  · rintro ⟨i, low, other⟩
    rw [count_put inside] at low
    by_cases own : i = j
    · rw [own, slot_put] at other
      contradiction
    · rw [slot_put_of_ne t _ own] at other
      refine ⟨?_, i, low, other⟩
      rintro rfl
      exact own (unique i j k v value low inside other held)
  · rintro ⟨apart, i, low, other⟩
    have place : i ≠ j := by
      rintro rfl
      rw [held] at other
      cases other
      exact apart rfl
    exact ⟨i, by rwa [count_put inside], (slot_put_of_ne t _ place).trans other⟩

theorem Unique.erase (unique : t.Unique) (inside : j < t.count) : (t.put j none).Unique := by
  intro i x k v w first second held other
  rw [count_put inside] at first second
  have apart (y : Nat) (u : V) (full : (t.put j none).slot y = some (k, u)) : t.slot y = some (k, u) := by
    by_cases own : y = j
    · rw [own, slot_put] at full
      contradiction
    · rwa [slot_put_of_ne t _ own] at full
  exact unique i x k v w first second (apart i v held) (apart x w other)

end Table

/-- What a call that is done leaves under a key, where it changes it. -/
def Call.effect [DecidableEq K] (k : K) : Call K V → Option (Option V)
  | .insert key value => if key = k then some (some value) else none
  | .erase key => if key = k then some none else none

/-- What the last call on a key that was done leaves there. -/
def last [DecidableEq K] (k : K) (log : List (Call K V × Bool)) : Option (Option V) :=
  log.findSome? fun entry => if entry.2 then entry.1.effect k else none

namespace Table

variable {t mid after : Table K V} {i j : Nat} {k key : K} {v value : V} {call : Call K V} {done : Bool} {log : List (Call K V × Bool)}

theorem Step.unique (step : Step t call done after) (unique : t.Unique) : after.Unique := by
  cases step with
  | taken | absent => exact unique
  | insert absent free => exact free.unique absent unique
  | erase inside held => exact unique.erase inside

/-- A call changes what is found under its own key. -/
theorem Step.find [DecidableEq K] (step : Step t call done after) (unique : t.Unique) (k : K) :
    after.find k = ((if done then call.effect k else none).getD (t.find k)) := by
  have kept := step.unique unique
  cases step with
  | taken | absent => rfl
  | @insert key value j absent free =>
      ext v
      rw [find_eq_some_iff kept, free.holds, if_pos rfl, Call.effect]
      split
      · rename_i same
        rw [Option.getD_some, Option.some.injEq, ← same]
        constructor
        · rintro (⟨-, rfl⟩ | held)
          · rfl
          · exact absurd held (absent v)
        · rintro rfl
          exact Or.inl ⟨rfl, rfl⟩
      · rename_i other
        rw [Option.getD_none, find_eq_some_iff unique]
        exact ⟨fun either => either.resolve_left fun own => other own.1.symm, Or.inr⟩
  | @erase key old j inside held =>
      ext v
      rw [find_eq_some_iff kept, holds_erase unique inside held, if_pos rfl, Call.effect]
      split
      · rename_i same
        rw [Option.getD_some]
        exact ⟨fun both => absurd same.symm both.1, fun absurdity => by contradiction⟩
      · rename_i other
        rw [Option.getD_none, find_eq_some_iff unique]
        exact ⟨And.right, fun found => ⟨fun same => other same.symm, found⟩⟩

/-- The entries of other keys keep their slots. -/
theorem Step.kept (step : Step t call done after) (inside : i < t.count) (held : t.slot i = some (k, v)) (other : k ≠ call.key) :
    i < after.count ∧ after.slot i = some (k, v) := by
  cases step with
  | taken | absent => exact ⟨inside, held⟩
  | @insert key value j absent free =>
      have apart : i ≠ j := by
        rintro rfl
        rw [free.empty inside] at held
        contradiction
      exact ⟨(free.count i).mpr (Or.inl inside), (slot_put_of_ne t _ apart).trans held⟩
  | @erase key old j low own =>
      have apart : i ≠ j := by
        rintro rfl
        rw [held] at own
        cases own
        exact other rfl
      exact ⟨by rwa [count_put low], (slot_put_of_ne t _ apart).trans held⟩

/-- The row only grows when no slot of it is empty. -/
theorem Step.full (step : Step t call done after) (grows : after.count ≠ t.count) (inside : i < t.count) : t.slot i ≠ none := by
  cases step with
  | taken | absent => exact absurd rfl grows
  | @insert key value j absent free =>
      have above : t.count ≤ j := by
        by_contra low
        exact grows (count_put (Nat.not_le.mp low))
      exact free.first i (Nat.lt_of_lt_of_le inside above)
  | erase low own => exact absurd (count_put low) grows

theorem Run.unique (run : Run t log after) (unique : t.Unique) : after.Unique := by
  induction run with
  | nil => exact unique
  | call before step ih => exact step.unique ih

/-- A row is a map: what is found under a key is what the last call on it that was done left there. -/
theorem Run.find [DecidableEq K] (run : Run t log after) (unique : t.Unique) (k : K) : after.find k = (last k log).getD (t.find k) := by
  induction run with
  | nil => rfl
  | @call log mid call done after before step ih =>
      rw [step.find (before.unique unique), ih]
      simp only [last, List.findSome?_cons]
      cases (if done then call.effect k else none) with
      | none => rfl
      | some left => rfl

end Table

end Slots
