import Mathlib.Algebra.BigOperators.Fin
import Mathlib.Logic.Basic
import Mathlib.Tactic.Common

namespace Machine

/-- A composed computation succeeds when both of its parts do. -/
theorem bind_ok {Error First Second : Type} {first : Except Error First} {next : First → Except Error Second}
    {result : Second} : (first >>= next) = .ok result ↔ ∃ value, first = .ok value ∧ next value = .ok result := by
  cases first with
  | error error => simp [bind, Except.bind]
  | ok value => simp [bind, Except.bind]

/-- A composed computation fails when one of its parts does. -/
theorem bind_error {Error First Second : Type} {first : Except Error First} {next : First → Except Error Second}
    {error : Error} : (first >>= next) = .error error ↔ first = .error error ∨ ∃ value, first = .ok value ∧ next value = .error error := by
  cases first with
  | error other => simp [bind, Except.bind]
  | ok value => simp [bind, Except.bind]

/-- A value that is left when the error is dropped is the result. -/
theorem toOption_some {Error Value : Type} {result : Except Error Value} {value : Value} :
    result.toOption = some value ↔ result = .ok value := by
  cases result with
  | error error => simp [Except.toOption]
  | ok answer => simp [Except.toOption]

/-- What every round of a loop keeps holds for the whole list of items when the loop completes. -/
theorem foldlM_ok {Error State Item : Type} {round : State → Item → Except Error State}
    (property : List Item → State → Prop)
    (kept : ∀ done item state after, property done state → round state item = .ok after → property (done ++ [item]) after)
    (items : List Item) {done : List Item} {state final : State} (base : property done state)
    (completed : items.foldlM round state = .ok final) : property (done ++ items) final := by
  induction items generalizing done state with
  | nil =>
      simp only [List.foldlM_nil, pure, Except.pure, Except.ok.injEq] at completed
      subst completed
      simpa using base
  | cons item rest ih =>
      rw [List.foldlM_cons] at completed
      obtain ⟨mid, first, later⟩ := bind_ok.mp completed
      have last := ih (kept done item state mid base first) later
      rwa [List.append_assoc] at last

/-- A loop whose every round succeeds and keeps a property completes with the property of the whole list. -/
theorem foldlM_total {Error State Item : Type} {round : State → Item → Except Error State} (property : List Item → State → Prop)
    (items : List Item) {start : State} (base : property [] start)
    (kept : ∀ done item rest state, items = done ++ item :: rest → property done state →
      ∃ after, round state item = .ok after ∧ property (done ++ [item]) after) :
    ∃ final, items.foldlM round start = .ok final ∧ property items final := by
  have general (left : List Item) : ∀ done state, items = done ++ left → property done state →
      ∃ final, left.foldlM round state = .ok final ∧ property items final := by
    induction left with
    | nil =>
        intro done state whole holds
        rw [List.append_nil] at whole
        exact ⟨state, rfl, whole ▸ holds⟩
    | cons item rest ih =>
        intro done state whole holds
        obtain ⟨after, first, later⟩ := kept done item rest state whole holds
        obtain ⟨final, completed, last⟩ := ih (done ++ [item]) after (by rw [whole, List.append_assoc, List.singleton_append]) later
        refine ⟨final, ?_, last⟩
        rw [List.foldlM_cons, first]
        exact completed
  exact general items [] start rfl base

variable {State Action Event : Type}

/-- A step either is refused or gives the next state and the events it emits. -/
abbrev Step (State Action Event : Type) := State → Action → Option (State × List Event)

/-- This relation collects the states and traces of all runs whose steps meet the guard. -/
inductive Reaches (step : Step State Action Event) (guard : State → List Event → Action → Prop)
    (initial : State → Prop) : State → List Event → Prop where
  | start {state : State} (begun : initial state) : Reaches step guard initial state []
  | next {state : State} {trace : List Event} {action : Action} {after : State}
      {events : List Event} (earlier : Reaches step guard initial state trace)
      (allowed : guard state trace action) (stepped : step state action = some (after, events)) :
      Reaches step guard initial after (trace ++ events)

variable {step : Step State Action Event} {guard : State → List Event → Action → Prop}
  {initial : State → Prop}

/-- A property that every guarded step keeps holds after every run. -/
theorem Reaches.invariant (property : State → List Event → Prop)
    (base : ∀ state, initial state → property state [])
    (kept : ∀ state trace action after events, property state trace → guard state trace action →
      step state action = some (after, events) → property after (trace ++ events))
    {state : State} {trace : List Event} (reached : Reaches step guard initial state trace) :
    property state trace := by
  induction reached with
  | start begun => exact base _ begun
  | next earlier allowed stepped ih => exact kept _ _ _ _ _ ih allowed stepped

/-- A weaker guard admits every run of the stronger one. -/
theorem Reaches.weaken {weaker : State → List Event → Action → Prop}
    (implied : ∀ state trace action, guard state trace action → weaker state trace action)
    {state : State} {trace : List Event} (reached : Reaches step guard initial state trace) :
    Reaches step weaker initial state trace := by
  induction reached with
  | start begun => exact .start begun
  | next earlier allowed stepped ih => exact .next ih (implied _ _ _ allowed) stepped

/-- This function replays a list of actions and checks the guard before each one. -/
def replay (step : Step State Action Event) (guard : State → List Event → Action → Prop)
    [∀ state trace action, Decidable (guard state trace action)] :
    State → List Event → List Action → Option (State × List Event)
  | state, trace, [] => some (state, trace)
  | state, trace, action :: rest =>
      if guard state trace action then
        match step state action with
        | none => none
        | some (after, events) => replay step guard after (trace ++ events) rest
      else none

/-- A replay that completes is a run. -/
theorem replay_reaches [∀ state trace action, Decidable (guard state trace action)]
    (actions : List Action) {state final : State} {trace full : List Event}
    (reached : Reaches step guard initial state trace)
    (replayed : replay step guard state trace actions = some (final, full)) :
    Reaches step guard initial final full := by
  induction actions generalizing state trace with
  | nil =>
      simp only [replay, Option.some.injEq, Prod.mk.injEq] at replayed
      obtain ⟨rfl, rfl⟩ := replayed
      exact reached
  | cons action rest ih =>
      simp only [replay] at replayed
      split at replayed
      · rename_i allowed
        split at replayed
        · contradiction
        · rename_i after events stepped
          exact ih (.next reached allowed stepped) replayed
      · contradiction

/-- A replay from a reached state whose final state passes a test gives a run that passes it. -/
theorem replay_extends [∀ state trace action, Decidable (guard state trace action)] (actions : List Action) {start : State}
    {past : List Event} (begun : Reaches step guard initial start past) (test : State → List Event → Bool)
    (passed : (replay step guard start past actions).any (fun final => test final.1 final.2) = true) :
    ∃ state trace, Reaches step guard initial state trace ∧ test state trace = true := by
  cases replayed : replay step guard start past actions with
  | none => simp [replayed] at passed
  | some final =>
      rw [replayed] at passed
      exact ⟨final.1, final.2, replay_reaches actions begun replayed, passed⟩

/-- A replay whose final state passes a test gives a run that passes it. -/
theorem replay_witness (step : Step State Action Event)
    (guard : State → List Event → Action → Prop) (initial : State → Prop)
    [∀ state trace action, Decidable (guard state trace action)]
    (actions : List Action) (start : State) (begun : initial start)
    (test : State → List Event → Bool)
    (passed : (replay step guard start [] actions).any (fun final => test final.1 final.2) = true) :
    ∃ state trace, Reaches step guard initial state trace ∧ test state trace = true :=
  replay_extends actions (.start begun) test passed

end Machine
