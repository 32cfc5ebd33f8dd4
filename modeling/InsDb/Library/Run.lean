import Mathlib.Data.List.Basic

/-!
# Runs of a system of actions

A system is a partial function that takes a state and an action to the next state.  A run
is a list of actions.  A property of states is followed along a run, next to a condition on
the steps; an invariant ties the two together.
-/

namespace InsDb.Library.Run

variable {State Action : Type} (step : State → Action → Option State)

def exec : List Action → State → Option State
  | [], s => some s
  | action :: rest, s => (step s action).bind (exec rest)

def AllHold (holds : State → Prop) : List Action → State → Prop
  | [], s => holds s
  | action :: rest, s =>
    holds s ∧ ∀ next, step s action = some next → AllHold holds rest next

def AllMeet (meets : State → Action → Prop) : List Action → State → Prop
  | [], _ => True
  | action :: rest, s =>
    ∀ next, step s action = some next → meets s action ∧ AllMeet meets rest next

instance decidableAllMeet {meets : State → Action → Prop}
    [∀ s action, Decidable (meets s action)] :
    ∀ (actions : List Action) (s : State), Decidable (AllMeet step meets actions s)
  | [], _ => isTrue trivial
  | action :: rest, s =>
    match taken : step s action with
    | none => isTrue fun _ isNext => absurd (taken.symm.trans isNext) (Option.some_ne_none _).symm
    | some next =>
      @decidable_of_iff _ (meets s action ∧ AllMeet step meets rest next)
        ⟨fun met _ isOther => Option.some.inj (taken.symm.trans isOther) ▸ met,
          fun all => all next taken⟩
        (@instDecidableAnd _ _ _ (decidableAllMeet rest next))

variable {step}

theorem exec_append (front back : List Action) (s : State) :
    exec step (front ++ back) s = (exec step front s).bind (exec step back) := by
  induction front generalizing s with
  | nil => rfl
  | cons action rest ih =>
    simp only [List.cons_append, exec]
    cases step s action with
    | none => rfl
    | some next => exact ih next

variable {holds : State → Prop} {meets : State → Action → Prop} {actions : List Action}
  {s : State}

variable (invariant : State → Prop)

theorem allHold_of_allMeet (implied : ∀ s, invariant s → holds s)
    (kept : ∀ s action next, invariant s → step s action = some next →
      meets s action → invariant next)
    (initially : invariant s) (met : AllMeet step meets actions s) :
    AllHold step holds actions s := by
  induction actions generalizing s with
  | nil => exact implied s initially
  | cons action rest ih =>
    refine ⟨implied s initially, ?_⟩
    intro next taken
    obtain ⟨meetsHere, meetsLater⟩ := met next taken
    exact ih (kept s action next initially taken meetsHere) meetsLater

theorem AllMeet.and {also : State → Action → Prop} (left : AllMeet step meets actions s)
    (right : AllMeet step also actions s) :
    AllMeet step (fun s action => meets s action ∧ also s action) actions s := by
  induction actions generalizing s with
  | nil => trivial
  | cons action rest ih =>
    intro next taken
    have metLeft := left next taken
    have metRight := right next taken
    exact ⟨⟨metLeft.1, metRight.1⟩, ih metLeft.2 metRight.2⟩

theorem AllHold.here (all : AllHold step holds actions s) : holds s := by
  cases actions with
  | nil => exact all
  | cons => exact all.1

theorem AllHold.final {final : State} (all : AllHold step holds actions s)
    (runs : exec step actions s = some final) :
    holds final := by
  induction actions generalizing s with
  | nil => exact Option.some.inj runs ▸ all
  | cons action rest ih =>
    obtain ⟨next, taken, later⟩ := Option.bind_eq_some_iff.mp runs
    exact ih (all.2 next taken) later

theorem allHold_iff_allMeet (implied : ∀ s, invariant s → holds s)
    (kept : ∀ s action next, invariant s → step s action = some next →
      meets s action → invariant next)
    (broken : ∀ s action next, invariant s → step s action = some next →
      holds next → meets s action)
    (initially : invariant s) :
    AllHold step holds actions s ↔ AllMeet step meets actions s := by
  refine ⟨?_, allHold_of_allMeet invariant implied kept initially⟩
  intro all
  induction actions generalizing s with
  | nil => trivial
  | cons action rest ih =>
    intro next taken
    have later := all.2 next taken
    have meetsHere := broken s action next initially taken later.here
    exact ⟨meetsHere, ih (kept s action next initially taken meetsHere) later⟩

theorem allHold_of_invariant (implied : ∀ s, invariant s → holds s)
    (kept : ∀ s action next, invariant s → step s action = some next → invariant next)
    (initially : invariant s) :
    AllHold step holds actions s := by
  have met : AllMeet step (fun _ _ => True) actions s := by
    clear initially
    induction actions generalizing s with
    | nil => trivial
    | cons action rest ih => exact fun next _ => ⟨trivial, ih⟩
  apply allHold_of_allMeet invariant implied _ initially met
  intro s action next pre taken _
  exact kept s action next pre taken

/-- Actions of a kind that keeps the invariant all meet a condition that it implies. -/
theorem allMeet_of_invariant {allowed : Action → Prop}
    (kept : ∀ s action next, invariant s → allowed action → step s action = some next →
      meets s action ∧ invariant next)
    (initially : invariant s) (all : ∀ action ∈ actions, allowed action) :
    AllMeet step meets actions s := by
  induction actions generalizing s with
  | nil => trivial
  | cons action rest ih =>
    intro next taken
    obtain ⟨here, post⟩ := kept s action next initially (all action List.mem_cons_self) taken
    exact ⟨here, ih post fun other mem => all other (List.mem_cons_of_mem _ mem)⟩

end InsDb.Library.Run
