import Mathlib.Logic.Basic

/-!
# Programs that change a state and may stop early

A program runs on a state and ends with a value or with a reason to stop.  `Keeps` bounds
both: how the state may change along the program, and which reasons it can stop with.  The
bound on the state is a preorder, so the rules follow the structure of the program.
-/

namespace InsDb.Library.Program

variable {Stop State V Next : Type}

theorem run_bind (first : ExceptT Stop (StateM State) V)
    (next : V → ExceptT Stop (StateM State) Next) (s : State) :
    (first >>= next).run s =
      match first.run s with
      | (.ok v, post) => (next v).run post
      | (.error stop, post) => (.error stop, post) := by
  simp only [bind, ExceptT.bind, ExceptT.mk, ExceptT.run, StateT.bind, ExceptT.bindCont]
  cases first s with
  | mk result => cases result <;> rfl

/-- The program changes the state by `frame` only and stops only for one of `stops`. -/
structure Keeps (frame : State → State → Prop) (stops : Stop → Prop)
    (program : ExceptT Stop (StateM State) V) : Prop where
  frame : ∀ s, frame s (program.run s).2
  stops : ∀ s stop, (program.run s).1 = .error stop → stops stop

namespace Keeps

variable {frame : State → State → Prop} {stops : Stop → Prop}

theorem pure (refl : ∀ s, frame s s) (v : V) : Keeps frame stops (Pure.pure v) :=
  ⟨fun s => refl s, fun _ _ stopped => by cases stopped⟩

theorem throw (refl : ∀ s, frame s s) {stop : Stop} (allowed : stops stop) :
    Keeps frame stops (MonadExcept.throw stop : ExceptT Stop (StateM State) V) := by
  refine ⟨fun s => refl s, ?_⟩
  intro _ _ stopped
  obtain rfl := Except.error.inj stopped
  exact allowed

theorem modify {change : State → State} (changes : ∀ s, frame s (change s)) :
    Keeps frame stops (modify change : ExceptT Stop (StateM State) PUnit) :=
  ⟨fun s => changes s, fun _ _ stopped => by cases stopped⟩

theorem bind (trans : ∀ first second third, frame first second → frame second third →
      frame first third) {first : ExceptT Stop (StateM State) V}
    {next : V → ExceptT Stop (StateM State) Next} (firstKeeps : Keeps frame stops first)
    (nextKeeps : ∀ v, Keeps frame stops (next v)) :
    Keeps frame stops (first >>= next) := by
  constructor
  · intro s
    have pre := firstKeeps.frame s
    rw [run_bind]
    cases ran : first.run s with
    | mk result post =>
      rw [ran] at pre
      cases result with
      | error => exact pre
      | ok v => exact trans _ _ _ pre ((nextKeeps v).frame post)
  intro s stop stopped
  rw [run_bind] at stopped
  have pre := firstKeeps.stops s
  cases ran : first.run s with
  | mk result post =>
    rw [ran] at pre stopped
    cases result with
    | error =>
      obtain rfl := Except.error.inj stopped
      exact pre _ rfl
    | ok v => exact (nextKeeps v).stops post stop stopped

theorem ite {condition : Prop} [Decidable condition]
    {yes no : ExceptT Stop (StateM State) V} (yesKeeps : Keeps frame stops yes)
    (noKeeps : Keeps frame stops no) : Keeps frame stops (if condition then yes else no) := by
  split
  · exact yesKeeps
  · exact noKeeps

theorem forM (refl : ∀ s, frame s s)
    (trans : ∀ first second third, frame first second → frame second third →
      frame first third) {Item : Type} {items : List Item}
    {step : Item → ExceptT Stop (StateM State) PUnit}
    (steps : ∀ item, Keeps frame stops (step item)) : Keeps frame stops (items.forM step) := by
  induction items with
  | nil => exact pure refl ()
  | cons item rest ih => exact bind trans (steps item) fun _ => ih

theorem mono {weaker : State → State → Prop} {more : Stop → Prop}
    {program : ExceptT Stop (StateM State) V} (keeps : Keeps frame stops program)
    (weakens : ∀ pre post, frame pre post → weaker pre post)
    (allows : ∀ stop, stops stop → more stop) : Keeps weaker more program where
  frame := by
    intro s
    exact weakens _ _ (keeps.frame s)
  stops := by
    intro s stop stopped
    exact allows stop (keeps.stops s stop stopped)

end Keeps

def NeverReturns (program : ExceptT Stop (StateM State) V) : Prop :=
  ∀ s value, (program.run s).1 ≠ .ok value

theorem neverReturns_throw (stop : Stop) :
    NeverReturns (throw stop : ExceptT Stop (StateM State) V) := by
  intro _ _ returned
  cases returned

theorem neverReturns_bind (first : ExceptT Stop (StateM State) V)
    {next : V → ExceptT Stop (StateM State) Next}
    (never : ∀ v, NeverReturns (next v)) : NeverReturns (first >>= next) := by
  intro s v
  rw [run_bind]
  cases ran : first.run s with
  | mk result post =>
    cases result with
    | error => simp
    | ok middle => exact never middle post v

end InsDb.Library.Program
