import InsDb.Library.Run
import Mathlib.Logic.Function.Basic

/-!
# The height of a skip list under concurrent inserts

`SkipList::RandomHeight` runs before `Insert` takes the lock.  It compares the height that it drew
with `cur_height_` and then adds one to `cur_height_`, in two steps, and returns what it added up
to.
-/

namespace InsDb.SkipListHeight

open InsDb.Library Function

/-- The loop of `RandomHeight`; `zeros` is how often in a row the random number is a multiple of
`kBranching`. -/
def draw (maxHeight : Nat) : (zeros height : Nat) → Nat
  | 0, height => height
  | zeros + 1, height => if height < maxHeight then draw maxHeight zeros (height + 1) else height

inductive Phase where
  | outside
  | drew (height : Nat)
  | adding
  | inserting (height : Nat)
deriving DecidableEq, Repr

structure Heights where
  curHeight : Nat := 1
  phase : Nat → Phase := fun _ => .outside

inductive Step where
  | draw (thread zeros : Nat)
  | compare (thread : Nat)
  | add (thread : Nat)

/-- One step of one thread: the loop, the test `height > cur_height_`, or `SYNC_ADD`. -/
def step (maxHeight : Nat) (s : Heights) : Step → Option Heights
  | .draw thread zeros =>
    match s.phase thread with
    | .drew _ | .adding => none
    | _ => some { s with phase := update s.phase thread (.drew (draw maxHeight zeros 1)) }
  | .compare thread =>
    match s.phase thread with
    | .drew height => some { s with
        phase := update s.phase thread
          (if height > s.curHeight then .adding else .inserting height) }
    | _ => none
  | .add thread =>
    match s.phase thread with
    | .adding => some {
        curHeight := s.curHeight + 1
        phase := update s.phase thread (.inserting (s.curHeight + 1)) }
    | _ => none

def Phase.Within (maxHeight : Nat) : Phase → Prop
  | .drew height | .inserting height => height ≤ maxHeight
  | _ => True

structure Bounded (maxHeight : Nat) (s : Heights) : Prop where
  current : s.curHeight ≤ maxHeight
  drawn : ∀ thread, (s.phase thread).Within maxHeight

/-- A thread adds only while the list is below the maximum. -/
def AddsBelow (maxHeight : Nat) (s : Heights) : Step → Prop
  | .add _ => s.curHeight < maxHeight
  | _ => True

theorem draw_le {maxHeight zeros height : Nat} (bound : height ≤ maxHeight) :
    draw maxHeight zeros height ≤ maxHeight := by
  induction zeros generalizing height with
  | zero => exact bound
  | succ zeros ih =>
    rw [draw]
    split_ifs with below
    · exact ih below
    · exact bound

variable {maxHeight : Nat} {s next : Heights}

theorem Bounded.setPhase (bounded : Bounded maxHeight s) {height thread : Nat} {phase : Phase}
    (current : height ≤ maxHeight) (within : phase.Within maxHeight) :
    Bounded maxHeight ⟨height, update s.phase thread phase⟩ :=
  ⟨current, (forall_update_iff _ fun _ (phase : Phase) => phase.Within maxHeight).mpr
    ⟨within, fun other _ => bounded.drawn other⟩⟩

theorem Bounded.step (bounded : Bounded maxHeight s) (positive : 0 < maxHeight) {action : Step}
    (taken : step maxHeight s action = some next) (below : AddsBelow maxHeight s action) :
    Bounded maxHeight next := by
  cases action with
  | draw thread zeros =>
    simp only [SkipListHeight.step] at taken
    split at taken <;> cases taken
    exact bounded.setPhase bounded.current (draw_le positive)
  | compare thread =>
    simp only [SkipListHeight.step] at taken
    split at taken <;> cases taken
    next height drew =>
      have within := bounded.drawn thread
      rw [drew] at within
      refine bounded.setPhase bounded.current ?_
      split_ifs
      · trivial
      · exact within
  | add thread =>
    simp only [SkipListHeight.step] at taken
    split at taken <;> cases taken
    exact bounded.setPhase below below

theorem addsBelow_of_bounded {action : Step} (taken : step maxHeight s action = some next)
    (bounded : Bounded maxHeight next) : AddsBelow maxHeight s action := by
  cases action with
  | draw => trivial
  | compare => trivial
  | add =>
    simp only [SkipListHeight.step] at taken
    split at taken <;> cases taken
    exact bounded.current

/-- The heights stay within the maximum exactly if every thread that adds to the current height
still finds it below the maximum. -/
theorem heights_bounded_iff (maxHeight : Nat) (steps : List Step) :
    Run.AllHold (step maxHeight) (Bounded maxHeight) steps {} ↔
      0 < maxHeight ∧ Run.AllMeet (step maxHeight) (AddsBelow maxHeight) steps {} := by
  have runs : 0 < maxHeight → (Run.AllHold (step maxHeight) (Bounded maxHeight) steps {} ↔
        Run.AllMeet (step maxHeight) (AddsBelow maxHeight) steps {}) := by
    intro positive
    apply Run.allHold_iff_allMeet (Bounded maxHeight) (fun _ bounded => bounded)
    · intro _ _ _ bounded taken
      exact bounded.step positive taken
    · intro _ _ _ _ taken
      exact addsBelow_of_bounded taken
    · exact ⟨positive, fun _ => trivial⟩
  constructor
  · intro all
    have positive : 0 < maxHeight := all.here.current
    exact ⟨positive, (runs positive).mp all⟩
  · rintro ⟨positive, met⟩
    exact (runs positive).mpr met

def Step.thread : Step → Nat
  | .draw thread _ | .compare thread | .add thread => thread

/-- With one inserting thread nobody raises the height between its test and its addition. -/
theorem addsBelow_of_one_thread {steps : List Step} (positive : 0 < maxHeight) (thread : Nat)
    (one : ∀ action ∈ steps, action.thread = thread) :
    Run.AllMeet (step maxHeight) (AddsBelow maxHeight) steps {} := by
  refine Run.allMeet_of_invariant
    (fun s => Bounded maxHeight s ∧ (s.phase thread = .adding → s.curHeight < maxHeight)) ?_
    ⟨⟨positive, fun _ => trivial⟩, fun isAdding => (by cases isAdding)⟩ one
  rintro s action next ⟨bounded, room⟩ isThread taken
  cases action with
  | draw other =>
    obtain rfl : other = thread := isThread
    refine ⟨trivial, bounded.step positive taken trivial, ?_⟩
    simp only [SkipListHeight.step] at taken
    split at taken <;> cases taken
    simp
  | compare other =>
    obtain rfl : other = thread := isThread
    refine ⟨trivial, bounded.step positive taken trivial, ?_⟩
    simp only [SkipListHeight.step] at taken
    split at taken <;> cases taken
    next height drew =>
      have within : height ≤ maxHeight := by
        have drawn := bounded.drawn other
        rwa [drew] at drawn
      intro isAdding
      by_contra notBelow
      have low : ¬ height > s.curHeight := by
        simp only at notBelow
        omega
      simp [low] at isAdding
  | add other =>
    obtain rfl : other = thread := isThread
    have below : s.curHeight < maxHeight := by
      apply room
      simp only [SkipListHeight.step] at taken
      split at taken <;> cases taken
      assumption
    refine ⟨below, bounded.step positive taken below, ?_⟩
    simp only [SkipListHeight.step] at taken
    split at taken <;> cases taken
    simp

/-- Two threads draw the height 2 for a list of height 1 and both add to it. -/
theorem two_inserts_exceed_maximum : ¬ Run.AllHold (step 2) (Bounded 2)
    [.draw 0 1, .draw 1 1, .compare 0, .compare 1, .add 0, .add 1] {} := by
  intro all
  obtain ⟨final, runs, high⟩ : ∃ final, Run.exec (step 2)
      [.draw 0 1, .draw 1 1, .compare 0, .compare 1, .add 0, .add 1] {} = some final ∧
        final.curHeight = 3 := ⟨_, rfl, rfl⟩
  have bound := (all.final runs).current
  omega

end InsDb.SkipListHeight
