import InsDb.Library.Run
import Mathlib.Logic.Function.Basic

/-!
# Key-block metas shared by flush workers

Flush workers of different tables clear bits of the same key-block metas. A worker that
clears a bit leaves its own bit in `worker_bit_`.
-/

namespace InsDb

open InsDb.Library.Run Function

/-- What the worker that has set `submit_in_progress` has done. -/
inductive SubmitStage where
  | testing
  | queued
  | built (bits : Nat → Bool)
  | written

/-- A meta in memory and on the device.  A meta with no bit left may be removed instead of
written: none of its bits is on the device either way. -/
structure SharedMeta where
  bit : Nat → Bool
  device : Nat → Bool := bit
  workerBit : Nat → Bool := fun _ => false
  submitInProgress : Option (Nat × SubmitStage) := none

structure FlushWorker where
  -- The update lists: a meta and the bit the worker cleared in it.  A column that a snapshot
  -- has held since an earlier flush has no bit to clear.
  cleared : List (Nat × Option Nat) := []
  kbmList : List Nat := []
  pendingList : List Nat := []
  inHand : Option Nat := none

inductive MetaAction where
  | clear (offset : Option Nat)
  | setSubmitInProgress
  | testWorkerBit
  | submit
  | retry

-- `1 << worker_id`; workers beyond the width of the word share a bit.
variable (bitOf : Nat → Nat)

namespace SharedMeta

def testing (kbm : SharedMeta) (worker : Nat) : Bool :=
  match kbm.submitInProgress with
  | some (owner, .testing) => owner == worker
  | _ => false

/-- The device format is built, written, and the flag cleared. -/
def submit (kbm : SharedMeta) : Option SharedMeta :=
  match kbm.submitInProgress with
  | some (worker, .queued) =>
    some { kbm with submitInProgress := some (worker, .built kbm.bit) }
  | some (worker, .built bits) =>
    some { kbm with device := bits, submitInProgress := some (worker, .written) }
  | some (_, .written) => some { kbm with submitInProgress := none }
  | _ => none

end SharedMeta

/-- One step of a worker at a meta: an atomic operation, or what the write protection of the
meta covers. -/
def metaStep (worker workerBit id : Nat) (kbm : SharedMeta) (own : FlushWorker) :
    MetaAction → Option (SharedMeta × FlushWorker)
  | .clear offset =>
    some ({ kbm with
        workerBit := update kbm.workerBit workerBit true
        bit := fun other => kbm.bit other && offset != some other },
      { own with cleared := (id, offset) :: own.cleared, kbmList := own.kbmList ++ [id] })
  | .setSubmitInProgress =>
    if own.inHand = none ∧ own.kbmList.head? = some id then
      some ({ kbm with submitInProgress := kbm.submitInProgress.or (some (worker, .testing)) },
        { own with kbmList := own.kbmList.tail, inHand := some id })
    else none
  | .testWorkerBit =>
    if own.inHand = some id then
      if kbm.testing worker then
        some (if kbm.workerBit workerBit then
            { kbm with workerBit := fun _ => false, submitInProgress := some (worker, .queued) }
          else { kbm with submitInProgress := none },
          { own with inHand := none })
      else if kbm.workerBit workerBit then
        some (kbm, { own with inHand := none, pendingList := own.pendingList ++ [id] })
      else some (kbm, { own with inHand := none })
    else none
  | .submit => kbm.submit.map (·, own)
  | .retry => some (kbm,
      { own with kbmList := own.kbmList ++ own.pendingList, pendingList := [] })

structure MetaFlush where
  kbm : Nat → SharedMeta
  worker : Nat → FlushWorker := fun _ => {}

namespace MetaFlush

inductive Action where
  | act (worker kbm : Nat) (action : MetaAction)
  | deleteList (worker : Nat)

def step (s : MetaFlush) : Action → Option MetaFlush
  | .act worker kbm action =>
    (metaStep worker (bitOf worker) kbm (s.kbm kbm) (s.worker worker) action).map
      fun moved =>
        { kbm := update s.kbm kbm moved.1, worker := update s.worker worker moved.2 }
  | .deleteList worker =>
    let own := s.worker worker
    if own.kbmList = [] ∧ own.pendingList = [] ∧ own.inHand = none ∧ ∀ entry ∈ own.cleared,
        (s.kbm entry.1).submitInProgress.map Prod.fst ≠ some worker then
      some { s with worker := update s.worker worker {} }
    else none

/-- No bit that the worker cleared is on the device. -/
def Written (s : MetaFlush) (worker : Nat) : Prop :=
  ∀ kbm offset, (kbm, some offset) ∈ (s.worker worker).cleared →
    (s.kbm kbm).device offset = false

end MetaFlush

/-- A worker has taken over the meta with this bit clear and has not written it yet. -/
@[grind] def SharedMeta.Taken (kbm : SharedMeta) (offset : Nat) : Prop :=
  match kbm.submitInProgress with
  | some (_, .queued) => True
  | some (_, .built bits) => bits offset = false
  | _ => False

structure SharedMeta.Shrinking (kbm : SharedMeta) : Prop where
  device : ∀ offset, kbm.device offset = false → kbm.bit offset = false
  built : ∀ worker bits, kbm.submitInProgress = some (worker, .built bits) → ∀ offset,
    (bits offset = false → kbm.bit offset = false) ∧
      (kbm.device offset = false → bits offset = false)

@[grind] def FlushWorker.Owes (own : FlushWorker) (id : Nat) : Prop :=
  id ∈ own.kbmList ∨ id ∈ own.pendingList ∨ own.inHand = some id

@[grind] def Covered (workerBit id offset : Nat) (kbm : SharedMeta) (own : FlushWorker) : Prop :=
  kbm.bit offset = false ∧ (kbm.device offset = false ∨ kbm.Taken offset ∨
    (kbm.workerBit workerBit = true ∧ own.Owes id))

structure MetaMove (workerBit id : Nat) (kbm moved : SharedMeta) (own after : FlushWorker) :
    Prop where
  shrinking : moved.Shrinking
  others : ∀ otherBit offset other, Covered otherBit id offset kbm other →
    Covered otherBit id offset moved other
  self : ∀ offset, Covered workerBit id offset kbm own → Covered workerBit id offset moved after
  owes : ∀ other, other ≠ id → own.Owes other → after.Owes other
  cleared : ∀ entry ∈ after.cleared, entry ∈ own.cleared ∨
    entry.1 = id ∧ ∀ offset, entry.2 = some offset → Covered workerBit id offset moved after

theorem metaMove {w workerBit id : Nat} {kbm moved : SharedMeta} {own post : FlushWorker}
    {action : MetaAction} (shrinking : kbm.Shrinking)
    (taken : metaStep w workerBit id kbm own action = some (moved, post)) :
    MetaMove workerBit id kbm moved own post := by
  cases action with
  | clear =>
    obtain ⟨rfl, rfl⟩ := taken
    constructor <;> grind [SharedMeta.Shrinking, update_apply]
  | setSubmitInProgress =>
    simp only [metaStep, Option.ite_none_right_eq_some, Option.some.injEq, Prod.mk.injEq] at taken
    obtain ⟨⟨_, head⟩, rfl, rfl⟩ := taken
    have front := (List.cons_head?_tail head).symm
    cases flag : kbm.submitInProgress <;> constructor <;> grind [SharedMeta.Shrinking]
  | testWorkerBit =>
    obtain ⟨_, taken⟩ := Option.ite_none_right_eq_some.mp taken
    have won : kbm.testing w = true → kbm.submitInProgress = some (w, .testing) := by
      unfold SharedMeta.testing
      grind
    split_ifs at taken <;> cases taken <;> constructor <;> grind [SharedMeta.Shrinking]
  | submit =>
    obtain ⟨_, sent, isMoved⟩ := Option.map_eq_some_iff.mp taken
    cases isMoved
    unfold SharedMeta.submit at sent
    split at sent <;> cases sent <;> constructor <;> grind [SharedMeta.Shrinking]
  | retry =>
    obtain ⟨rfl, rfl⟩ := taken
    constructor <;> grind

namespace MetaFlush

structure Kept (s : MetaFlush) : Prop where
  shrinking : ∀ kbm, (s.kbm kbm).Shrinking
  covered : ∀ worker kbm offset, (kbm, some offset) ∈ (s.worker worker).cleared →
    Covered (bitOf worker) kbm offset (s.kbm kbm) (s.worker worker)

variable {bitOf}

theorem Kept.step {s next : MetaFlush} {action : Action} (kept : s.Kept bitOf)
    (taken : s.step bitOf action = some next) : next.Kept bitOf := by
  cases action with
  | act w kbm =>
    obtain ⟨⟨_, _⟩, isMoved, rfl⟩ := Option.map_eq_some_iff.mp taken
    have move := metaMove (kept.shrinking kbm) isMoved
    have covered := kept.covered
    refine ⟨(forall_update_iff _ fun _ => SharedMeta.Shrinking).mpr
      ⟨move.shrinking, fun other _ => kept.shrinking other⟩, ?_⟩
    intro owner id offset mem
    have cleared := move.cleared (id, some offset)
    by_cases isKbm : id = kbm
    · subst isKbm
      have pre := covered owner id offset
      have self := move.self offset
      have others := move.others (bitOf owner) offset (s.worker owner)
      grind [update_apply]
    · have pre := covered owner id offset
      have owes := move.owes id isKbm
      grind [update_apply]
  | deleteList w =>
    obtain ⟨-, isNext⟩ := Option.ite_none_right_eq_some.mp taken
    cases isNext
    refine ⟨kept.shrinking, ?_⟩
    intro owner id offset mem
    by_cases isWorker : owner = w
    · subst isWorker
      simp at mem
    · simp only [update_of_ne isWorker] at mem ⊢
      exact kept.covered owner id offset mem

/-- When a worker deletes its list, every bit that it cleared is written, unless another
worker has taken the meta over and has not written it. -/
theorem deletes_written_list_iff (bitOf : Nat → Nat) (bitmap : Nat → Nat → Bool)
    (actions : List Action) :
    AllHold (step bitOf) (fun s => ∀ worker next, s.step bitOf (.deleteList worker) = some next →
      (s.Written worker ↔ ∀ kbm offset, (kbm, some offset) ∈ (s.worker worker).cleared →
        (s.kbm kbm).Taken offset → (s.kbm kbm).device offset = false))
      actions { kbm := fun id => { bit := bitmap id } } := by
  refine allHold_of_invariant (Kept bitOf) ?_
    (fun s action next kept taken => kept.step taken) ⟨?_, ?_⟩
  · intro _ kept worker _ taken
    obtain ⟨⟨noList, noPending, noHand, -⟩, -⟩ := Option.ite_none_right_eq_some.mp taken
    refine ⟨fun written kbm offset member _ => written kbm offset member, ?_⟩
    intro untaken kbm offset member
    obtain ⟨-, device | isTaken | ⟨-, owes⟩⟩ := kept.covered worker kbm offset member
    · exact device
    · exact untaken kbm offset member isTaken
    · simp [FlushWorker.Owes, noList, noPending, noHand] at owes
  · exact fun kbm => ⟨fun _ clear => clear, by simp⟩
  · simp

/-- Worker 1 takes the meta over, and worker 2 deletes its list before the meta is written. -/
theorem deletes_list_of_unwritten_meta : ¬ AllHold (step id) (fun s => ∀ worker next,
        s.step id (.deleteList worker) = some next → s.Written worker)
      [.act 1 0 (.clear (some 0)), .act 2 0 (.clear (some 1)), .act 1 0 .setSubmitInProgress,
        .act 1 0 .testWorkerBit, .act 2 0 .setSubmitInProgress, .act 2 0 .testWorkerBit]
      { kbm := fun _ => { bit := fun _ => true } } := by
  intro all
  have written := all.2 _ rfl |>.2 _ rfl |>.2 _ rfl |>.2 _ rfl |>.2 _ rfl |>.2 _ rfl 2 _ rfl 0 1
  exact absurd (written (by decide)) (by decide)

end MetaFlush

end InsDb
