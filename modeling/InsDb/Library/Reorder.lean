import Mathlib.Logic.Function.Basic
import Mathlib.Data.List.Perm.Basic

/-!
# Requests that a keyed service takes in any order

A service keeps a state for each key. A request reads the state of its key, and may
overwrite it. When a list of requests is handed to the service at once, it takes them in an
order of its own.
-/

namespace InsDb.Library.Reorder

variable {K State Command Answer : Type}

structure Service (State Command Answer : Type) where
  -- The state that the command leaves; none for one that only reads.
  writes : Command → Option State
  answer : Command → State → Answer

structure Request (K Command : Type) where
  index : Nat
  key : K
  command : Command
deriving DecidableEq, Repr

variable [DecidableEq K] (service : Service State Command Answer)

/-- The answer to the request with an index, when the requests are taken in the order of the
list. -/
def answerTo (states : K → State) : List (Request K Command) → Nat → Option Answer
  | [], _ => none
  | request :: rest, index =>
    if request.index = index then
      some (service.answer request.command (states request.key))
    else
      answerTo
        (Function.update states request.key
          ((service.writes request.command).getD (states request.key)))
        rest index

def Independent (states : K → State) (requests : List (Request K Command)) : Prop :=
  ∀ reader ∈ requests, ∀ writer ∈ requests,
    writer.index ≠ reader.index → writer.key = reader.key →
      ∀ s, service.writes writer.command = some s →
        service.answer reader.command s =
          service.answer reader.command (states reader.key)

variable {service} {states : K → State} {requests order : List (Request K Command)}

theorem answerTo_eq_none {i : Nat} (absent : i ∉ order.map Request.index) :
    answerTo service states order i = none := by
  induction order generalizing states with
  | nil => rfl
  | cons rq rest ih =>
    rw [List.map_cons, List.mem_cons, not_or] at absent
    rw [answerTo, if_neg (Ne.symm absent.1)]
    exact ih absent.2

variable (service) in
/-- What a request finds is the first state of its key, or one that a request taken before it
wrote. -/
def Reached (states : K → State) (taken : List (Request K Command)) (key : K)
    (s : State) : Prop :=
  s = states key ∨
    ∃ writer ∈ taken, writer.key = key ∧ service.writes writer.command = some s

variable {taken : List (Request K Command)} {s : State}

omit [DecidableEq K] in
theorem Reached.write {rq : Request K Command}
    (reached : Reached service states taken rq.key s) :
    Reached service states (rq :: taken) rq.key
      ((service.writes rq.command).getD s) := by
  cases writes : service.writes rq.command with
  | some => exact .inr ⟨rq, List.mem_cons_self, rfl, writes⟩
  | none =>
    cases reached with
    | inl first => exact .inl first
    | inr wrote =>
      obtain ⟨writer, isWriter, ofKey, written⟩ := wrote
      exact .inr ⟨writer, List.mem_cons_of_mem rq isWriter, ofKey, written⟩

omit [DecidableEq K] in
theorem Reached.mono {more : List (Request K Command)} {key : K}
    (reached : Reached service states taken key s) (included : ∀ r ∈ taken, r ∈ more) :
    Reached service states more key s := by
  cases reached with
  | inl first => exact .inl first
  | inr wrote =>
    obtain ⟨writer, isWriter, ofKey, written⟩ := wrote
    exact .inr ⟨writer, included writer isWriter, ofKey, written⟩

variable {reader : Request K Command}

omit [DecidableEq K] in
theorem Independent.answer_eq (independent : Independent service states requests)
    (isReader : reader ∈ requests) (included : ∀ r ∈ taken, r ∈ requests)
    (pre : ∀ r ∈ taken, r.index ≠ reader.index)
    (reached : Reached service states taken reader.key s) :
    service.answer reader.command s = service.answer reader.command (states reader.key) := by
  cases reached with
  | inl first => rw [first]
  | inr wrote =>
    obtain ⟨writer, isWriter, ofKey, written⟩ := wrote
    exact independent reader isReader writer (included writer isWriter)
      (pre writer isWriter) ofKey s written

private theorem answerTo_reached {now : K → State} (isReader : reader ∈ order)
    (nodup : (order.map Request.index).Nodup)
    (reached : ∀ key, Reached service states taken key (now key)) :
    ∃ s, answerTo service now order reader.index = some (service.answer reader.command s) ∧
        ∃ pre : List (Request K Command),
          (∀ r ∈ pre, r ∈ taken ∨ r ∈ order ∧ r.index ≠ reader.index) ∧
            Reached service states pre reader.key s := by
  induction order generalizing taken now with
  | nil => cases isReader
  | cons rq rest ih =>
    rw [List.map_cons, List.nodup_cons] at nodup
    by_cases same : rq.index = reader.index
    · have isFirst : reader = rq := by
        cases List.mem_cons.mp isReader with
        | inl first => exact first
        | inr later =>
          exfalso
          apply nodup.1
          rw [same]
          exact List.mem_map_of_mem later
      refine ⟨now reader.key, ?_, taken, fun r isTaken => .inl isTaken, reached reader.key⟩
      rw [answerTo, if_pos same, isFirst]
    have later : reader ∈ rest := by
      cases List.mem_cons.mp isReader with
      | inl first => exact absurd (congrArg Request.index first.symm) same
      | inr later => exact later
    have next : ∀ key, Reached service states (rq :: taken) key
        (Function.update now rq.key
          ((service.writes rq.command).getD (now rq.key)) key) := by
      intro key
      by_cases ofKey : key = rq.key
      · subst ofKey
        rw [Function.update_self]
        exact (reached rq.key).write
      · rw [Function.update_of_ne ofKey]
        exact (reached key).mono fun r isTaken => List.mem_cons_of_mem rq isTaken
    obtain ⟨s, answered, pre, included, isReached⟩ := ih later nodup.2 next
    refine ⟨s, ?_, pre, ?_, isReached⟩
    · rw [answerTo, if_neg same]
      exact answered
    intro r isBefore
    cases included r isBefore with
    | inl isTaken =>
      cases List.mem_cons.mp isTaken with
      | inl isRq => exact .inr ⟨isRq ▸ List.mem_cons_self, isRq ▸ same⟩
      | inr earlier => exact .inl earlier
    | inr inRest => exact .inr ⟨List.mem_cons_of_mem rq inRest.1, inRest.2⟩

theorem exists_answerTo (isReader : reader ∈ order) (nodup : (order.map Request.index).Nodup) :
    ∃ s, answerTo service states order reader.index = some (service.answer reader.command s) := by
  have first : ∀ key, Reached service states [] key (states key) := fun key => .inl rfl
  obtain ⟨s, answered, _⟩ := answerTo_reached isReader nodup first
  exact ⟨s, answered⟩

theorem answerTo_of_independent (independent : Independent service states requests)
    (nodup : (requests.map Request.index).Nodup) (moved : order.Perm requests)
    (isReader : reader ∈ requests) :
    answerTo service states order reader.index =
      some (service.answer reader.command (states reader.key)) := by
  have orderDistinct := (moved.map Request.index).nodup_iff.mpr nodup
  have first : ∀ key, Reached service states [] key (states key) := fun key => .inl rfl
  obtain ⟨_, answered, pre, included, reached⟩ :=
    answerTo_reached (moved.mem_iff.mpr isReader) orderDistinct first
  have inOrder : ∀ r ∈ pre, r ∈ order ∧ r.index ≠ reader.index := by
    intro r isBefore
    cases included r isBefore with
    | inl none => cases none
    | inr inOrder => exact inOrder
  rw [answered, independent.answer_eq isReader
    (fun r isBefore => moved.mem_iff.mp (inOrder r isBefore).1)
    (fun r isBefore => (inOrder r isBefore).2) reached]

omit [DecidableEq K] in
theorem exists_perm_cons {rq : Request K Command} (isRq : rq ∈ requests) :
    ∃ rest, requests.Perm (rq :: rest) := by
  obtain ⟨front, back, split⟩ := List.append_of_mem isRq
  exact ⟨front ++ back, split ▸ List.perm_middle⟩

theorem independent_of_answerTo
    (same : ∀ rq ∈ requests, ∃ answer, ∀ order : List (Request K Command),
      order.Perm requests → answerTo service states order rq.index = some answer) :
    Independent service states requests := by
  intro reader isReader writer isWriter different sameKey _ written
  obtain ⟨_, always⟩ := same reader isReader
  obtain ⟨rest, readerFirst⟩ := exists_perm_cons isReader
  have inRest : writer ∈ rest := by
    cases List.mem_cons.mp (readerFirst.mem_iff.mp isWriter) with
    | inl isReader => exact absurd (congrArg Request.index isReader) different
    | inr inRest => exact inRest
  obtain ⟨others, writerNext⟩ := exists_perm_cons inRest
  have both := readerFirst.trans (writerNext.cons reader)
  have early := always (reader :: writer :: others) both.symm
  have late := always (writer :: reader :: others)
    ((List.Perm.swap reader writer others).trans both.symm)
  rw [answerTo, if_pos rfl] at early
  rw [answerTo, if_neg different, answerTo, if_pos rfl, sameKey, Function.update_self, written]
    at late
  rw [Option.getD_some] at late
  exact Option.some.inj (late.trans early.symm)

end InsDb.Library.Reorder
