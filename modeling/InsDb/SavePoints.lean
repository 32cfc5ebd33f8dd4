import InsDb.BatchBytes
import InsDb.Library.Run

/-!
# Save points of a kvdb batch

The batch of kvdb wraps the one of insdb.  The count is in the header of the inner batch, the
content flags are in the wrapper, and a save point keeps the size and both.  An update that makes
the batch larger than `max_bytes` is undone with a save point of its own.
-/

namespace InsDb

open BatchRep List Library.Run

namespace BatchRep

/-- `std::string::resize`. -/
def resizeData (batch : BatchRep) (size : Nat) : BatchRep :=
  { rep := batch.rep.take size ++ replicate (size - batch.rep.length) 0 }

def setCount (batch : BatchRep) (count : Nat) : BatchRep :=
  { rep := overwrite 0 (encodeFixed32 count) batch.rep }

end BatchRep

namespace Kvdb

structure SavePoint where
  size : Nat
  count : Nat
  contentFlags : Nat

/-- The inner batch and the content flags. -/
structure Contents where
  batch : BatchRep
  contentFlags : Nat

structure Batch extends Contents where
  maxBytes : Nat
  -- The top of the stack first.
  savePoints : List SavePoint := []

inductive BatchCall where
  | put (key value : Bytes) (colId : Nat)
  | merge (key value : Bytes) (colId : Nat)
  | delete (key : Bytes) (colId : Nat)
  | singleDelete (key : Bytes) (colId : Nat)

def BatchCall.record : BatchCall → Record Bytes Bytes
  | .put key value colId => .put key value colId
  | .merge key value colId => .merge key value colId
  | .delete key colId => .delete key colId
  | .singleDelete key colId => .delete key colId

/-- `ContentFlags`. -/
def BatchCall.flag : BatchCall → Nat
  | .put .. => 2
  | .merge .. => 16
  | .delete .. => 4
  | .singleDelete .. => 8

inductive BatchAction where
  | update (call : BatchCall)
  | setSavePoint
  | popSavePoint
  | rollbackToSavePoint

inductive CallStatus where
  | ok | memoryLimit | notFound
deriving DecidableEq

namespace Contents

variable (contents : Contents)

def savePoint : SavePoint :=
  ⟨contents.batch.rep.length, contents.batch.count, contents.contentFlags⟩

/-- What `RollbackToSavePoint` and `LocalSavePoint::commit` do to go back. -/
def restore (save : SavePoint) : Contents :=
  ⟨(contents.batch.resizeData save.size).setCount save.count, save.contentFlags⟩

def add (call : BatchCall) : Contents :=
  ⟨contents.batch.apply call.record, contents.contentFlags ||| call.flag⟩

end Contents

def Batch.perform (batch : Batch) : BatchAction → CallStatus × Batch
  | .update call =>
    let added := batch.toContents.add call
    if batch.maxBytes ≠ 0 ∧ batch.maxBytes < added.batch.rep.length then
      (.memoryLimit, { batch with toContents := added.restore batch.toContents.savePoint })
    else (.ok, { batch with toContents := added })
  | .setSavePoint =>
    (.ok, { batch with savePoints := batch.toContents.savePoint :: batch.savePoints })
  | .popSavePoint =>
    match batch.savePoints with
    | [] => (.notFound, batch)
    | _ :: rest => (.ok, { batch with savePoints := rest })
  | .rollbackToSavePoint =>
    match batch.savePoints with
    | [] => (.notFound, batch)
    | save :: rest =>
      if save.size = batch.batch.rep.length then (.ok, { batch with savePoints := rest })
      else if save.size = 0 then
        (.ok, { batch with toContents := ⟨.clear, 0⟩, savePoints := [] })
      else (.ok, { batch with toContents := batch.toContents.restore save, savePoints := rest })

/-- One call, and the contents at the calls of `SetSavePoint` that still count. -/
def step (s : Batch × List Contents) (action : BatchAction) :
    Option (Batch × List Contents) :=
  some ((s.1.perform action).2,
    match action with
    | .update _ => s.2
    | .setSavePoint => s.1.toContents :: s.2
    | .popSavePoint => s.2.tail
    | .rollbackToSavePoint => s.2.tail)

/-- The same replay for every handler, the same count and the same flags. -/
structure Contents.Same (left right : Contents) : Prop where
  replay : ∀ (State : Type) (handler : BatchHandler State) (s : State),
    left.batch.iterate handler s = right.batch.iterate handler s
  count : left.batch.count = right.batch.count
  flags : left.contentFlags = right.contentFlags

/-- An update that is rejected changes nothing, and a rollback goes back to the contents at the
matching save point. -/
structure Restores (s : Batch × List Contents) : Prop where
  rejected : ∀ call, (s.1.perform (.update call)).1 = .memoryLimit →
    (s.1.perform (.update call)).2.Same s.1.toContents
  rollback : ∀ saved ∈ s.2.head?, (s.1.perform .rollbackToSavePoint).1 = .ok ∧
    (s.1.perform .rollbackToSavePoint).2.Same saved

def Contents.Formed (contents : Contents) : Prop :=
  ∃ count data, contents.batch.rep = encodeFixed32 count ++ data

/-- The later contents have the bytes of the earlier ones behind the header, and maybe more. -/
def After (later earlier : Contents) : Prop :=
  ∃ more, later.batch.rep.drop kHeader = earlier.batch.rep.drop kHeader ++ more ∧
    (more = [] → later = earlier)

structure Nested (s : Batch × List Contents) : Prop where
  formed : ∀ contents ∈ s.1.toContents :: s.2, contents.Formed
  saved : s.1.savePoints = s.2.map Contents.savePoint
  chain : (s.1.toContents :: s.2).Pairwise After

section After

variable {later earlier contents : Contents}

theorem Contents.Formed.drop {count : Nat} {data : Bytes}
    (isRep : contents.batch.rep = encodeFixed32 count ++ data) :
    contents.batch.rep.drop kHeader = data := by
  rw [isRep]
  exact drop_left' (length_encodeFixed32 count)

theorem After.restore (post : After later earlier) (laterFormed : later.Formed)
    (formed : earlier.Formed) : later.restore earlier.savePoint = earlier := by
  obtain ⟨more, longer, -⟩ := post
  obtain ⟨laterCount, laterData, isLater⟩ := laterFormed
  obtain ⟨count, data, isEarlier⟩ := formed
  rw [Contents.Formed.drop isLater, Contents.Formed.drop isEarlier] at longer
  have size : earlier.batch.rep.length = 4 + data.length := by
    rw [isEarlier, List.length_append, length_encodeFixed32]
  have kept : later.batch.rep.take earlier.batch.rep.length = encodeFixed32 laterCount ++ data := by
    rw [isLater, longer, ← append_assoc, size]
    exact take_left' (by rw [List.length_append, length_encodeFixed32])
  have noPad : earlier.batch.rep.length - later.batch.rep.length = 0 := by
    rw [size, isLater, longer, List.length_append, List.length_append, length_encodeFixed32]
    omega
  have counted : encodeFixed32 earlier.batch.count = encodeFixed32 count := by
    apply encodeFixed32_congr
    rw [BatchRep.count, isEarlier, decodeFixed_encodeFixed32, Nat.mod_mod]
  have rep : ((later.batch.resizeData earlier.batch.rep.length).setCount
      earlier.batch.count).rep = earlier.batch.rep := by
    rw [setCount, resizeData, kept, noPad, replicate_zero, append_nil, counted,
      overwrite_header (length_encodeFixed32 _), isEarlier]
  exact congrArg (fun rep => Contents.mk ⟨rep⟩ earlier.contentFlags) rep

theorem After.trans {middle : Contents} (second : After later middle)
    (first : After middle earlier) : After later earlier := by
  obtain ⟨more, isMore, noMore⟩ := first
  obtain ⟨most, isMost, noMost⟩ := second
  refine ⟨more ++ most, by rw [isMost, isMore, append_assoc], fun isNil => ?_⟩
  obtain ⟨none, alsoNone⟩ := append_eq_nil_iff.mp isNil
  exact (noMost alsoNone).trans (noMore none)

theorem Contents.Formed.add (formed : contents.Formed) (call : BatchCall) :
    (contents.add call).Formed ∧ After (contents.add call) contents := by
  obtain ⟨count, data, isRep⟩ := formed
  have added : (contents.add call).batch.rep =
      encodeFixed32 (contents.batch.count + 1) ++ (data ++ call.record.bytes) := by
    rw [Contents.add, apply_eq_addRecord, addRecord, isRep,
      overwrite_header (length_encodeFixed32 _), append_assoc]
    rfl
  refine ⟨⟨_, _, added⟩, call.record.bytes, ?_, fun isNil => ?_⟩
  · rw [Contents.Formed.drop added, Contents.Formed.drop isRep]
  · cases isNil

theorem After.eq_of_size (post : After later earlier)
    (same : earlier.batch.rep.length = later.batch.rep.length) : later = earlier := by
  obtain ⟨more, longer, noMore⟩ := post
  apply noMore
  have lengths := congrArg List.length longer
  rw [List.length_append, List.length_drop, List.length_drop, same] at lengths
  exact length_eq_zero_iff.mp (by omega)

end After

variable {s next : Batch × List Contents} {action : BatchAction}

theorem Nested.update (nested : Nested s) (call : BatchCall) :
    ((s.1.perform (.update call)).1 = .memoryLimit →
      (s.1.perform (.update call)).2 = s.1) ∧
    Nested ((s.1.perform (.update call)).2, s.2) := by
  obtain ⟨formed, saved, chain⟩ := nested
  obtain ⟨here, older⟩ := forall_mem_cons.mp formed
  obtain ⟨addedFormed, post⟩ := here.add call
  dsimp only [Batch.perform]
  split
  · rw [post.restore addedFormed here]
    exact ⟨fun _ => rfl, formed, saved, chain⟩
  refine ⟨(nomatch ·), forall_mem_cons.mpr ⟨addedFormed, older⟩, saved, ?_⟩
  obtain ⟨first, rest⟩ := pairwise_cons.mp chain
  exact pairwise_cons.mpr ⟨fun saved isSaved => post.trans (first saved isSaved), rest⟩

theorem Nested.rollback {saved : Contents} {rest : List Contents} (nested : Nested s)
    (top : s.2 = saved :: rest) :
    s.1.perform .rollbackToSavePoint =
      (.ok, { s.1 with
        toContents := saved
        savePoints := rest.map Contents.savePoint }) := by
  obtain ⟨formed, isSaved, chain⟩ := nested
  rw [top] at formed isSaved chain
  obtain ⟨here, older⟩ := forall_mem_cons.mp formed
  have savedFormed := older saved mem_cons_self
  have post := (pairwise_cons.mp chain).1 saved mem_cons_self
  have positive : saved.savePoint.size ≠ 0 := by
    obtain ⟨count, data, isRep⟩ := savedFormed
    rw [Contents.savePoint, isRep]
    exact Nat.succ_ne_zero _
  simp only [Batch.perform, isSaved, map_cons, if_neg positive]
  split
  next same => rw [post.eq_of_size same]
  next => rw [post.restore here savedFormed]

theorem Nested.step (nested : Nested s) (taken : step s action = some next) :
    Nested next := by
  obtain rfl := Option.some.inj taken
  obtain ⟨batch, stack⟩ := s
  cases action with
  | update call => exact (nested.update call).2
  | setSavePoint =>
    obtain ⟨formed, saved, chain⟩ := nested
    obtain ⟨first, -⟩ := pairwise_cons.mp chain
    have unchanged : After batch.toContents batch.toContents := ⟨[], by simp, fun _ => rfl⟩
    exact ⟨forall_mem_cons.mpr ⟨formed _ mem_cons_self, formed⟩,
      congrArg (batch.toContents.savePoint :: ·) saved,
      pairwise_cons.mpr ⟨forall_mem_cons.mpr ⟨unchanged, first⟩, chain⟩⟩
  | popSavePoint =>
    obtain ⟨formed, saved, chain⟩ := nested
    cases stack with
    | nil => simpa [step, Batch.perform, show batch.savePoints = [] from saved] using
        Nested.mk formed saved chain
    | cons top rest =>
      simp only [Batch.perform, show batch.savePoints = _ :: _ from saved]
      exact ⟨fun contents mem => formed contents (by grind), rfl,
        chain.sublist (.cons_cons _ (sublist_cons_self top rest))⟩
  | rollbackToSavePoint =>
    cases stack with
    | nil => simpa [step, Batch.perform, show batch.savePoints = [] from nested.saved] using nested
    | cons saved rest =>
      rw [nested.rollback rfl]
      exact ⟨fun contents mem => nested.formed contents (mem_cons_of_mem _ mem), rfl,
        (pairwise_cons.mp nested.chain).2⟩

/-- In every run of a new batch, whatever the nesting and the limit. -/
theorem savePoints_restore (maxBytes : Nat) (actions : List BatchAction) :
    AllHold step Restores actions
      ({ batch := .clear, contentFlags := 0, maxBytes := maxBytes }, []) := by
  refine allHold_of_invariant Nested ?_ (fun _ _ _ nested taken => nested.step taken)
    ⟨forall_mem_singleton.mpr ⟨0, [], rfl⟩, rfl, pairwise_singleton _ _⟩
  intro s nested
  have same : ∀ contents : Contents, contents.Same contents :=
    fun _ => ⟨fun _ _ _ => rfl, rfl, rfl⟩
  refine ⟨fun call isLimit => ?_, fun saved isTop => ?_⟩
  · rw [(nested.update call).1 isLimit]
    exact same _
  obtain ⟨rest, top⟩ := head?_eq_some_iff.mp isTop
  rw [nested.rollback top]
  exact ⟨rfl, same saved⟩

end Kvdb

end InsDb
