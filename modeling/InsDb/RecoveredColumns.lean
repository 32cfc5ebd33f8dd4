import InsDb.CompactRange
import Mathlib.Data.List.Chain
import Mathlib.Data.List.Induction

/-!
# Recovered columns

Recovery puts the columns it finds in the workers' logs into the key map.  A recovered
column has no sequence number; `InsertColumnNode` puts it behind the columns that are
there.
-/

namespace InsDb

open InsDb.Library List

structure ColumnInfo (K : Type) where
  key : K
  colId : Nat
  requestType : RequestType
  ikeySeq : Nat
  ttl : Nat
  kbSize : Nat
  kbIndex : Nat
  trxn : Transaction
  merged : List Transaction
deriving DecidableEq, Repr

variable {K V : Type}

/-- `ColumnNode(type, ikey_seq, ttl, ivalue_size, offset)`. -/
def ColumnInfo.node (info : ColumnInfo K) : ColumnNode V :=
  { requestType := info.requestType
    beginSeq := 0
    ts := info.ttl
    ikeySeq := info.ikeySeq
    kbOffset := info.kbIndex
    ivalueSize := info.kbSize
    trxnCommitted := true }

/-- The key after the column was inserted.  Nothing is returned where the process is
stopped: the sequence number of the newest column is not below the internal key. -/
def ColumnInfo.insertInto (info : ColumnInfo K) (existing : Option (UserKey V)) :
    Option (UserKey V) :=
  let user := existing.getD UserKey.empty
  let inserted :=
    user.setColumn info.colId ((user.columns info.colId).insertColumnNode info.node).2
  match existing.bind fun user => (user.columns info.colId).colList.head? with
  | some newest => if newest.beginSeq < info.ikeySeq then some inserted else none
  | none => some inserted

def recoveredColumn (first : ColumnInfo K) (later : List (ColumnInfo K)) :
    ColumnData V :=
  { colList :=
      first.node :: later.map fun info => { (info.node : ColumnNode V) with endSeq := 0 }
    latestColNode := some 0 }

theorem recoveredColumn_oldest {first last : ColumnInfo K} {later : List (ColumnInfo K)}
    (isLast : (first :: later).getLast? = some last) :
    ∃ oldest : ColumnNode V,
      (recoveredColumn first later : ColumnData V).colList.getLast? = some oldest ∧
        oldest.ikeySeq = last.ikeySeq ∧ oldest.beginSeq = 0 := by
  cases later using reverseRecOn with
  | nil =>
    obtain rfl := Option.some.inj isLast
    exact ⟨first.node, rfl, rfl, rfl⟩
  | append_singleton later pre =>
    rw [← cons_append, getLast?_concat] at isLast
    obtain rfl := Option.some.inj isLast
    refine ⟨{ (pre.node : ColumnNode V) with endSeq := 0 }, ?_, rfl, rfl⟩
    rw [recoveredColumn, map_append, map_singleton, ← cons_append, getLast?_concat]

theorem insertInto_recovered {first info last : ColumnInfo K} {later : List (ColumnInfo K)}
    {user : UserKey V} (isLast : (first :: later).getLast? = some last)
    (c : user.columns info.colId = recoveredColumn first later)
    (increasing : last.ikeySeq < info.ikeySeq) :
    ∃ inserted, info.insertInto (some user) = some inserted ∧
      inserted.columns info.colId = recoveredColumn first (later ++ [info]) := by
  obtain ⟨oldest, isOldest, sameKey, beginsFirst⟩ :=
    @recoveredColumn_oldest K V first last later isLast
  have another : ¬ (oldest.ikeySeq = (info.node : ColumnNode V).ikeySeq ∧
      oldest.kbOffset = (info.node : ColumnNode V).kbOffset) := by
    rintro ⟨same, -⟩
    rw [sameKey] at same
    exact Nat.ne_of_lt increasing same
  have newest : (user.columns info.colId).colList.head? = some first.node := by
    rw [c]
    rfl
  have accepted : (first.node : ColumnNode V).beginSeq < info.ikeySeq :=
    Nat.zero_lt_of_lt increasing
  refine ⟨user.setColumn info.colId ((user.columns info.colId).insertColumnNode info.node).2,
    ?_, ?_⟩
  · simp [ColumnInfo.insertInto, newest, if_pos accepted]
  rw [UserKey.setColumn_columns, if_pos rfl, c, ColumnData.insertColumnNode, isOldest]
  simp only [if_neg another, beginsFirst]
  simp [recoveredColumn]

section

variable {first : ColumnInfo K} {later : List (ColumnInfo K)} {col : Nat}
  (same : ∀ info ∈ first :: later, info.colId = col)
  (increasing : (first :: later).IsChain fun info next => info.ikeySeq < next.ikeySeq)

include same increasing

theorem insertInto_versions : ∃ user : UserKey V,
      (first :: later).foldlM (fun existing info => (info.insertInto existing).map some) none =
          some (some user) ∧
        user.columns col = recoveredColumn first later := by
  induction later using reverseRecOn with
  | nil =>
    obtain rfl := same first mem_cons_self
    refine ⟨UserKey.empty.setColumn first.colId
      (((UserKey.empty : UserKey V).columns first.colId).insertColumnNode first.node).2,
      rfl, ?_⟩
    rw [UserKey.setColumn_columns, if_pos rfl]
    rfl
  | append_singleton later info ih =>
    rw [← cons_append] at same increasing ⊢
    have chain := isChain_append.mp increasing
    obtain ⟨_, folded, c⟩ := ih
      (fun other inList => same other (mem_append_left _ inList)) chain.1
    obtain rfl := same info (mem_append_right _ mem_cons_self)
    obtain ⟨last, isLast⟩ : ∃ last, (first :: later).getLast? = some last :=
      ⟨_, getLast?_eq_getLast_of_ne_nil (cons_ne_nil first later)⟩
    obtain ⟨inserted, insertion, insertedColumn⟩ :=
      insertInto_recovered isLast c (chain.2.2 last isLast info rfl)
    refine ⟨inserted, ?_, insertedColumn⟩
    rw [foldlM_append, folded]
    simp [insertion]

theorem recovered_versions_read_first : ∃ user : UserKey V,
      (first :: later).foldlM (fun existing info => (info.insertInto existing).map some) none =
          some (some user) ∧
        ∀ point, user.getColumnNode col point =
          (first.node : ColumnNode V).answer point.curTime point.ttl := by
  obtain ⟨user, folded, c⟩ := @insertInto_versions K V _ _ _ same increasing
  refine ⟨user, folded, ?_⟩
  intro point
  have latest : (recoveredColumn first later : ColumnData V).latestNode = some first.node := rfl
  have cover : (first.node : ColumnNode V).covers point.seqNum = true := by
    simp [ColumnInfo.node, ColumnNode.covers]
  simp only [UserKey.getColumnNode, c, ColumnData.getColumnNode, latest, cover, if_true]

end

/-- `Manifest::InsertUserKey`, which is not implemented and returns false. -/
def Db.insertUserKey (_ : Db K V) (_ : K) (_ : UserKey V) :
    Option (Db K V) :=
  none

variable [LinearOrder K]

/-- `DBRecovery::InsertRecoveredKeyToKeymap`; nothing is returned when it stops the
process. -/
def Db.insertRecoveredKeyToKeymap (db : Db K V) (info : ColumnInfo K) :
    Option (Db K V) :=
  match (db.searchUserKey info.key).bind db.findUserKey with
  | some user => (info.insertInto (some user)).map (db.setUserKey info.key)
  | none => (info.insertInto none).bind (db.insertUserKey info.key)

/-- Recovery accepts the versions, and a read then finds the last of them. -/
def Db.RecoversLast (db : Db K V) (versions : List (ColumnInfo K)) : Prop :=
  ∃ recovered, versions.foldlM Db.insertRecoveredKeyToKeymap db = some recovered ∧
    ∀ last, versions.getLast? = some last →
      recovered.designate none last.key last.colId =
        if last.requestType = .put then some (.keyBlock last.ikeySeq last.kbIndex) else none

theorem Db.insertRecoveredKeyToKeymap_eq_none (db : Db K V) (info : ColumnInfo K) :
    db.insertRecoveredKeyToKeymap info = none := rfl

/-- No version of any column is accepted. -/
theorem recovered_versions_accepted_iff (db : Db K V) (versions : List (ColumnInfo K)) :
    db.RecoversLast versions ↔ versions = [] := by
  constructor
  · rintro ⟨_, accepted, -⟩
    cases versions with
    | nil => rfl
    | cons =>
      rw [foldlM_cons, db.insertRecoveredKeyToKeymap_eq_none] at accepted
      cases accepted
  · rintro rfl
    refine ⟨db, rfl, ?_⟩
    intro _ isLast
    cases isLast

def loggedPut : ColumnInfo Nat where
  key := 1
  colId := 0
  requestType := .put
  ikeySeq := 1088
  ttl := 0
  kbSize := 16
  kbIndex := 0
  trxn := {}
  merged := []

theorem recovered_put_is_refused : ¬ oneTable.RecoversLast [loggedPut] := by
  rintro ⟨_, accepted, -⟩
  cases accepted

end InsDb
