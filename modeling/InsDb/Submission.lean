import InsDb.TransactionLog
import InsDb.VerticalMerge

/-!
# Submitting requests

A worker takes requests from the queue, merges the pending nodes of each into the node that
it submits, and gives that node the internal key of the key block once the block is written.
-/

namespace InsDb

open InsDb.Library

variable {K V : Type} [LinearOrder K]

def Db.column (db : Db K V) (key : K) (colId : Nat) : ColumnData V :=
  ((db.findUserKey key).getD .empty).columns colId

def Db.setColumn (db : Db K V) (key : K) (colId : Nat) (data : ColumnData V) :
    Db K V :=
  db.setUserKey key (((db.findUserKey key).getD .empty).setColumn colId data)

structure Submission (K : Type) where
  key : K
  colId : Nat
  -- `latest_col_node_`, the node that is submitted.
  colNode : Nat
  trxnDeque : List Transaction := []
  -- `trxn_group_id_for_dec_`.
  trxnGroupID : Nat := 0
deriving DecidableEq, Repr

def Db.designated (db : Db K V) (request : RequestNode K) : Option Nat :=
  request.latestColNode.or (db.column request.key request.colId).latestColNode

/-- Changes the node that `designated` names. -/
def ColumnData.modifyNode (data : ColumnData V) (designated : Nat)
    (change : ColumnNode V → ColumnNode V) : ColumnData V :=
  { data with
    colList := data.colList.map fun node =>
      if node.beginSeq = designated then change node else node }

def ColumnNode.beginSubmit (workerId : Nat) (node : ColumnNode V) : ColumnNode V :=
  { node with ikeySeq := workerId, tgidSplit := false }

/-- `ColumnNode::UpdateColumnNode`, with the offset that `SetKeyBlockOffset` left. -/
def ColumnNode.updateColumnNode (ikeySeq kbOffset ivalueSize : Nat) (node : ColumnNode V) :
    ColumnNode V :=
  { node with
    ikeySeq := ikeySeq
    kbOffset := kbOffset
    ivalueSize := ivalueSize
    userValue := none }

namespace Db

variable (db : Db K V)

/-- A worker takes the request at `position`.  A request whose node was not fixed is no longer
open to later updates. -/
def takeRequest (workerId position : Nat) : Option (Submission K × Db K V) :=
  match db.pendingReq[position]? with
  | none => none
  | some (_, request) =>
    (db.designated request).map fun colNode =>
      let data := db.column request.key request.colId
      let taken := data.modifyNode colNode (ColumnNode.beginSubmit workerId)
      ({ key := request.key
         colId := request.colId
         colNode := colNode
         trxnDeque := request.trxnDeque },
        { db.setColumn request.key request.colId
            { taken with
              requestNode :=
                if request.latestColNode.isSome then data.requestNode else none } with
          pendingReq := db.pendingReq.eraseIdx position })

variable (sub : Submission K)

def visited :
    Option (ColumnNode V × List (ColumnNode V)) :=
  match (splitAtNode sub.colNode
      (db.column sub.key sub.colId).colList).2 with
  | [] => none
  | head :: older => some (head, older.takeWhile mergeable)

/-- `DoVerticalMerge` for one request: the transactions of the merged nodes are done with,
the one of the submitted node is left to `submitRequest`. -/
def buildRequest :
    Option (Submission K × List Transaction × Db K V) :=
  (db.visited sub).map fun (head, older) =>
    let info := trxnInfo head older sub.trxnDeque
    ({ sub with
        trxnDeque := []
        trxnGroupID := if head.transaction then info.head.group else 0 },
      info.merged,
      { db.setColumn sub.key sub.colId
          ((db.column sub.key sub.colId).doVerticalMerge
            (db.snapshots.map Snapshot.seqNum) sub.colNode) with
        trxns :=
          info.merged.foldl (fun groups trxn => groups.decTrxnGroup trxn.group 1) db.trxns })

def submitRequest (ikeySeq kbOffset ivalueSize : Nat) :
    Db K V :=
  { db.setColumn sub.key sub.colId
      ((db.column sub.key sub.colId).modifyNode sub.colNode
        (ColumnNode.updateColumnNode ikeySeq kbOffset ivalueSize)) with
    trxns :=
      if sub.trxnGroupID ≠ 0 then
        db.trxns.decTrxnGroup sub.trxnGroupID 1
      else
        db.trxns }

end Db

section

variable {db : Db K V} (nonempty : db.tables ≠ []) (key : K)

include nonempty key

theorem Db.column_setUserKey (user : UserKey V) (other : K) (col : Nat) :
    (db.setUserKey key user).column other col =
      if key = other then user.columns col else db.column other col := by
  unfold Db.column
  rw [Db.findUserKey_setUserKey db nonempty]
  split_ifs
  · rfl
  · rfl

theorem Db.column_setColumn (col : Nat) (data : ColumnData V) (other : K) (col' : Nat) :
    (db.setColumn key col data).column other col' =
      if key = other ∧ col = col' then data else db.column other col' := by
  unfold Db.setColumn
  rw [Db.column_setUserKey nonempty, UserKey.setColumn_columns]
  by_cases sameKey : key = other
  · subst sameKey
    by_cases sameCol : col = col'
    · subst sameCol
      simp
    · simp [sameCol, Ne.symm sameCol, Db.column]
  · simp [sameKey]

theorem Db.setUserKey_tables_ne_nil (user : UserKey V) : (db.setUserKey key user).tables ≠ [] := by
  intro empty
  have length := congrArg List.length empty
  simp only [Db.setUserKey, List.length_modify, List.length_nil] at length
  exact nonempty (List.eq_nil_of_length_eq_zero length)

end

end InsDb
