import InsDb.BatchSnapshot
import InsDb.FlushKey
import InsDb.IteratorOrder

/-!
# Flushing a table

`SKTableMem::FlushSKTableMem` merges the key map of a table with the rows of its device
format. `DeviceFormatBuilder` fills the table and, when it is full, one sub table after
another. A table may lose its begin key or all of its keys on the way.
-/

namespace InsDb

open InsDb.Library InsDb.Library.Sweep List

structure FlushEnv (K V : Type) where
  kMaxColumnCount : Nat
  trxnGroupCompleted : ColumnNode V → Bool
  -- The buffer of a table with these rows has no room for the key.
  full : List (K × Bytes) → K → Bool
  referenced : K → Bool
  nextSKTableDeleted : Bool

structure BuiltTable (K : Type) where
  beginKey : K
  rows : List (K × Bytes) := []
  deleted : Bool := false
deriving DecidableEq, Repr

variable {K V : Type} [LinearOrder K]

variable (t : BuiltTable K)

/-- A key is done with.  If it was the begin key and is removed, the next key of either
stream takes its place, and without one the table is deleted; the first table of the
database keeps its begin key.  `SetBeginKey` is taken for what it is meant to do here. -/
def BuiltTable.place (first : Bool)
    (item : OuterJoin.Item K (UserKey V) Bytes) (left : KeyLeft V)
    (next : Option K) : BuiltTable K :=
  let stored := { t with rows := t.rows ++ (left.row.map (Prod.mk item.key)).toList }
  if item.left.isSome ∧ left.user.isNone ∧ item.key = t.beginKey ∧ first = false then
    match next with
    | some key => { stored with beginKey := key }
    | none => { stored with deleted := true }
  else
    stored

/-- The loops of `FlushSKTableMem` and `DeviceFormatBuilder`: the tables, and the keys as the
builder leaves them. -/
def deviceFormatBuilder (full : List (K × Bytes) → K → Bool) (info : BuilderInfo V)
    (flushed : Bool) :
    Bool → BuiltTable K → List (OuterJoin.Item K (UserKey V) Bytes) →
      List (BuiltTable K) × List (K × KeyLeft V)
  | _, target, [] => ([target], [])
  | first, target, item :: rest =>
    let next := rest.head?.map OuterJoin.Item.key
    let left := buildKey info flushed (full target.rows item.key) item.left item.right
    if left.startsNext then
      let again := buildKey info flushed (full [] item.key) left.user left.row
      let sub : BuiltTable K := { beginKey := item.key }
      let later := deviceFormatBuilder full info flushed false
        (sub.place false item again next) rest
      (target :: later.1, (item.key, again) :: later.2)
    else
      let later := deviceFormatBuilder full info flushed first
        (target.place first item left next) rest
      (later.1, (item.key, left) :: later.2)

/-- `SKTableMem::EvictCleanUserKeyFromKeymap`: only the cache evictor goes on after a key
that it cannot evict. -/
def evictCleanUserKey (referenced : K → Bool) (cacheEvict : Bool) :
    List (K × UserKey V) → List (K × UserKey V)
  | [] => []
  | (key, user) :: rest =>
    if user.dirty || referenced key then
      (key, user) :: if cacheEvict then evictCleanUserKey referenced cacheEvict rest else rest
    else
      evictCleanUserKey referenced cacheEvict rest

def BuiltTable.toSKTable (keymap : List (K × UserKey V)) :
    SKTable K V :=
  { beginKey := t.beginKey, keymap := keymap, rows := t.rows, hasBeenFlushed := true }

def handOut : List (BuiltTable K) → List (K × UserKey V) → List (SKTable K V)
  | [], _ => []
  | t :: rest, users =>
    match rest with
    | [] => [t.toSKTable users]
    | next :: _ =>
      t.toSKTable (users.takeWhile fun user => user.1 < next.beginKey) ::
        handOut rest (users.dropWhile fun user => user.1 < next.beginKey)

def keepPads (pads : Nat → Option (IterScratchPad K V)) :
    List (SKTable K V) → List (SKTable K V)
  | [] => []
  | main :: subs => { main with latestIterPad := pads } :: subs

/-- `SKTableMem::FlushSKTableMem`.  A deleted table is taken out of the skiplist; a sub table
without rows is not inserted. -/
def SKTable.flushSKTableMem (t : SKTable K V) (env : FlushEnv K V)
    (info : BuilderInfo V) (first : Bool) : List (SKTable K V) :=
  let moved := t.insertUserKeyToKeyMap.2
  let pads := if moved.keymap.isEmpty then fun _ => none else moved.latestIterPad
  if moved.keymap.isEmpty && !env.nextSKTableDeleted then
    [{ moved with latestIterPad := pads }]
  else
    let built := deviceFormatBuilder env.full info moved.hasBeenFlushed first
      { beginKey := moved.beginKey } (OuterJoin.join moved.keymap moved.rows)
    let users := evictCleanUserKey env.referenced false (Rows.filterMap KeyLeft.user built.2)
    match built.1 with
    | [] => []
    | main :: subs =>
      if main.deleted then
        []
      else
        keepPads pads (handOut (main :: subs.filter fun sub => !sub.rows.isEmpty) users)

namespace Db

/-- `SKTableDFBuilderInfo` at the start of a flush. -/
def builderInfo (db : Db K V) (env : FlushEnv K V) : BuilderInfo V :=
  { snapshots := db.snapshots.map Snapshot.seqNum
    curTime := db.now
    ttlList := db.ttlList
    kMaxColumnCount := env.kMaxColumnCount
    trxnGroupCompleted := env.trxnGroupCompleted }

/-- The table at `index` is flushed. -/
def flush (db : Db K V) (env : FlushEnv K V) (index : Nat) : Db K V :=
  match db.tables[index]? with
  | none => db
  | some t =>
    { db with
      tables := db.tables.take index ++
        (t.flushSKTableMem env (db.builderInfo env) (index == 0) ++
          db.tables.drop (index + 1)) }

end Db

end InsDb
