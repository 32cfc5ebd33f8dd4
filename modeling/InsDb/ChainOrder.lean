import InsDb.Flush
import InsDb.TableChain

/-!
# The chain over many flushes

Keys go to the last table in the skiplist that begins at or before them; a flush keeps them,
removes them, or starts a new table at one.  Over any number of puts and flushes the chain is
looked at as a whole: its links, its ids and its begin keys.
-/

namespace InsDb

open InsDb.Library List
open Varint (Bytes)

/-- What the builder finds for a key: it has a column to be stored and no room is left for it, or
nothing is left of it.  A key for which both hold has lost its column by the time the builder
comes to it again in the new table. -/
structure KeyFate (K : Type) where
  key : K
  startsNext : Bool
  removed : Bool
deriving DecidableEq, Repr

/-- The first table of the database, another table that is flushed, or a sub table. -/
inductive TableRole where
  | first
  | main
  | sub
deriving DecidableEq, Repr

variable {K : Type} [LinearOrder K]

def KeyRange.Has (range : KeyRange K) (key : K) : Prop := key ∈ range.keys

/-- The loops of `FlushSKTableMem` and `DeviceFormatBuilder` over the keys of a table.  A begin
key that is removed is replaced by the next key with `SetBeginKey`, which writes past its array
of two buffers, and a sub table without keys is an abort: nothing is known of the tables then. -/
def buildRanges : TableRole → K → Finset K → List (KeyFate K) →
    Option (KeyRange K × List (KeyRange K))
  | _, beginKey, kept, [] => some (⟨beginKey, kept, false⟩, [])
  | role, beginKey, kept, fate :: rest =>
    if fate.startsNext = true ∧ kept ≠ ∅ then
      if fate.removed = true then
        none
      else
        (buildRanges .sub fate.key {fate.key} rest).map fun (sub, subs) =>
          (⟨beginKey, kept, false⟩, sub :: subs)
    else if fate.removed = false then
      buildRanges role beginKey (insert fate.key kept) rest
    else if fate.key ≠ beginKey ∨ role = .first then
      buildRanges role beginKey kept rest
    else if rest = [] ∧ role = .main then
      some (⟨beginKey, kept, true⟩, [])
    else
      none

/-- The keys at which a table is started: no room is left, and a key before it stays. -/
def starting : Bool → List (KeyFate K) → List (KeyFate K)
  | _, [] => []
  | nonempty, fate :: rest =>
    if fate.startsNext = true ∧ nonempty = true then
      fate :: starting true rest
    else
      starting (nonempty || !fate.removed) rest

structure ChainState (K : Type) where
  counter : Nat
  tables : List (ChainTable K)
  corrupted : Bool
deriving DecidableEq

inductive ChainAction (K : Type) where
  | put (key : K)
  | flush (index : Nat) (fates : List (KeyFate K)) (merged : Nat)

/-- `FindSKTableMem` finds the table with this range: deleted tables have left the skiplist. -/
def Owns (ranges : List (KeyRange K)) (key : K) (range : KeyRange K) : Prop :=
  range.deleted = false ∧ range.beginKey ≤ key ∧
    ∀ other ∈ ranges, other.deleted = false → other.beginKey ≤ key →
      other.beginKey ≤ range.beginKey

instance (ranges : List (KeyRange K)) (key : K) (range : KeyRange K) :
    Decidable (Owns ranges key range) :=
  inferInstanceAs (Decidable (_ ∧ _ ∧ _))

def insertKey (ranges : List (KeyRange K)) (key : K) (range : KeyRange K) : KeyRange K :=
  if Owns ranges key range then { range with keys := insert key range.keys } else range

def ChainTable.role (t : ChainTable K) : TableRole :=
  if t.sktid = 1 then .first else .main

namespace ChainState

def ranges (s : ChainState K) : List (KeyRange K) := s.tables.map ChainTable.range

def step (s : ChainState K) : ChainAction K → Option (ChainState K)
  | .put key =>
    some
      { s with
        tables := s.tables.map fun t => { t with range := insertKey s.ranges key t.range } }
  | .flush index fates merged =>
    match s.tables[index]? with
    | none => none
    | some main =>
      if main.range.deleted = false ∧ (fates.map KeyFate.key).Pairwise (· < ·) ∧
          (fates.map KeyFate.key).toFinset = main.range.keys then
        match buildRanges main.role main.range.beginKey ∅ fates with
        | none => some { s with corrupted := true }
        | some (built, subs) =>
          some { s with
            counter := s.counter + 2 * subs.length
            tables := s.tables.take index ++
              flushTables s.counter main (s.tables.drop (index + 1)) built subs merged }
      else
        none

/-- A new database: its only table has the id 1 and the empty begin key. -/
def new [OrderBot K] : ChainState K :=
  { counter := 2, tables := [⟨1, 0, 2, ⟨⊥, ∅, false⟩⟩], corrupted := false }

/-- The links go through the tables, every id is in use once, the preallocated ids are fresh, and
the begin keys ascend. -/
structure Ordered (s : ChainState K) : Prop where
  intact : s.corrupted = false
  linked : Linked 0 s.tables
  ids : (s.tables.map ChainTable.sktid).Nodup
  preallocs : (s.tables.map ChainTable.preallocID).Nodup
  fresh : ∀ t ∈ s.tables, ∀ other ∈ s.tables, t.preallocID ≠ other.sktid
  ascending : s.ranges.Pairwise fun earlier later => earlier.beginKey < later.beginKey

/-- A flush removes the begin key of no table but the first, unless it is the only key, and
starts no table at a key that it then removes, or that is not below the deleted tables behind. -/
structure Divides (main : ChainTable K) (post : List (ChainTable K)) (fates : List (KeyFate K)) :
    Prop where
  beginKey : ∀ fate ∈ fates, fate.removed = true → fate.key = main.range.beginKey →
    main.sktid = 1 ∨ fates.length = 1
  starts : fates.Pairwise fun earlier later => earlier.removed = false →
    later.startsNext = true → later.removed = false ∧
      ∀ old ∈ post, old.range.deleted = true → later.key < old.range.beginKey

def DividesAt (s : ChainState K) : ChainAction K → Prop
  | .put _ => True
  | .flush index fates _ =>
    ∀ main, s.tables[index]? = some main → Divides main (s.tables.drop (index + 1)) fates

end ChainState

omit [LinearOrder K] in
theorem forall_starting_iff (holds : KeyFate K → Prop) (nonempty : Bool)
    (fates : List (KeyFate K)) :
    (∀ fate ∈ starting nonempty fates, holds fate) ↔
      (nonempty = true → ∀ fate ∈ fates, fate.startsNext = true → holds fate) ∧
        fates.Pairwise fun earlier later =>
          earlier.removed = false → later.startsNext = true → holds later := by
  induction fates generalizing nonempty with
  | nil => simp [starting]
  | cons fate rest ih =>
    rw [starting]
    split_ifs with starts
    · simp only [forall_mem_cons, ih, pairwise_cons]
      grind
    · rw [ih, pairwise_cons, forall_mem_cons]
      cases nonempty <;> grind

theorem map_beginKey_buildRanges {role : TableRole} {beginKey : K} {kept : Finset K}
    {fates : List (KeyFate K)} {main : KeyRange K} {subs : List (KeyRange K)}
    (builds : buildRanges role beginKey kept fates = some (main, subs)) :
    subs.map KeyRange.beginKey = (starting (decide (kept ≠ ∅)) fates).map KeyFate.key ∧
      main.beginKey = beginKey := by
  induction fates generalizing role beginKey kept main subs with
  | nil =>
    obtain ⟨rfl, rfl⟩ := Prod.mk.inj (Option.some.inj builds)
    exact ⟨rfl, rfl⟩
  | cons fate rest ih =>
    rw [buildRanges] at builds
    split_ifs at builds with starts removed stays other last
    · obtain ⟨⟨sub, later⟩, built, same⟩ := Option.map_eq_some_iff.mp builds
      obtain ⟨rfl, rfl⟩ := Prod.mk.inj same
      obtain ⟨begins, isBegin⟩ := ih built
      rw [starting, if_pos ⟨starts.1, decide_eq_true starts.2⟩, map_cons, map_cons, isBegin, begins]
      simp
    · obtain ⟨begins, isBegin⟩ := ih builds
      refine ⟨?_, isBegin⟩
      rw [starting, if_neg (by simpa using starts), begins, stays]
      simp
    · obtain ⟨begins, isBegin⟩ := ih builds
      refine ⟨?_, isBegin⟩
      rw [starting, if_neg (by simpa using starts), begins, eq_true_of_ne_false stays]
      simp
    · obtain ⟨rfl, rfl⟩ := Prod.mk.inj (Option.some.inj builds)
      rw [starting, if_neg (by simpa using starts), last.1]
      exact ⟨rfl, rfl⟩

/-- Once the begin key is behind, nothing but a key that is removed where it starts a table
breaks the builder. -/
theorem isSome_buildRanges_iff {role : TableRole} {beginKey : K} {kept : Finset K}
    {fates : List (KeyFate K)} (ascending : (fates.map KeyFate.key).Pairwise (· < ·))
    (behind : role = .first ∨ ∀ fate ∈ fates, fate.key ≠ beginKey) :
    (buildRanges role beginKey kept fates).isSome = true ↔
      ∀ fate ∈ starting (decide (kept ≠ ∅)) fates, fate.removed = false := by
  induction fates generalizing role beginKey kept with
  | nil => simp [buildRanges, starting]
  | cons fate rest ih =>
    obtain ⟨later, restAscending⟩ := pairwise_cons.mp ascending
    have restBehind : role = .first ∨ ∀ fate ∈ rest, fate.key ≠ beginKey :=
      behind.imp_right fun all other isOther => all other (mem_cons_of_mem _ isOther)
    rw [buildRanges]
    split_ifs with starts removed stays other last
    · rw [starting, if_pos ⟨starts.1, decide_eq_true starts.2⟩]
      simp [removed]
    · have subBehind : TableRole.sub = .first ∨ ∀ other ∈ rest, other.key ≠ fate.key :=
        .inr fun other isOther => ne_of_gt (later other.key (mem_map_of_mem isOther))
      rw [starting, if_pos ⟨starts.1, decide_eq_true starts.2⟩, forall_mem_cons,
        Option.isSome_map, ih restAscending subBehind]
      simp [removed]
    · rw [starting, if_neg (by simpa using starts), ih restAscending restBehind, stays]
      simp
    · rw [starting, if_neg (by simpa using starts), ih restAscending restBehind,
        eq_true_of_ne_false stays]
      simp
    all_goals
      rw [not_or, not_not] at other
      rcases behind with isFirst | notBegin
      · exact absurd isFirst other.2
      · exact absurd other.1 (notBegin fate mem_cons_self)

variable {main : ChainTable K} {fates : List (KeyFate K)}

theorem isSome_buildRanges_main_iff (ascending : (fates.map KeyFate.key).Pairwise (· < ·))
    (above : ∀ fate ∈ fates, main.range.beginKey ≤ fate.key) :
    (buildRanges main.role main.range.beginKey ∅ fates).isSome = true ↔
      (∀ fate ∈ fates, fate.removed = true → fate.key = main.range.beginKey →
        main.sktid = 1 ∨ fates.length = 1) ∧
        ∀ fate ∈ starting false fates, fate.removed = false := by
  by_cases behind : main.role = .first ∨ ∀ fate ∈ fates, fate.key ≠ main.range.beginKey
  · rw [isSome_buildRanges_iff ascending behind]
    simp only [ne_eq, not_true_eq_false, decide_false]
    refine (and_iff_right ?_).symm
    intro fate isFate _ isBegin
    rcases behind with isFirst | notBegin
    · left
      unfold ChainTable.role at isFirst
      split_ifs at isFirst with first
      exact first
    · exact absurd isBegin (notBegin fate isFate)
  rw [not_or] at behind
  obtain ⟨notFirst, hasBegin⟩ := behind
  push Not at hasBegin
  have isMain : main.role = .main ∧ main.sktid ≠ 1 := by
    unfold ChainTable.role at notFirst ⊢
    split_ifs at notFirst ⊢ with first
    · exact absurd rfl notFirst
    · exact ⟨rfl, first⟩
  cases fates with
  | nil => simp at hasBegin
  | cons fate rest =>
    obtain ⟨later, restAscending⟩ := pairwise_cons.mp ascending
    have restAfter : ∀ other ∈ rest, fate.key < other.key :=
      fun other isOther => later other.key (mem_map_of_mem isOther)
    have isBegin : fate.key = main.range.beginKey := by
      obtain ⟨found, isFound, same⟩ := hasBegin
      rcases mem_cons.mp isFound with rfl | inRest
      · exact same
      · exact absurd (above fate mem_cons_self) (not_le_of_gt (same ▸ restAfter found inRest))
    have restBehind : ∀ other ∈ rest, other.key ≠ main.range.beginKey :=
      fun other isOther => isBegin ▸ ne_of_gt (restAfter other isOther)
    have noRoom : ¬ (fate.startsNext = true ∧ (∅ : Finset K) ≠ ∅) := by simp
    have noStart : ¬ (fate.startsNext = true ∧ false = true) := by simp
    rw [buildRanges, if_neg noRoom, starting, if_neg noStart, isMain.1]
    cases removed : fate.removed with
    | false =>
      rw [if_pos rfl, isSome_buildRanges_iff restAscending (.inr restBehind)]
      have keeps : ∀ other ∈ fate :: rest, other.removed = true →
          other.key = main.range.beginKey → main.sktid = 1 ∨ (fate :: rest).length = 1 := by
        refine forall_mem_cons.mpr ⟨by simp [removed], ?_⟩
        intro other isOther _ same
        exact absurd same (restBehind other isOther)
      rw [and_iff_right keeps]
      simp
    | true =>
      have lost : ¬ (fate.key ≠ main.range.beginKey ∨ TableRole.main = .first) := by
        simp [isBegin]
      rw [if_neg (show ¬ true = false by decide), if_neg lost]
      cases rest with
      | nil => simp [starting]
      | cons next rest =>
        simp [isMain.2, removed, isBegin]

/-- How the builder divides the keys of a table. -/
structure Divided (beginKey : K) (kept : Finset K) (fates : List (KeyFate K))
    (parts : List (KeyRange K)) : Prop where
  ordered : parts.Pairwise fun earlier later => earlier.beginKey < later.beginKey
  below : parts.Pairwise fun earlier later => ∀ key, earlier.Has key → key < later.beginKey
  above : ∀ part ∈ parts, ∀ key, part.Has key → part.beginKey ≤ key
  keys : ∀ part ∈ parts, ∀ key, part.Has key → key ∈ kept ∨ key ∈ fates.map KeyFate.key
  cuts : ∀ part ∈ parts, beginKey ≤ part.beginKey ∧
    (part.beginKey = beginKey ∨ part.beginKey ∈ fates.map KeyFate.key)

theorem divided_singleton {beginKey : K} {kept : Finset K} (fates : List (KeyFate K))
    (above : ∀ key ∈ kept, beginKey ≤ key) (deleted : Bool) :
    Divided beginKey kept fates [⟨beginKey, kept, deleted⟩] :=
  { ordered := pairwise_singleton _ _
    below := pairwise_singleton _ _
    above := forall_mem_singleton.mpr above
    keys := forall_mem_singleton.mpr fun _ => .inl
    cuts := forall_mem_singleton.mpr ⟨le_rfl, .inl rfl⟩ }

theorem divided_buildRanges {role : TableRole} {beginKey : K} {kept : Finset K}
    {fates : List (KeyFate K)} {main : KeyRange K} {subs : List (KeyRange K)}
    (builds : buildRanges role beginKey kept fates = some (main, subs))
    (ascending : (fates.map KeyFate.key).Pairwise (· < ·))
    (fatesAbove : ∀ key ∈ fates.map KeyFate.key, beginKey ≤ key)
    (keptAbove : ∀ key ∈ kept, beginKey ≤ key)
    (keptBelow : ∀ key ∈ kept, ∀ later ∈ fates.map KeyFate.key, key < later) :
    Divided beginKey kept fates (main :: subs) := by
  induction fates generalizing role beginKey kept main subs with
  | nil =>
    obtain ⟨rfl, rfl⟩ := Prod.mk.inj (Option.some.inj builds)
    exact divided_singleton [] keptAbove false
  | cons fate rest ih =>
    rw [map_cons] at ascending fatesAbove keptBelow
    obtain ⟨later, restAscending⟩ := pairwise_cons.mp ascending
    obtain ⟨atLeast, restAbove⟩ := forall_mem_cons.mp fatesAbove
    have keptBelowRest : ∀ key ∈ kept, ∀ later ∈ rest.map KeyFate.key, key < later :=
      fun key isKept later isLater => keptBelow key isKept later (mem_cons_of_mem _ isLater)
    rw [buildRanges] at builds
    split_ifs at builds with starts removed stays other last
    · -- The key starts a table: what is kept so far lies below it.
      obtain ⟨⟨sub, others⟩, built, same⟩ := Option.map_eq_some_iff.mp builds
      obtain ⟨rfl, rfl⟩ := Prod.mk.inj same
      have divided := ih built restAscending (fun key isKey => (later key isKey).le) (by simp)
        (by simpa using later)
      have below : ∀ key ∈ kept, ∀ part ∈ sub :: others, key < part.beginKey :=
        fun key isKept part isPart =>
          (keptBelow key isKept fate.key mem_cons_self).trans_le (divided.cuts part isPart).1
      obtain ⟨some, isKept⟩ := Finset.nonempty_iff_ne_empty.mpr starts.2
      refine ⟨pairwise_cons.mpr ⟨?_, divided.ordered⟩, pairwise_cons.mpr ⟨?_, divided.below⟩,
        forall_mem_cons.mpr ⟨keptAbove, divided.above⟩,
        forall_mem_cons.mpr ⟨fun _ => .inl, ?_⟩,
        forall_mem_cons.mpr ⟨⟨le_rfl, .inl rfl⟩, ?_⟩⟩
      · exact fun part isPart => (keptAbove some isKept).trans_lt (below some isKept part isPart)
      · exact fun part isPart key isKey => below key isKey part isPart
      · intro part isPart key isKey
        have among := divided.keys part isPart key isKey
        rw [Finset.mem_singleton] at among
        exact .inr (mem_cons.mpr among)
      · intro part isPart
        obtain ⟨notBelow, isBegin⟩ := divided.cuts part isPart
        exact ⟨atLeast.trans notBelow, .inr (mem_cons.mpr isBegin)⟩
    · have divided := ih builds restAscending restAbove
        ((Finset.forall_mem_insert ..).mpr ⟨atLeast, keptAbove⟩)
        ((Finset.forall_mem_insert ..).mpr ⟨later, keptBelowRest⟩)
      refine ⟨divided.ordered, divided.below, divided.above, ?_, ?_⟩
      · intro part isPart key isKey
        have among := divided.keys part isPart key isKey
        rw [Finset.mem_insert] at among
        rw [map_cons, mem_cons]
        tauto
      · exact fun part isPart => (divided.cuts part isPart).imp_right
          (Or.imp_right (mem_cons_of_mem _))
    · have divided := ih builds restAscending restAbove keptAbove keptBelowRest
      refine ⟨divided.ordered, divided.below, divided.above, ?_, ?_⟩
      · exact fun part isPart key isKey => (divided.keys part isPart key isKey).imp_right
          (mem_cons_of_mem _)
      · exact fun part isPart => (divided.cuts part isPart).imp_right
          (Or.imp_right (mem_cons_of_mem _))
    · obtain ⟨rfl, rfl⟩ := Prod.mk.inj (Option.some.inj builds)
      exact divided_singleton _ keptAbove true

section Builder

variable {V : Type} {full : List (K × Bytes) → K → Bool} {info : BuilderInfo V} {flushed : Bool}

theorem row_eq_none_of_removed {isFull : Bool} {user : Option (UserKey V)} {row : Option Bytes}
    (loaded : user.isSome = true) (removed : (buildKey info flushed isFull user row).user = none) :
    (buildKey info flushed isFull user row).row = none := by
  rcases buildKey_cases info flushed isFull user row with copied | ⟨found, rfl, -, rebuilt⟩
  · rw [copied] at removed
    rw [show user = none from removed] at loaded
    cases loaded
  rw [rebuilt] at removed ⊢
  unfold rebuildKey at removed ⊢
  simp only at removed ⊢
  split_ifs at removed ⊢ with stops active
  · rfl
  · simp_all

theorem place_of_kept (t : BuiltTable K) (first : Bool)
    {item : OuterJoin.Item K (UserKey V) Bytes} {left : KeyLeft V}
    (kept : ¬ (item.left.isSome = true ∧ left.user.isNone = true) ∨
      item.key ≠ t.beginKey ∨ first = true) (next : Option K) :
    t.place first item left next =
      { t with rows := t.rows ++ (left.row.map (Prod.mk item.key)).toList } := by
  apply if_neg
  rintro ⟨loaded, removed, isBegin, notFirst⟩
  rcases kept with kept | notBegin | isFirst
  · exact kept ⟨loaded, removed⟩
  · exact notBegin isBegin
  · exact Bool.false_ne_true (notFirst.symm.trans isFirst)

variable (full info flushed) in
/-- The fates that the builder of the flush gives to the keys. -/
def keyFates : Bool → BuiltTable K → List (OuterJoin.Item K (UserKey V) Bytes) → List (KeyFate K)
  | _, _, [] => []
  | first, target, item :: rest =>
    let next := rest.head?.map OuterJoin.Item.key
    let left := buildKey info flushed (full target.rows item.key) item.left item.right
    if left.startsNext then
      let again := buildKey info flushed (full [] item.key) left.user left.row
      ⟨item.key, true, item.left.isSome && again.user.isNone⟩ ::
        keyFates false (({ beginKey := item.key } : BuiltTable K).place false item again next) rest
    else
      ⟨item.key, false, item.left.isSome && left.user.isNone⟩ ::
        keyFates first (target.place first item left next) rest

theorem map_key_keyFates (first : Bool) (target : BuiltTable K)
    (items : List (OuterJoin.Item K (UserKey V) Bytes)) :
    (keyFates full info flushed first target items).map KeyFate.key =
      items.map OuterJoin.Item.key := by
  induction items generalizing first target with
  | nil => rfl
  | cons item rest ih =>
    rw [keyFates]
    simp only
    split_ifs <;> rw [map_cons, map_cons, ih]

/-- The tables of the flush have the begin keys that `buildRanges` makes of the fates. -/
theorem map_beginKey_deviceFormatBuilder (room : ∀ key, full [] key = false)
    (items : List (OuterJoin.Item K (UserKey V) Bytes)) (role : TableRole) (target : BuiltTable K)
    {kept : Finset K} (notDeleted : target.deleted = false) (stored : target.rows ≠ [] → kept ≠ ∅)
    {main : KeyRange K} {subs : List (KeyRange K)}
    (builds : buildRanges role target.beginKey kept
      (keyFates full info flushed (decide (role = .first)) target items) = some (main, subs)) :
    (deviceFormatBuilder full info flushed (decide (role = .first)) target items).1.map
        (fun t => (t.beginKey, t.deleted)) =
      (main :: subs).map fun range => (range.beginKey, range.deleted) := by
  induction items generalizing role target kept main subs with
  | nil =>
    obtain ⟨rfl, rfl⟩ := Prod.mk.inj (Option.some.inj builds)
    simp [deviceFormatBuilder, notDeleted]
  | cons item rest ih =>
    rw [keyFates] at builds
    rw [deviceFormatBuilder]
    simp only at builds ⊢
    generalize isLeft : buildKey info flushed (full target.rows item.key) item.left item.right =
      left at builds ⊢
    generalize isAgain : buildKey info flushed (full [] item.key) left.user left.row = again
      at builds ⊢
    split_ifs at builds ⊢ with startsNext
    · -- A table without room has a row, so that one of its keys stays.
      have hasKey : kept ≠ ∅ := by
        apply stored
        intro noRows
        rw [← isLeft, noRows, room, buildKey_stays] at startsNext
        cases startsNext
      rw [buildRanges, if_pos ⟨rfl, hasKey⟩] at builds
      split_ifs at builds with removed
      rw [Bool.and_eq_true] at removed
      rw [place_of_kept _ false (.inl removed)] at builds ⊢
      obtain ⟨⟨sub, others⟩, built, same⟩ := Option.map_eq_some_iff.mp builds
      obtain ⟨rfl, rfl⟩ := Prod.mk.inj same
      have later := ih .sub
        { beginKey := item.key, rows := [] ++ (again.row.map (Prod.mk item.key)).toList } rfl
        (fun _ => Finset.singleton_ne_empty item.key) built
      rw [map_cons, map_cons, notDeleted, ← later]
      rfl
    rw [buildRanges, if_neg (by simp)] at builds
    split_ifs at builds with stays other last
    · have keeps : ¬ (item.left.isSome = true ∧ left.user.isNone = true) := by
        rw [← Bool.and_eq_true, Bool.not_eq_true]
        exact stays
      rw [place_of_kept _ _ (.inl keeps)] at builds ⊢
      exact ih role { target with rows := target.rows ++ _ } notDeleted
        (fun _ => Finset.insert_ne_empty item.key kept) builds
    · rw [Bool.not_eq_false, Bool.and_eq_true] at stays
      have noRow : left.row = none := by
        rw [← isLeft]
        apply row_eq_none_of_removed stays.1
        rw [isLeft]
        exact Option.isNone_iff_eq_none.mp stays.2
      have placed : target.place (decide (role = .first)) item left
          (rest.head?.map OuterJoin.Item.key) = target := by
        rw [place_of_kept _ _ (.inr (other.imp_right decide_eq_true)), noRow]
        simp
      rw [placed] at builds ⊢
      exact ih role target notDeleted stored builds
    · rw [Bool.not_eq_false, Bool.and_eq_true] at stays
      obtain ⟨rfl, rfl⟩ := Prod.mk.inj (Option.some.inj builds)
      have noRest : rest = [] := by
        rw [← map_eq_nil_iff, ← map_key_keyFates, last.1, map_nil]
      subst noRest
      rw [not_or, not_not] at other
      have lost : item.left.isSome = true ∧ left.user.isNone = true ∧
          item.key = target.beginKey ∧ decide (role = .first) = false :=
        ⟨stays.1, stays.2, other.1, decide_eq_false other.2⟩
      simp only [deviceFormatBuilder, BuiltTable.place, if_pos lost]
      rfl

end Builder

def liveRanges (ranges : List (KeyRange K)) : List (KeyRange K) :=
  ranges.filter fun range => !range.deleted

omit [LinearOrder K] in
theorem mem_liveRanges {ranges : List (KeyRange K)} {range : KeyRange K} :
    range ∈ liveRanges ranges ↔ range ∈ ranges ∧ range.deleted = false := by
  simp [liveRanges]

omit [LinearOrder K] in
theorem liveRanges_append (front back : List (KeyRange K)) :
    liveRanges (front ++ back) = liveRanges front ++ liveRanges back :=
  filter_append ..

/-- The ranges of a chain: the begin keys ascend, and the tables that are not deleted keep to
their ranges. -/
structure RangesOrdered (ranges : List (KeyRange K)) : Prop where
  ascending : ranges.Pairwise fun earlier later => earlier.beginKey < later.beginKey
  live : Partition.InOrder KeyRange.beginKey KeyRange.Has (liveRanges ranges)
  above : ∀ range ∈ liveRanges ranges, ∀ key, range.Has key → range.beginKey ≤ key

theorem insertKey_beginKey (ranges : List (KeyRange K)) (key : K) (range : KeyRange K) :
    (insertKey ranges key range).beginKey = range.beginKey := by
  unfold insertKey
  split_ifs <;> rfl

theorem insertKey_deleted (ranges : List (KeyRange K)) (key : K) (range : KeyRange K) :
    (insertKey ranges key range).deleted = range.deleted := by
  unfold insertKey
  split_ifs <;> rfl

theorem has_insertKey {ranges : List (KeyRange K)} {key other : K} {range : KeyRange K}
    (hasOther : (insertKey ranges key range).Has other) :
    range.Has other ∨ other = key ∧ Owns ranges key range := by
  unfold insertKey at hasOther
  split_ifs at hasOther with owns
  · exact (Finset.mem_insert.mp hasOther).symm.imp_right fun same => ⟨same, owns⟩
  · exact .inl hasOther

theorem RangesOrdered.put {ranges : List (KeyRange K)} (ordered : RangesOrdered ranges) (key : K) :
    RangesOrdered (ranges.map (insertKey ranges key)) := by
  have live : liveRanges (ranges.map (insertKey ranges key)) =
      (liveRanges ranges).map (insertKey ranges key) := by
    simp [liveRanges, filter_map, Function.comp_def, insertKey_deleted]
  have above : ∀ range ∈ (liveRanges ranges).map (insertKey ranges key), ∀ other,
      range.Has other → range.beginKey ≤ other := by
    intro _ isRange other hasOther
    obtain ⟨range, isLive, rfl⟩ := mem_map.mp isRange
    rw [insertKey_beginKey]
    rcases has_insertKey hasOther with old | ⟨rfl, owns⟩
    · exact ordered.above range isLive other old
    · exact owns.2.1
  refine ⟨?_, ?_, live ▸ above⟩
  · rw [pairwise_map]
    simpa only [insertKey_beginKey] using ordered.ascending
  rw [live]
  refine ⟨?_, ?_, fun range isRange => above range (mem_of_mem_tail isRange)⟩
  · rw [pairwise_map]
    simpa only [insertKey_beginKey] using ordered.live.ordered
  rw [pairwise_map]
  -- A key that is put does not reach the next table, or that one would own it.
  refine (ordered.live.below.and ordered.live.ordered).imp_of_mem ?_
  rintro earlier later - isLater ⟨below, before⟩ other hasOther
  rw [insertKey_beginKey]
  rcases has_insertKey hasOther with old | ⟨rfl, owns⟩
  · exact below other old
  by_contra reached
  obtain ⟨among, isLive⟩ := mem_liveRanges.mp isLater
  exact absurd (owns.2.2 later among isLive (not_lt.mp reached)) (not_le_of_gt before)

theorem RangesOrdered.divide {front merged back : List (KeyRange K)} {main built : KeyRange K}
    {subs : List (KeyRange K)} (ordered : RangesOrdered (front ++ main :: (merged ++ back)))
    (live : main.deleted = false) (mergedDeleted : ∀ old ∈ merged, old.deleted = true)
    {fates : List (KeyFate K)} (sameKeys : (fates.map KeyFate.key).toFinset = main.keys)
    (divided : Divided main.beginKey ∅ fates (built :: subs))
    (begins : built.beginKey = main.beginKey)
    (before : ∀ sub ∈ subs, ∀ old ∈ back, old.deleted = true → sub.beginKey < old.beginKey) :
    RangesOrdered (front ++ (built :: subs ++ back)) := by
  have isKey : ∀ key, key ∈ fates.map KeyFate.key ↔ main.Has key := by
    intro key
    rw [KeyRange.Has, ← sameKeys, mem_toFinset]
  have noMerged : liveRanges merged = [] := by
    rw [liveRanges, filter_eq_nil_iff]
    intro old isOld
    simp [mergedDeleted old isOld]
  have liveBefore : liveRanges (front ++ main :: (merged ++ back)) =
      liveRanges front ++ main :: liveRanges back := by
    rw [liveRanges_append, ← singleton_append, liveRanges_append, liveRanges_append, noMerged]
    simp [liveRanges, live]
  have inOrder := ordered.live
  rw [liveBefore] at inOrder
  have parts : (liveRanges (built :: subs)).Sublist (built :: subs) := filter_sublist
  have above : ∀ part ∈ liveRanges (built :: subs), ∀ key, part.Has key → part.beginKey ≤ key :=
    fun part isPart => divided.above part (parts.subset isPart)
  have keys : ∀ part ∈ built :: subs, ∀ key, part.Has key → main.Has key := by
    intro part isPart key hasKey
    exact (isKey key).mp ((divided.keys part isPart key hasKey).resolve_left (by simp))
  have cuts : ∀ part ∈ built :: subs, main.beginKey ≤ part.beginKey ∧
      (part.beginKey = main.beginKey ∨ main.Has part.beginKey) :=
    fun part isPart => (divided.cuts part isPart).imp_right (Or.imp_right (isKey _).mp)
  have liveAfter := inOrder.replace
    ⟨divided.ordered.sublist parts, divided.below.sublist parts,
      fun part isPart => above part (mem_of_mem_tail isPart)⟩ above
    (fun part isPart => keys part (parts.subset isPart))
    fun part isPart => cuts part (parts.subset isPart)
  have isLiveAfter : liveRanges (front ++ (built :: subs ++ back)) =
      liveRanges front ++ (liveRanges (built :: subs) ++ liveRanges back) := by
    rw [liveRanges_append, liveRanges_append]
  obtain ⟨frontAscending, mainAscending, frontBefore⟩ := pairwise_append.mp ordered.ascending
  obtain ⟨mainBefore, behindAscending⟩ := pairwise_cons.mp mainAscending
  have backAscending := (pairwise_append.mp behindAscending).2.1
  refine ⟨?_, isLiveAfter ▸ liveAfter, ?_⟩
  · refine pairwise_append.mpr ⟨frontAscending, pairwise_append.mpr
      ⟨divided.ordered, backAscending, ?_⟩, ?_⟩
    · refine forall_mem_cons.mpr ⟨?_, ?_⟩
      · exact fun later isLater =>
          begins ▸ mainBefore later (mem_append_right _ isLater)
      intro sub isSub later isLater
      cases isDeleted : later.deleted with
      | true => exact before sub isSub later isLater isDeleted
      | false =>
        have isLive : later ∈ liveRanges back := mem_liveRanges.mpr ⟨isLater, isDeleted⟩
        have under := (pairwise_cons.mp (pairwise_append.mp inOrder.below).2.1).1 later isLive
        rcases (cuts sub (mem_cons_of_mem _ isSub)).2 with same | hasKey
        · exact same ▸ mainBefore later (mem_append_right _ isLater)
        · exact under _ hasKey
    intro earlier isEarlier later isLater
    rcases mem_append.mp isLater with isPart | inBack
    · exact (frontBefore earlier isEarlier main mem_cons_self).trans_le (cuts later isPart).1
    · exact frontBefore earlier isEarlier later
        (mem_cons_of_mem _ (mem_append_right _ inBack))
  · rw [isLiveAfter]
    intro range isRange
    rcases mem_append.mp isRange with inFront | later
    · exact ordered.above range (liveBefore ▸ mem_append_left _ inFront)
    rcases mem_append.mp later with isPart | inBack
    · exact above range isPart
    · exact ordered.above range
        (liveBefore ▸ mem_append_right _ (mem_cons_of_mem _ inBack))

namespace ChainState

/-- What puts and flushes keep, with the ids that have been generated so far. -/
structure Chained (s : ChainState K) : Prop where
  intact : s.corrupted = false
  linked : Linked 0 s.tables
  inPlay : (s.tables.flatMap ChainTable.inPlay).Nodup
  generated : ∀ id ∈ s.tables.flatMap ChainTable.inPlay, id ≤ s.counter
  inRange : RangesOrdered s.ranges

variable {s next : ChainState K}

theorem Chained.ordered (chained : s.Chained) : s.Ordered := by
  obtain ⟨ids, preallocs, fresh⟩ := apart_of_inPlay chained.inPlay
  exact ⟨chained.intact, chained.linked, ids, preallocs, fresh, chained.inRange.ascending⟩

theorem Chained.put (chained : s.Chained) {key : K} (taken : s.step (.put key) = some next) :
    next.Chained := by
  obtain rfl := Option.some.inj taken
  have linked : ∀ chain : List (ChainTable K), Linked 0 (chain.map fun t =>
      { t with range := insertKey s.ranges key t.range }) ↔ Linked 0 chain := by
    intro chain
    induction chain with
    | nil => rfl
    | cons t rest ih =>
      simp only [map_cons, Linked, ih]
      cases rest <;> rfl
  have inPlay : (s.tables.map fun t => { t with range := insertKey s.ranges key t.range }).flatMap
      ChainTable.inPlay = s.tables.flatMap ChainTable.inPlay := flatMap_map ..
  refine ⟨chained.intact, (linked s.tables).mpr chained.linked, ?_, ?_, ?_⟩
  · exact inPlay ▸ chained.inPlay
  · exact inPlay ▸ chained.generated
  have ranges := chained.inRange.put key
  rw [ChainState.ranges, map_map] at ranges
  rw [ChainState.ranges, map_map]
  exact ranges

/-- A flush that takes place: the table, what the builder finds for its keys, and what comes of
it. -/
theorem step_flush_eq_some {index merged : Nat} {fates : List (KeyFate K)}
    (taken : s.step (.flush index fates merged) = some next) :
    ∃ pre main post, s.tables = pre ++ main :: post ∧ s.tables[index]? = some main ∧
      s.tables.drop (index + 1) = post ∧ main.range.deleted = false ∧
      (fates.map KeyFate.key).Pairwise (· < ·) ∧
      (fates.map KeyFate.key).toFinset = main.range.keys ∧
      ((buildRanges main.role main.range.beginKey ∅ fates = none ∧
          next = { s with corrupted := true }) ∨
        ∃ built subs, buildRanges main.role main.range.beginKey ∅ fates = some (built, subs) ∧
          next = { s with
            counter := s.counter + 2 * subs.length
            tables := pre ++ flushTables s.counter main post built subs merged }) := by
  rw [step] at taken
  split at taken
  · cases taken
  rename_i main isMain
  split_ifs at taken with possible
  obtain ⟨inside, isAt⟩ := List.getElem?_eq_some_iff.mp isMain
  have parts : s.tables = s.tables.take index ++ main :: s.tables.drop (index + 1) := by
    rw [← isAt, ← drop_eq_getElem_cons inside, take_append_drop]
  refine ⟨_, main, _, parts, isMain, rfl, possible.1, possible.2.1, possible.2.2, ?_⟩
  split at taken
  · exact .inl ⟨by assumption, (Option.some.inj taken).symm⟩
  · exact .inr ⟨_, _, by assumption, (Option.some.inj taken).symm⟩

section Flush

variable {pre post : List (ChainTable K)} {main : ChainTable K} {fates : List (KeyFate K)}

theorem Chained.above (chained : s.Chained) (parts : s.tables = pre ++ main :: post)
    (live : main.range.deleted = false)
    (sameKeys : (fates.map KeyFate.key).toFinset = main.range.keys) :
    ∀ fate ∈ fates, main.range.beginKey ≤ fate.key := by
  intro fate isFate
  have isLive : main.range ∈ liveRanges s.ranges := by
    rw [mem_liveRanges, ranges, parts]
    exact ⟨mem_map_of_mem (mem_append_right _ mem_cons_self), live⟩
  apply chained.inRange.above main.range isLive
  rw [KeyRange.Has, ← sameKeys, mem_toFinset]
  exact mem_map_of_mem isFate

theorem Chained.linked_flush (chained : s.Chained) (parts : s.tables = pre ++ main :: post)
    (built : KeyRange K) (subs : List (KeyRange K)) (merged : Nat) :
    Linked 0 (pre ++ flushTables s.counter main post built subs merged) := by
  have linked := chained.linked
  rw [parts, linked_append] at linked
  rw [linked_append, headID_flushTables]
  exact ⟨linked.1, linked_flushTables _ _ _ _ linked.2⟩

theorem Chained.inPlay_flush (chained : s.Chained) (parts : s.tables = pre ++ main :: post)
    (built : KeyRange K) (subs : List (KeyRange K)) (merged : Nat) :
    ((pre ++ flushTables s.counter main post built subs merged).flatMap ChainTable.inPlay).Nodup ∧
      ∀ id ∈ (pre ++ flushTables s.counter main post built subs merged).flatMap ChainTable.inPlay,
        id ≤ s.counter + 2 * subs.length := by
  have among := (subperm_append_left (pre.flatMap ChainTable.inPlay)).mpr
    (inPlay_flushTables s.counter main post built subs merged)
  rw [← append_assoc, ← flatMap_append, ← flatMap_append, ← parts] at among
  have fresh : (s.tables.flatMap ChainTable.inPlay ++
      range' (s.counter + 1) (2 * subs.length)).Nodup := by
    apply chained.inPlay.append nodup_range'
    intro id isOld isNew
    have small := chained.generated id isOld
    have large := (mem_range'_1.mp isNew).1
    omega
  constructor
  · obtain ⟨_, perm, sublist⟩ := among
    exact perm.nodup_iff.mp (fresh.sublist sublist)
  intro id isID
  rcases mem_append.mp (among.subset isID) with isOld | isNew
  · exact Nat.le_add_right_of_le (chained.generated id isOld)
  · have small := (mem_range'_1.mp isNew).2
    omega

/-- A flush keeps the chain in order if it divides its table as it should. -/
theorem Chained.flush (chained : s.Chained) {index merged : Nat}
    (taken : s.step (.flush index fates merged) = some next)
    (divides : s.DividesAt (.flush index fates merged)) : next.Chained := by
  obtain ⟨pre, main, post, parts, isMain, isPost, live, ascending, sameKeys, outcome⟩ :=
    step_flush_eq_some taken
  have fits : Divides main post fates := isPost ▸ divides main isMain
  have above := chained.above parts live sameKeys
  have starts := (forall_starting_iff (fun later => later.removed = false ∧
      ∀ old ∈ post, old.range.deleted = true → later.key < old.range.beginKey) false fates).mpr
    ⟨by simp, fits.starts⟩
  have built := (isSome_buildRanges_main_iff ascending above).mpr
    ⟨fits.beginKey, fun fate isFate => (starts fate isFate).1⟩
  rcases outcome with ⟨isNone, -⟩ | ⟨built, subs, builds, rfl⟩
  · simp [isNone] at built
  obtain ⟨begins, mainBegin⟩ := map_beginKey_buildRanges builds
  have divided := divided_buildRanges builds ascending (by simpa using above) (by simp) (by simp)
  obtain ⟨old, rest, isRest, oldDeleted, -, isRanges⟩ :=
    map_range_flushTables s.counter main post built subs merged
  obtain ⟨inPlay, generated⟩ := chained.inPlay_flush parts built subs merged
  refine ⟨chained.intact, chained.linked_flush parts built subs merged, inPlay, generated, ?_⟩
  have ordered := chained.inRange
  rw [ranges, parts, isRest, map_append, map_cons, map_append] at ordered
  rw [ranges, map_append, isRanges]
  refine ordered.divide live (by simpa using oldDeleted) sameKeys divided mainBegin ?_
  intro sub isSub range isRange isDeleted
  obtain ⟨t, isTable, rfl⟩ := mem_map.mp isRange
  have isStart := mem_map_of_mem (f := KeyRange.beginKey) isSub
  rw [begins] at isStart
  obtain ⟨fate, isFate, same⟩ := mem_map.mp isStart
  rw [← same]
  exact (starts fate (by simpa using isFate)).2 t (isRest ▸ mem_append_right _ isTable) isDeleted

theorem Chained.divides_of_ordered (chained : s.Chained) {index merged : Nat}
    (taken : s.step (.flush index fates merged) = some next) (ordered : next.Ordered) :
    s.DividesAt (.flush index fates merged) := by
  obtain ⟨pre, main, post, parts, isMain, isPost, live, ascending, sameKeys, outcome⟩ :=
    step_flush_eq_some taken
  have above := chained.above parts live sameKeys
  rcases outcome with ⟨-, rfl⟩ | ⟨built, subs, builds, rfl⟩
  · exact absurd ordered.intact (by simp)
  obtain ⟨beginKey, kept⟩ := (isSome_buildRanges_main_iff ascending above).mp (by simp [builds])
  obtain ⟨begins, -⟩ := map_beginKey_buildRanges builds
  intro other isOther
  obtain rfl : other = main := Option.some.inj (isOther.symm.trans isMain)
  refine ⟨beginKey, ?_⟩
  rw [isPost]
  refine ((forall_starting_iff _ false fates).mp ?_).2
  intro fate isFate
  refine ⟨kept fate isFate, ?_⟩
  intro old isOld _
  have isStart : fate.key ∈ subs.map KeyRange.beginKey := by
    rw [begins]
    exact mem_map_of_mem (by simpa using isFate)
  obtain ⟨sub, isSub, same⟩ := mem_map.mp isStart
  obtain ⟨gone, rest, isRest, -, noneGone, isRanges⟩ :=
    map_range_flushTables s.counter other post built subs merged
  rw [noneGone (ne_nil_of_mem isSub), nil_append] at isRest
  have ascendingNext := ordered.ascending
  rw [ranges, map_append, isRanges, ← isRest] at ascendingNext
  have behind := (pairwise_append.mp (pairwise_append.mp ascendingNext).2.1).2.2
  exact same ▸ behind sub (mem_cons_of_mem _ isSub) old.range (mem_map_of_mem isOld)

end Flush

theorem chained_new [OrderBot K] : (new : ChainState K).Chained where
  intact := rfl
  linked := ⟨rfl, trivial⟩
  inPlay := by simp [new, ChainTable.inPlay]
  generated := by simp [new, ChainTable.inPlay]
  inRange :=
    { ascending := pairwise_singleton _ _
      live := ⟨pairwise_singleton _ _, pairwise_singleton _ _, by simp [ranges, new, liveRanges]⟩
      above := by simp [ranges, new, liveRanges, KeyRange.Has] }

end ChainState

/-- In a run of puts and flushes from a new database the chain is in order all the time exactly
if every flush divides its table as it should. -/
theorem chain_ordered_iff [OrderBot K] (actions : List (ChainAction K)) :
    Run.AllHold ChainState.step ChainState.Ordered actions .new ↔
      Run.AllMeet ChainState.step ChainState.DividesAt actions .new := by
  refine Run.allHold_iff_allMeet ChainState.Chained (fun _ => ChainState.Chained.ordered) ?_ ?_
    ChainState.chained_new
  · intro s action next chained taken divides
    cases action with
    | put => exact chained.put taken
    | flush => exact chained.flush taken divides
  · intro s action next chained taken ordered
    cases action with
    | put => trivial
    | flush => exact chained.divides_of_ordered taken ordered

/-- Table 2 begins at 10 and loses its keys; then 15 is split off the table before it. -/
def splitBehindDeleted : List (ChainAction Nat) :=
  [.put 1, .put 10, .flush 0 [⟨1, false, false⟩, ⟨10, true, false⟩] 0,
    .flush 1 [⟨10, false, true⟩] 0, .put 15, .flush 0 [⟨1, false, false⟩, ⟨15, true, false⟩] 0]

theorem begin_key_behind_deleted_table :
    ∃ last, Run.exec ChainState.step splitBehindDeleted .new = some last ∧
      last.tables.map (fun t => (t.sktid, t.range.beginKey, t.range.deleted)) =
        [(1, 0, false), (3, 15, false), (2, 10, true)] ∧
      ¬ last.Ordered := by
  refine ⟨_, rfl, by decide, ?_⟩
  intro ordered
  exact absurd ordered.ascending (by decide)

end InsDb
