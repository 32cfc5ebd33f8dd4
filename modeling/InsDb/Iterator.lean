import InsDb.Library.Cursor
import InsDb.PadCache

/-!
# Snapshot iterators

A `SnapshotIterator` stands on an entry of the scratch pad of one table. Inside a pad it
moves by a binary search and by single steps; at the ends of a pad it hops to the next or
the previous table.
-/

namespace InsDb

open InsDb.Library InsDb.Library.Cursor

variable {K V : Type} [LinearOrder K]

/-- The loop of `SetCurrentKeyInfo`: the entry it looked at last, and how the key
compares to it.  Every round makes the range smaller, so the number of entries is
enough fuel. -/
def probe (keys : List K) (key : K) :
    Nat → Nat → Nat → Option (Nat × Ordering) → Option (Nat × Ordering)
  | 0, _, _, last => last
  | fuel + 1, left, right, last =>
    if left < right then
      let mid := (left + right) / 2
      match keys[mid]? with
      | none => last
      | some entry =>
        if entry < key then
          probe keys key fuel (mid + 1) right (some (mid, .gt))
        else if key < entry then
          probe keys key fuel left mid (some (mid, .lt))
        else
          some (mid, .eq)
    else
      last

/-- `SnapshotIterator::SetCurrentKeyInfo` on a pad with the given keys. -/
def setCurrentKeyInfo (keys : List K) (key : K) (searchLessThan : Bool) : Option Nat :=
  match probe keys key keys.length 0 keys.length none with
  | none => none
  | some (mid, .eq) => some mid
  | some (mid, .gt) =>
    if searchLessThan then
      some mid
    else if mid + 1 ≠ keys.length then
      some (mid + 1)
    else
      none
  | some (mid, .lt) =>
    if searchLessThan then
      if mid ≠ 0 then some (mid - 1) else none
    else
      some mid

/-- What the search knows: keys left of `left` are smaller, keys from `right` on are
larger, and the entry looked at last is the bound that moved last. -/
structure Narrowed (keys : List K) (key : K) (left right : Nat)
    (last : Option (Nat × Ordering)) : Prop where
  ordered : left ≤ right
  bounded : right ≤ keys.length
  smaller : ∀ (index : Nat) (entry : K), keys[index]? = some entry → index < left → entry < key
  larger : ∀ (index : Nat) (entry : K), keys[index]? = some entry → right ≤ index → key < entry
  lastIs : last = none ∧ left = 0 ∧ right = keys.length ∨
    (∃ mid, last = some (mid, .gt) ∧ left = mid + 1) ∨
    (∃ mid, last = some (mid, .lt) ∧ right = mid ∧ mid < keys.length)

inductive Probed (keys : List K) (key : K) : Option (Nat × Ordering) → Prop
  | found (mid : Nat) (isKey : keys[mid]? = some key) : Probed keys key (some (mid, .eq))
  | stopped (bound : Nat) (last : Option (Nat × Ordering))
      (narrowed : Narrowed keys key bound bound last) : Probed keys key last

section

variable {keys : List K} (ascending : keys.Pairwise (· < ·))

include ascending

theorem lt_of_ascending {first second : Nat} {key other : K} (isKey : keys[first]? = some key)
    (isOther : keys[second]? = some other) (pre : first < second) : key < other := by
  obtain ⟨firstBound, rfl⟩ := List.getElem?_eq_some_iff.mp isKey
  obtain ⟨secondBound, rfl⟩ := List.getElem?_eq_some_iff.mp isOther
  exact List.pairwise_iff_getElem.mp ascending first second firstBound secondBound pre

theorem lt_iff_of_ascending {first second : Nat} {key other : K} (isKey : keys[first]? = some key)
    (isOther : keys[second]? = some other) : key < other ↔ first < second := by
  constructor
  · intro below
    by_contra notBefore
    rcases Nat.lt_or_eq_of_le (Nat.le_of_not_lt notBefore) with post | rfl
    · exact lt_asymm below (lt_of_ascending ascending isOther isKey post)
    · exact absurd below (not_lt_of_ge (le_of_eq (Option.some.inj (isOther.symm.trans isKey))))
  · exact lt_of_ascending ascending isKey isOther

/-- Where the wanted keys are those from an index on, that index is the first wanted one. -/
theorem firstWanted_from {wanted : K → Prop} {bound : Nat}
    (cut : ∀ (i : Nat) (entry : K), keys[i]? = some entry →
      (wanted entry ↔ bound ≤ i)) :
    FirstWanted (· < ·) wanted keys (if bound < keys.length then some bound else none) := by
  by_cases inside : bound < keys.length
  · rw [if_pos inside]
    have isBound := List.getElem?_eq_getElem inside
    refine ⟨_, isBound, (cut _ _ isBound).mpr le_rfl, ?_⟩
    intro _ mem isWanted
    obtain ⟨_, isOther⟩ := List.mem_iff_getElem?.mp mem
    rcases Nat.lt_or_eq_of_le ((cut _ _ isOther).mp isWanted) with post | rfl
    · exact .inr (lt_of_ascending ascending isBound isOther post)
    · exact .inl (Option.some.inj (isOther.symm.trans isBound))
  rw [if_neg inside]
  intro _ mem isWanted
  obtain ⟨_, isOther⟩ := List.mem_iff_getElem?.mp mem
  obtain ⟨_, -⟩ := List.getElem?_eq_some_iff.mp isOther
  have notBefore := (cut _ _ isOther).mp isWanted
  omega

theorem firstWanted_below {wanted : K → Prop} {bound : Nat} (bounded : bound ≤ keys.length)
    (cut : ∀ (i : Nat) (entry : K), keys[i]? = some entry →
      (wanted entry ↔ i < bound)) :
    FirstWanted (· > ·) wanted keys (if bound = 0 then none else some (bound - 1)) := by
  by_cases atZero : bound = 0
  · rw [if_pos atZero]
    intro _ mem isWanted
    obtain ⟨_, isOther⟩ := List.mem_iff_getElem?.mp mem
    have pre := (cut _ _ isOther).mp isWanted
    omega
  rw [if_neg atZero]
  have isBound := List.getElem?_eq_getElem (show bound - 1 < keys.length by omega)
  refine ⟨_, isBound, (cut _ _ isBound).mpr (by omega), ?_⟩
  intro _ mem isWanted
  obtain ⟨_, isOther⟩ := List.mem_iff_getElem?.mp mem
  have pre := (cut _ _ isOther).mp isWanted
  rcases Nat.lt_or_eq_of_le (Nat.le_sub_one_of_lt pre) with farther | rfl
  · exact .inr (lt_of_ascending ascending isOther isBound farther)
  · exact .inl (Option.some.inj (isOther.symm.trans isBound))

theorem probed_probe {key : K} {fuel left right : Nat} {last : Option (Nat × Ordering)}
    (narrowed : Narrowed keys key left right last) (enough : right - left ≤ fuel) :
    Probed keys key (probe keys key fuel left right last) := by
  induction fuel generalizing left right last with
  | zero =>
    have closed : left = right := by
      have ordered := narrowed.ordered
      omega
    subst closed
    exact .stopped left last narrowed
  | succ fuel ih =>
    rw [probe]
    have ordered := narrowed.ordered
    have bounded := narrowed.bounded
    by_cases open_ : left < right
    · rw [if_pos open_]
      have inside : (left + right) / 2 < keys.length := by omega
      have isMid := List.getElem?_eq_getElem inside
      simp only [isMid]
      split_ifs with below above
      · apply ih _ (by omega)
        refine ⟨by omega, bounded, ?_, narrowed.larger, Or.inr (.inl ⟨_, rfl, rfl⟩)⟩
        intro _ _ isEntry atMost
        rcases Nat.lt_or_eq_of_le (Nat.le_of_lt_succ atMost) with pre | rfl
        · exact lt_trans (lt_of_ascending ascending isEntry isMid pre) below
        obtain rfl := Option.some.inj (isMid.symm.trans isEntry)
        exact below
      · apply ih _ (by omega)
        refine ⟨by omega, by omega, narrowed.smaller, ?_, Or.inr (.inr ⟨_, rfl, rfl, inside⟩)⟩
        intro _ _ isEntry atLeast
        rcases Nat.lt_or_eq_of_le atLeast with post | rfl
        · exact lt_trans above (lt_of_ascending ascending isMid isEntry post)
        obtain rfl := Option.some.inj (isMid.symm.trans isEntry)
        exact above
      · have isKey : keys[(left + right) / 2]? = some key := by
          rw [isMid, le_antisymm (not_lt.mp above) (not_lt.mp below)]
        exact .found _ isKey
    · rw [if_neg open_]
      have closed : left = right := by omega
      subst closed
      exact .stopped left last narrowed

theorem probed_all (key : K) : Probed keys key (probe keys key keys.length 0 keys.length none) := by
  apply probed_probe ascending _ (Nat.le_of_eq (Nat.sub_zero _))
  refine ⟨Nat.zero_le _, Nat.le_refl _, ?_, ?_, Or.inl ⟨rfl, rfl, rfl⟩⟩
  · intro _ _ _ _
    omega
  intro _ _ isEntry _
  obtain ⟨_, -⟩ := List.getElem?_eq_some_iff.mp isEntry
  omega

end

theorem setCurrentKeyInfo_of_narrowed {keys : List K} {key : K} {bound : Nat}
    (narrowed : Narrowed keys key bound bound (probe keys key keys.length 0 keys.length none)) :
    setCurrentKeyInfo keys key false = (if bound < keys.length then some bound else none) ∧
      setCurrentKeyInfo keys key true = (if bound = 0 then none else some (bound - 1)) := by
  have bounded := narrowed.bounded
  unfold setCurrentKeyInfo
  rcases narrowed.lastIs with
    ⟨isLast, atZero, atEnd⟩ | ⟨mid, isLast, rfl⟩ | ⟨mid, isLast, rfl, inside⟩
  · rw [isLast]
    have empty : ¬ bound < keys.length := by omega
    simp [atZero, atZero ▸ empty]
  · rw [isLast]
    refine ⟨?_, by simp⟩
    by_cases atEnd : mid + 1 = keys.length
    · simp [atEnd]
    have pre : mid + 1 < keys.length := by omega
    simp [atEnd, pre]
  · rw [isLast]
    by_cases atZero : bound = 0
    · simp [atZero, atZero ▸ inside]
    · simp [atZero, inside]

theorem Narrowed.cut {keys : List K} {key entry : K} {bound i : Nat}
    {last : Option (Nat × Ordering)} (narrowed : Narrowed keys key bound bound last)
    (isEntry : keys[i]? = some entry) :
    (key ≤ entry ↔ bound ≤ i) ∧ (entry ≤ key ↔ i < bound) := by
  by_cases pre : i < bound
  · have below := narrowed.smaller i entry isEntry pre
    exact ⟨iff_of_false (not_le_of_gt below) (by omega), iff_of_true below.le pre⟩
  have above := narrowed.larger i entry isEntry (by omega)
  exact ⟨iff_of_true above.le (by omega), iff_of_false (not_le_of_gt above) pre⟩

section

variable {keys : List K} (ascending : keys.Pairwise (· < ·))

include ascending

theorem setCurrentKeyInfo_least (key : K) :
    FirstWanted (· < ·) (key ≤ ·) keys (setCurrentKeyInfo keys key false) := by
  have probed := probed_all ascending key
  generalize isResult : probe keys key keys.length 0 keys.length none = result at probed
  cases probed with
  | found mid isKey =>
    obtain ⟨inside, -⟩ := List.getElem?_eq_some_iff.mp isKey
    have chosen : setCurrentKeyInfo keys key false =
        if mid < keys.length then some mid else none := by
      simp [setCurrentKeyInfo, isResult, inside]
    rw [chosen]
    apply firstWanted_from ascending
    intro _ _ isEntry
    rw [← not_lt, lt_iff_of_ascending ascending isEntry isKey, not_lt]
  | stopped bound _ narrowed =>
    rw [(setCurrentKeyInfo_of_narrowed (isResult ▸ narrowed)).1]
    exact firstWanted_from ascending fun _ _ isEntry => (narrowed.cut isEntry).1

theorem setCurrentKeyInfo_greatest (key : K) :
    FirstWanted (· > ·) (· ≤ key) keys (setCurrentKeyInfo keys key true) := by
  have probed := probed_all ascending key
  generalize isResult : probe keys key keys.length 0 keys.length none = result at probed
  cases probed with
  | found mid isKey =>
    obtain ⟨inside, -⟩ := List.getElem?_eq_some_iff.mp isKey
    have chosen : setCurrentKeyInfo keys key true =
        if mid + 1 = 0 then none else some (mid + 1 - 1) := by
      simp [setCurrentKeyInfo, isResult]
    rw [chosen]
    apply firstWanted_below ascending inside
    intro _ _ isEntry
    rw [← not_lt, lt_iff_of_ascending ascending isKey isEntry, not_lt, Nat.lt_succ_iff]
  | stopped bound _ narrowed =>
    rw [(setCurrentKeyInfo_of_narrowed (isResult ▸ narrowed)).2]
    exact firstWanted_below ascending narrowed.bounded fun _ _ isEntry => (narrowed.cut isEntry).2

end

/-- A table as an iterator of one snapshot and column meets it: what a build would put
into its pad, the pad that the table would hand out, and the pad of the snapshot. -/
structure IterTable (K V : Type) where
  beginKey : K
  entries : List (K × Designator V)
  latestPad : Option (List (K × Designator V)) := none
  snapshotPad : Option (List (K × Designator V)) := none
deriving DecidableEq, Repr

def IterTable.keys (table : IterTable K V) : List K :=
  table.entries.map Prod.fst

section Tables

variable (ts : List (IterTable K V))

variable (key : Option K)

/-- `BuildIteratorScratchPad` refuses a key that belongs to the next table or beyond. -/
def refuses (index : Nat) : Bool :=
  match (ts[index + 1]?).map IterTable.beginKey, key with
  | some next, some key => decide (next ≤ key)
  | _, _ => false

/-- The pad with entries that `SeekInternal` gets for a table. -/
def padOf (index : Nat) : Option (List (K × Designator V)) :=
  (ts[index]?).bind fun table =>
    match table.latestPad with
    | some pad => some pad
    | none =>
      if refuses ts key index = true ∨ table.entries.isEmpty = true then
        none
      else
        some table.entries

/-- Where the iterator stands in a pad: on the key sought, or on the first or last entry
when it comes from a neighbouring table. -/
def setOffset (searchLessThan : Bool)
    (pad : List (K × Designator V)) : Option Nat :=
  match key with
  | some key => setCurrentKeyInfo (pad.map Prod.fst) key searchLessThan
  | none => some (if searchLessThan then pad.length - 1 else 0)

/-- `SnapshotIterator::SeekInternal` over the tables it may hop to, in order. -/
def seekInternal (searchLessThan : Bool) (route : List Nat) :
    Option Position :=
  follow (fun index => (padOf ts key index).bind (setOffset key searchLessThan)) route

/-- `SnapshotIterator::SeekWrapper`: as long as the snapshot has a pad for the table it
is used; from the first table on that has none, `SeekInternal` takes over. -/
def seekWrapper (key : Option K) (searchLessThan : Bool) : List Nat → Option Position
  | [] => none
  | index :: rest =>
    match (ts[index]?).bind IterTable.snapshotPad with
    | none => seekInternal ts key searchLessThan (index :: rest)
    | some pad =>
      match setOffset key searchLessThan pad with
      | some offset => some ⟨index, offset⟩
      | none => seekWrapper key searchLessThan rest

/-- The table of a key (`FindSKTableMem`, or the first table). -/
def tableOf (key : K) : Nat :=
  tableIndex key (ts.map IterTable.beginKey)

def forwardFrom (index : Nat) : List Nat :=
  (List.range ts.length).drop index

def backwardBelow (index : Nat) : List Nat :=
  ((List.range ts.length).take index).reverse

def seek (key : K) : Option Position :=
  seekWrapper ts (some key) false (forwardFrom ts (tableOf ts key))

def seekForPrev (key : K) : Option Position :=
  seekWrapper ts (some key) true (backwardBelow ts (tableOf ts key + 1))

/-- `SnapshotIterator::Next` from a valid position. -/
def next (position : Position) : Option Position :=
  (ts[position.segment]?).bind fun table =>
    if position.offset + 1 < table.entries.length then
      some { position with offset := position.offset + 1 }
    else
      seekWrapper ts none false (forwardFrom ts (position.segment + 1))

/-- `SnapshotIterator::Prev` from a valid position. -/
def prev (position : Position) : Option Position :=
  if position.offset = 0 then
    seekWrapper ts none true (backwardBelow ts position.segment)
  else
    some { position with offset := position.offset - 1 }

end Tables

end InsDb
