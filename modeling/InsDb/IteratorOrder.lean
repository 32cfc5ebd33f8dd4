import Mathlib.Data.Nat.Find
import InsDb.Iterator

/-!
# Where iterators stop

For tables in key order and pads that are up to date, `Seek`, `Next` and `Prev` always
stop where they should.  `SeekForPrev` hands its key on when it hops to an earlier
table, whose pad is then not built: an earlier table counts only if its pad is already
there.
-/

namespace InsDb

open InsDb.Library InsDb.Library.Cursor List

variable {K V : Type} [LinearOrder K]

variable (ts : List (IterTable K V))

def segments : List (List K) :=
  ts.map IterTable.keys

def visible : List K :=
  (segments ts).flatten

/-- The tables are in key order, and every visible key lies in the range of its table. -/
structure TablesOrdered (ts : List (IterTable K V)) : Prop where
  begins : (ts.map IterTable.beginKey).Pairwise (· < ·)
  ascending : ∀ t ∈ ts, t.keys.Pairwise (· < ·)
  fromBegin : ∀ (index : Nat) (t : IterTable K V), ts[index]? = some t →
    index ≠ 0 → ∀ key ∈ t.keys, t.beginKey ≤ key
  belowNext : ∀ (index : Nat) (t after : IterTable K V),
    ts[index]? = some t → ts[index + 1]? = some after →
    ∀ key ∈ t.keys, key < after.beginKey

/-- A pad that is already there has the entries that a build would give; pads without
entries are not kept. -/
structure IterTable.PadsCurrent (t : IterTable K V) : Prop where
  latest : ∀ pad, t.latestPad = some pad → pad = t.entries ∧ t.entries ≠ []
  snapshot : ∀ pad, t.snapshotPad = some pad → pad = t.entries ∧ t.entries ≠ []

namespace TablesOrdered

variable {ts : List (IterTable K V)}

variable {first second : Nat} {t later : IterTable K V}

section

variable (ordered : TablesOrdered ts) (isTable : ts[first]? = some t)
  (isLater : ts[second]? = some later)

include ordered isTable isLater

theorem begin_lt (pre : first < second) : t.beginKey < later.beginKey := by
  apply lt_of_ascending ordered.begins _ _ pre
  · rw [getElem?_map, isTable, Option.map_some]
  · rw [getElem?_map, isLater, Option.map_some]

theorem begin_le (notAfter : first ≤ second) : t.beginKey ≤ later.beginKey := by
  rcases Nat.lt_or_eq_of_le notAfter with pre | rfl
  · exact le_of_lt (ordered.begin_lt isTable isLater pre)
  · exact le_of_eq (congrArg IterTable.beginKey (Option.some.inj (isTable.symm.trans isLater)))

theorem key_lt_begin (pre : first < second) {key : K} (mem : key ∈ t.keys) :
    key < later.beginKey := by
  obtain ⟨_, -⟩ := List.getElem?_eq_some_iff.mp isLater
  have isAfter := List.getElem?_eq_getElem (show first + 1 < ts.length by omega)
  have belowAfter := ordered.belowNext first t _ isTable isAfter key mem
  exact lt_of_lt_of_le belowAfter (ordered.begin_le isAfter isLater pre)

theorem key_lt (pre : first < second) {key other : K} (mem : key ∈ t.keys)
    (laterMem : other ∈ later.keys) : key < other :=
  lt_of_lt_of_le (ordered.key_lt_begin isTable isLater pre mem)
    (ordered.fromBegin second later isLater (by omega) other laterMem)

end

theorem visible_ascending (ordered : TablesOrdered ts) : (visible ts).Pairwise (· < ·) := by
  rw [visible, pairwise_flatten]
  refine ⟨?_, ?_⟩
  · intro _ mem
    obtain ⟨t, isTable, rfl⟩ := mem_map.mp mem
    exact ordered.ascending t isTable
  rw [pairwise_iff_getElem]
  intro first second firstBound secondBound pre _ mem _ laterMem
  have firstLt : first < ts.length := by simpa [segments] using firstBound
  have secondLt : second < ts.length := by simpa [segments] using secondBound
  apply ordered.key_lt (List.getElem?_eq_getElem firstLt) (List.getElem?_eq_getElem secondLt)
    pre
  · simpa [segments] using mem
  · simpa [segments] using laterMem

theorem routeOrdered (ordered : TablesOrdered ts) {route : List Nat} :
    (route.Pairwise (· < ·) → RouteOrdered (· < ·) (segments ts) route) ∧
      (route.Pairwise (· > ·) → RouteOrdered (· > ·) (segments ts) route) := by
  have apart : ∀ {earlier later : Nat}, earlier < later → ∀ first second,
      (segments ts)[earlier]? = some first → (segments ts)[later]? = some second →
        ∀ key ∈ first, ∀ other ∈ second, key < other := by
    intro _ _ pre first second isFirst isSecond key mem other laterMem
    rw [segments, getElem?_map] at isFirst isSecond
    obtain ⟨_, isTable, rfl⟩ := Option.map_eq_some_iff.mp isFirst
    obtain ⟨_, isLater, rfl⟩ := Option.map_eq_some_iff.mp isSecond
    exact ordered.key_lt isTable isLater pre mem laterMem
  constructor
  · exact fun indices => indices.imp apart
  intro indices
  apply indices.imp
  intro _ _ pre second first isSecond isFirst other laterMem key mem
  exact apart pre first second isFirst isSecond key mem other laterMem

end TablesOrdered

omit [LinearOrder K] in
theorem mem_forwardFrom {ts : List (IterTable K V)} {start index : Nat} :
    index ∈ forwardFrom ts start ↔ start ≤ index ∧ index < ts.length := by
  simp only [forwardFrom, mem_drop_iff_getElem, getElem_range, length_range]
  constructor
  · rintro ⟨_, _, rfl⟩
    omega
  rintro ⟨_, _⟩
  exact ⟨index - start, by omega, by omega⟩

omit [LinearOrder K] in
theorem backwardBelow_descending {ts : List (IterTable K V)} {start : Nat} :
    (backwardBelow ts start).Pairwise (· > ·) :=
  pairwise_reverse.mpr (List.Pairwise.take pairwise_lt_range)

omit [LinearOrder K] in
theorem mem_backwardBelow {ts : List (IterTable K V)} {start index : Nat} :
    index ∈ backwardBelow ts start ↔ index < start ∧ index < ts.length := by
  simp [backwardBelow]

def offsetIn (key : Option K) (searchLessThan : Bool)
    (index : Nat) : Option Nat :=
  (ts[index]?).bind fun t =>
    if t.entries.isEmpty = true then none else setOffset key searchLessThan t.entries

section Hops

variable {ts : List (IterTable K V)} {key : Option K} {searchLessThan : Bool}

variable {index : Nat} {t : IterTable K V}

theorem offsetIn_of_empty (isTable : ts[index]? = some t) (empty : t.entries = []) :
    offsetIn ts key searchLessThan index = none := by
  simp [offsetIn, isTable, empty]

theorem offsetIn_of_nonempty (isTable : ts[index]? = some t) (nonempty : t.entries ≠ []) :
    offsetIn ts key searchLessThan index = setOffset key searchLessThan t.entries := by
  simp [offsetIn, isTable, nonempty]

theorem padOf_bind_of_not_refuses (current : ∀ t ∈ ts, t.PadsCurrent)
    (accepted : refuses ts key index = false) :
    (padOf ts key index).bind (setOffset key searchLessThan) =
      offsetIn ts key searchLessThan index := by
  unfold padOf offsetIn
  cases isTable : ts[index]? with
  | none => rfl
  | some t =>
    have pads := current t (List.mem_of_getElem? isTable)
    simp only [Option.bind_some, accepted, Bool.false_eq_true, false_or]
    cases latest : t.latestPad with
    | none => by_cases empty : t.entries.isEmpty = true <;> simp [empty]
    | some pad =>
      obtain ⟨rfl, nonempty⟩ := pads.latest pad latest
      simp [nonempty]

theorem seekWrapper_eq_follow (current : ∀ t ∈ ts, t.PadsCurrent) {route : List Nat}
    (accepted : ∀ index ∈ route, refuses ts key index = false) :
    seekWrapper ts key searchLessThan route =
      follow (offsetIn ts key searchLessThan) route := by
  induction route with
  | nil => rfl
  | cons index rest ih =>
    have onward := ih fun other mem => accepted other (mem_cons_of_mem _ mem)
    have internal : seekInternal ts key searchLessThan (index :: rest) =
        follow (offsetIn ts key searchLessThan) (index :: rest) := by
      apply follow_congr
      intro other mem
      exact padOf_bind_of_not_refuses current (accepted other mem)
    rw [seekWrapper]
    cases isPad : (ts[index]?).bind IterTable.snapshotPad with
    | none => exact internal
    | some pad =>
      obtain ⟨t, isTable, snapshotPad⟩ := Option.bind_eq_some_iff.mp isPad
      have pads := current t (List.mem_of_getElem? isTable)
      obtain ⟨rfl, nonempty⟩ := pads.snapshot pad snapshotPad
      have found := follow_cons (offsetIn ts key searchLessThan) index rest
      rw [offsetIn_of_nonempty isTable nonempty, ← onward] at found
      exact found.symm

omit [LinearOrder K] in
theorem segments_getElem {segment : List K} (isSeg : (segments ts)[index]? = some segment) :
    ∃ t, ts[index]? = some t ∧ segment = t.keys := by
  rw [segments, getElem?_map] at isSeg
  obtain ⟨t, isTable, rfl⟩ := Option.map_eq_some_iff.mp isSeg
  exact ⟨t, isTable, rfl⟩

theorem offsetIn_some {sought : K} (isTable : ts[index]? = some t) :
    offsetIn ts (some sought) searchLessThan index =
      setCurrentKeyInfo t.keys sought searchLessThan := by
  by_cases empty : t.entries = []
  · rw [offsetIn_of_empty isTable empty]
    simp [IterTable.keys, empty, setCurrentKeyInfo, probe]
  · rw [offsetIn_of_nonempty isTable empty]
    rfl

section

variable (ordered : TablesOrdered ts) (isTable : ts[index]? = some t)

include ordered isTable

theorem firstWanted_seekForPrev (sought : K) :
    FirstWanted (· > ·) (· ≤ sought) t.keys (offsetIn ts (some sought) true index) := by
  rw [offsetIn_some isTable]
  exact setCurrentKeyInfo_greatest (ordered.ascending t (List.mem_of_getElem? isTable)) sought

variable {wanted : K → Prop} (all : ∀ other ∈ t.keys, wanted other)

include all

theorem firstWanted_first :
    FirstWanted (· < ·) wanted t.keys (offsetIn ts none false index) := by
  have chosen : offsetIn ts none false index =
      if 0 < t.keys.length then some 0 else none := by
    cases listed : t.entries <;> simp [offsetIn, isTable, IterTable.keys, listed, setOffset]
  rw [chosen]
  apply firstWanted_from (ordered.ascending t (List.mem_of_getElem? isTable))
  intro _ entry isEntry
  exact iff_of_true (all entry (List.mem_of_getElem? isEntry)) (Nat.zero_le _)

theorem firstWanted_last :
    FirstWanted (· > ·) wanted t.keys (offsetIn ts none true index) := by
  have chosen : offsetIn ts none true index =
      if t.keys.length = 0 then none else some (t.keys.length - 1) := by
    cases listed : t.entries <;> simp [offsetIn, isTable, IterTable.keys, listed, setOffset]
  rw [chosen]
  apply firstWanted_below (ordered.ascending t (List.mem_of_getElem? isTable)) le_rfl
  intro _ entry isEntry
  exact iff_of_true (all entry (List.mem_of_getElem? isEntry))
    (List.getElem?_eq_some_iff.mp isEntry).1

end

end Hops

section Moves

variable {ts : List (IterTable K V)}

variable {start index : Nat}

theorem refuses_none (index : Nat) : refuses ts none index = false := by
  unfold refuses
  split
  · simp_all
  · rfl

variable {t : IterTable K V} {sought : K}

theorem begin_le_sought (isTable : ts[tableOf ts sought]? = some t)
    (notFirst : tableOf ts sought ≠ 0) : t.beginKey ≤ sought := by
  apply begin_le_of_tableIndex notFirst
  rw [getElem?_map]
  exact congrArg _ isTable

theorem sought_lt_begin (isTable : ts[tableOf ts sought + 1]? = some t) :
    sought < t.beginKey := by
  apply lt_begin_of_tableIndex
  rw [getElem?_map]
  exact congrArg _ isTable

theorem sought_lt_later (ordered : TablesOrdered ts) (isTable : ts[index]? = some t)
    (post : tableOf ts sought < index) : sought < t.beginKey := by
  obtain ⟨_, -⟩ := List.getElem?_eq_some_iff.mp isTable
  have isNext := List.getElem?_eq_getElem
    (show tableOf ts sought + 1 < ts.length by omega)
  exact lt_of_lt_of_le (sought_lt_begin isNext) (ordered.begin_le isNext isTable post)

theorem refuses_forward (ordered : TablesOrdered ts)
    (notBefore : tableOf ts sought ≤ index) : refuses ts (some sought) index = false := by
  unfold refuses
  cases isNext : ts[index + 1]? with
  | none => rfl
  | some => simpa using sought_lt_later ordered isNext (Nat.lt_succ_of_le notBefore)

theorem key_lt_of_before (ordered : TablesOrdered ts) {key : K}
    (isTable : ts[index]? = some t) (pre : index < tableOf ts sought)
    (mem : key ∈ t.keys) : key < sought := by
  obtain ⟨bound, -⟩ := List.getElem?_eq_some_iff.mp isTable
  have nonempty : ts.map IterTable.beginKey ≠ [] := by
    intro empty
    simp [map_eq_nil_iff.mp empty] at bound
  have inside : tableOf ts sought < ts.length := by
    simpa [tableOf] using tableIndex_lt nonempty sought
  have isOwn := List.getElem?_eq_getElem inside
  exact lt_of_lt_of_le (ordered.key_lt_begin isTable isOwn pre mem)
    (begin_le_sought isOwn (by omega))

theorem lt_key_of_after (ordered : TablesOrdered ts) {key : K}
    (isTable : ts[index]? = some t) (post : tableOf ts sought < index)
    (mem : key ∈ t.keys) : sought < key :=
  lt_of_lt_of_le (sought_lt_later ordered isTable post)
    (ordered.fromBegin index t isTable (by omega) key mem)

section

variable {wanted : K → Prop} {choose : Nat → Option Nat}

theorem lands_forward (ordered : TablesOrdered ts)
    (outside : ∀ index < start, ∀ t, ts[index]? = some t →
      ∀ key ∈ t.keys, ¬ wanted key)
    (chooses : ∀ index, start ≤ index → ∀ t, ts[index]? = some t →
      FirstWanted (· < ·) wanted t.keys (choose index)) :
    Lands (· < ·) wanted (segments ts) (follow choose (forwardFrom ts start)) := by
  apply lands_follow (ordered.routeOrdered.1 (List.Pairwise.drop pairwise_lt_range))
  · intro index mem
    rw [segments, length_map]
    exact (mem_forwardFrom.mp mem).2
  · intro index _ isSeg offRoute
    obtain ⟨t, isTable, rfl⟩ := segments_getElem isSeg
    obtain ⟨bound, -⟩ := List.getElem?_eq_some_iff.mp isTable
    refine outside index ?_ t isTable
    by_contra notBefore
    exact offRoute (mem_forwardFrom.mpr ⟨not_lt.mp notBefore, bound⟩)
  · intro index onRoute _ isSeg
    obtain ⟨t, isTable, rfl⟩ := segments_getElem isSeg
    exact chooses index (mem_forwardFrom.mp onRoute).1 t isTable

theorem lands_backward (ordered : TablesOrdered ts)
    (outside : ∀ index, start ≤ index → ∀ t, ts[index]? = some t →
      ∀ key ∈ t.keys, ¬ wanted key)
    (chooses : ∀ index < start, ∀ t, ts[index]? = some t →
      FirstWanted (· > ·) wanted t.keys (choose index)) :
    Lands (· > ·) wanted (segments ts) (follow choose (backwardBelow ts start)) := by
  apply lands_follow (ordered.routeOrdered.2 backwardBelow_descending)
  · intro index mem
    rw [segments, length_map]
    exact (mem_backwardBelow.mp mem).2
  · intro index _ isSeg offRoute
    obtain ⟨t, isTable, rfl⟩ := segments_getElem isSeg
    obtain ⟨bound, -⟩ := List.getElem?_eq_some_iff.mp isTable
    refine outside index ?_ t isTable
    by_contra notAfter
    exact offRoute (mem_backwardBelow.mpr ⟨not_le.mp notAfter, bound⟩)
  · intro index onRoute _ isSeg
    obtain ⟨t, isTable, rfl⟩ := segments_getElem isSeg
    exact chooses index (mem_backwardBelow.mp onRoute).1 t isTable

end

theorem lands_seek (ordered : TablesOrdered ts)
    (current : ∀ t ∈ ts, t.PadsCurrent) (sought : K) :
    Lands (· < ·) (sought ≤ ·) (segments ts) (seek ts sought) := by
  rw [seek, seekWrapper_eq_follow current fun index mem =>
    refuses_forward ordered (mem_forwardFrom.mp mem).1]
  apply lands_forward ordered
  · intro _ pre t isTable _ mem
    exact not_le_of_gt (key_lt_of_before ordered isTable pre mem)
  intro _ _ t isTable
  rw [offsetIn_some isTable]
  exact setCurrentKeyInfo_least (ordered.ascending t (List.mem_of_getElem? isTable)) sought

omit [LinearOrder K] in
theorem forwardFrom_cons (inside : index < ts.length) :
    forwardFrom ts index = index :: forwardFrom ts (index + 1) := by
  unfold forwardFrom
  rw [drop_eq_getElem_cons (by simpa using inside), getElem_range]

omit [LinearOrder K] in
theorem backwardBelow_succ (inside : index < ts.length) :
    backwardBelow ts (index + 1) = index :: backwardBelow ts index := by
  unfold backwardBelow
  rw [take_add_one, getElem?_range inside, Option.toList_some, reverse_append]
  rfl

variable {pos : Position}

section

variable (ordered : TablesOrdered ts) (current : ∀ t ∈ ts, t.PadsCurrent)

include ordered current

theorem lands_next {key : K} (isAt : keyAt (segments ts) pos = some key) :
    Lands (· < ·) (key < ·) (segments ts) (next ts pos) := by
  obtain ⟨_, isSeg, isKey⟩ := Option.bind_eq_some_iff.mp isAt
  obtain ⟨t, isTable, rfl⟩ := segments_getElem isSeg
  obtain ⟨inside, -⟩ := List.getElem?_eq_some_iff.mp isTable
  have sorted := ordered.ascending t (List.mem_of_getElem? isTable)
  have mem := List.mem_of_getElem? isKey
  -- The step inside the pad is the answer of the first table on the route.
  let choose : Nat → Option Nat := fun index =>
    if index = pos.segment then
      if pos.offset + 1 < t.keys.length then some (pos.offset + 1) else none
    else
      offsetIn ts none false index
  have isFollow : next ts pos = follow choose (forwardFrom ts pos.segment) := by
    have onward : seekWrapper ts none false (forwardFrom ts (pos.segment + 1)) =
        follow choose (forwardFrom ts (pos.segment + 1)) := by
      rw [seekWrapper_eq_follow current fun index _ => refuses_none index]
      apply follow_congr
      intro index later
      have post := (mem_forwardFrom.mp later).1
      simp only [choose, if_neg (show index ≠ pos.segment by omega)]
    have sameLength : t.keys.length = t.entries.length := length_map ..
    rw [forwardFrom_cons inside, follow_cons, ← onward]
    by_cases insidePad : pos.offset + 1 < t.entries.length <;>
      simp [next, isTable, choose, insidePad, sameLength]
  rw [isFollow]
  apply lands_forward ordered
  · intro index pre _ isOther otherKey otherMem above
    exact lt_asymm above (ordered.key_lt isOther isTable pre otherMem mem)
  intro index _ _ isOther
  by_cases same : index = pos.segment
  · subst same
    obtain rfl := Option.some.inj (isTable.symm.trans isOther)
    simp only [choose, if_true]
    apply firstWanted_from sorted
    exact fun place entry isEntry => lt_iff_of_ascending sorted isKey isEntry
  simp only [choose, if_neg same]
  exact firstWanted_first ordered isOther fun otherKey otherMem =>
    ordered.key_lt isTable isOther (by omega) mem otherMem

theorem lands_prev {key : K} (isAt : keyAt (segments ts) pos = some key) :
    Lands (· > ·) (· < key) (segments ts) (prev ts pos) := by
  obtain ⟨_, isSeg, isKey⟩ := Option.bind_eq_some_iff.mp isAt
  obtain ⟨t, isTable, rfl⟩ := segments_getElem isSeg
  obtain ⟨inside, -⟩ := List.getElem?_eq_some_iff.mp isTable
  have sorted := ordered.ascending t (List.mem_of_getElem? isTable)
  have mem := List.mem_of_getElem? isKey
  let choose : Nat → Option Nat := fun index =>
    if index = pos.segment then
      if pos.offset = 0 then none else some (pos.offset - 1)
    else
      offsetIn ts none true index
  have isFollow : prev ts pos =
      follow choose (backwardBelow ts (pos.segment + 1)) := by
    have onward : seekWrapper ts none true (backwardBelow ts pos.segment) =
        follow choose (backwardBelow ts pos.segment) := by
      rw [seekWrapper_eq_follow current fun index _ => refuses_none index]
      apply follow_congr
      intro index earlier
      have pre := (mem_backwardBelow.mp earlier).1
      simp only [choose, if_neg (show index ≠ pos.segment by omega)]
    rw [backwardBelow_succ inside, follow_cons, ← onward]
    by_cases atFirst : pos.offset = 0 <;> simp [prev, choose, atFirst]
  rw [isFollow]
  apply lands_backward ordered
  · intro index post _ isOther otherKey otherMem below
    exact lt_asymm below (ordered.key_lt isTable isOther post mem otherMem)
  intro index _ _ isOther
  by_cases same : index = pos.segment
  · subst same
    obtain rfl := Option.some.inj (isTable.symm.trans isOther)
    simp only [choose, if_true]
    apply firstWanted_below sorted (List.getElem?_eq_some_iff.mp isKey).1.le
    exact fun place entry isEntry => lt_iff_of_ascending sorted isEntry isKey
  simp only [choose, if_neg same]
  exact firstWanted_last ordered isOther fun otherKey otherMem =>
    ordered.key_lt isOther isTable (by omega) otherMem mem

theorem repeated_next (count : Nat) {key : K} (isAt : keyAt (segments ts) pos = some key) :
    (repeated (next ts) (count + 1) (some pos)).bind (keyAt (segments ts)) =
      ((visible ts).filter fun other => key < other)[count]? := by
  refine keyAt_repeated (fun key => (visible ts).filter fun other => key < other)
    ?_ count isAt
  intro from_ _ isFrom
  have lands := lands_next ordered current isFrom
  cases moved : next ts from_ with
  | none =>
    left
    refine ⟨rfl, ?_⟩
    rw [filter_eq_nil_iff]
    intro other mem
    simpa using lands.eq_none_iff.mp moved other mem
  | some stepped =>
    right
    obtain ⟨reached, isReached, -, -⟩ := moved ▸ lands
    refine ⟨stepped, reached, rfl, isReached, ?_⟩
    apply filter_above_of_isLeast ordered.visible_ascending
    rw [visible, ← lands.isLeast_iff, moved]
    exact isReached

theorem repeated_prev (count : Nat) {key : K} (isAt : keyAt (segments ts) pos = some key) :
    (repeated (prev ts) (count + 1) (some pos)).bind (keyAt (segments ts)) =
      ((visible ts).filter fun other => other < key).reverse[count]? := by
  refine keyAt_repeated
    (fun key => ((visible ts).filter fun other => other < key).reverse) ?_ count isAt
  intro from_ key isFrom
  have lands := lands_prev ordered current isFrom
  cases moved : prev ts from_ with
  | none =>
    left
    refine ⟨rfl, ?_⟩
    rw [reverse_eq_nil_iff, filter_eq_nil_iff]
    intro other mem
    simpa using lands.eq_none_iff.mp moved other mem
  | some stepped =>
    right
    obtain ⟨reached, isReached, -, -⟩ := moved ▸ lands
    refine ⟨stepped, reached, rfl, isReached, ?_⟩
    have greatest : IsGreatest { other | other ∈ visible ts ∧ other < key } reached := by
      rw [visible, ← lands.isGreatest_iff, moved]
      exact isReached
    rw [filter_below_of_isGreatest ordered.visible_ascending greatest, reverse_append]
    rfl

end

/-- When `SeekForPrev` finds what it should: its own table has a key that is not above
the one sought, or no earlier table has a visible key, or the nearest earlier table that
has one already has its pad.  A pad of the snapshot only counts if the snapshot also
has the pad of the table of the key and the two tables are neighbours. -/
def PrevReachable (ts : List (IterTable K V)) (sought : K) : Prop :=
  (∃ t, ts[tableOf ts sought]? = some t ∧ ∃ key ∈ t.keys, key ≤ sought) ∨
  (∀ index < tableOf ts sought, ∀ t, ts[index]? = some t → t.entries = []) ∨
  (∃ near t, near < tableOf ts sought ∧ ts[near]? = some t ∧
    t.entries ≠ [] ∧
    (∀ index, near < index → index < tableOf ts sought →
      ∀ between, ts[index]? = some between → between.entries = []) ∧
    (t.latestPad.isSome = true ∨
      near + 1 = tableOf ts sought ∧ t.snapshotPad.isSome = true ∧
        ∃ own, ts[tableOf ts sought]? = some own ∧ own.snapshotPad.isSome = true))

theorem refuses_backward (ordered : TablesOrdered ts)
    (pre : index < tableOf ts sought) (inside : tableOf ts sought < ts.length) :
    refuses ts (some sought) index = true := by
  have isNext := List.getElem?_eq_getElem (show index + 1 < ts.length by omega)
  have isOwn := List.getElem?_eq_getElem inside
  have notAfter := ordered.begin_le isNext isOwn pre
  simp only [refuses, isNext, Option.map_some, decide_eq_true_eq]
  exact le_trans notAfter (begin_le_sought isOwn (by omega))

theorem padOf_bind_of_refuses (current : ∀ t ∈ ts, t.PadsCurrent) {key : Option K}
    {searchLessThan : Bool} (isTable : ts[index]? = some t)
    (refused : refuses ts key index = true) :
    (padOf ts key index).bind (setOffset key searchLessThan) =
      if t.latestPad.isSome = true then offsetIn ts key searchLessThan index
      else none := by
  unfold padOf
  cases latest : t.latestPad with
  | none => simp [isTable, latest, refused]
  | some pad =>
    obtain ⟨rfl, nonempty⟩ := (current t (List.mem_of_getElem? isTable)).latest pad latest
    rw [offsetIn_of_nonempty isTable nonempty]
    simp [isTable, latest]

theorem seekWrapper_origin {key : Option K} {searchLessThan : Bool} {route : List Nat}
    (found : seekWrapper ts key searchLessThan route = some pos) :
    pos.segment ∈ route ∧ (padOf ts key pos.segment).isSome = true ∨
      ∃ pre post, route = pre ++ pos.segment :: post ∧
        ∀ index ∈ pre ++ [pos.segment],
          ((ts[index]?).bind IterTable.snapshotPad).isSome = true := by
  induction route with
  | nil => simp [seekWrapper] at found
  | cons index rest ih =>
    rw [seekWrapper] at found
    cases isPad : (ts[index]?).bind IterTable.snapshotPad with
    | none =>
      rw [isPad] at found
      obtain ⟨_, other, later, isRoute, answer, _⟩ := findSome?_eq_some_iff.mp found
      obtain ⟨_, chosen, rfl⟩ := Option.map_eq_some_iff.mp answer
      obtain ⟨pad, isPadOf, -⟩ := Option.bind_eq_some_iff.mp chosen
      exact .inl ⟨by simp [isRoute], by simp [isPadOf]⟩
    | some pad =>
      simp only [isPad] at found
      cases answer : setOffset key searchLessThan pad with
      | some =>
        simp only [answer, Option.some.injEq] at found
        subst found
        exact .inr ⟨[], rest, rfl, by simp [isPad]⟩
      | none =>
        simp only [answer] at found
        rcases ih found with internal | ⟨pre, post, rfl, pads⟩
        · exact .inl ⟨mem_cons_of_mem _ internal.1, internal.2⟩
        refine .inr ⟨index :: pre, post, rfl, ?_⟩
        intro other mem
        rcases mem_cons.mp mem with rfl | later
        · simp [isPad]
        · exact pads other later

theorem lands_nearest_below (ordered : TablesOrdered ts) (sought : K) :
    Lands (· > ·) (· ≤ sought) (segments ts)
      (follow (offsetIn ts (some sought) true)
        (backwardBelow ts (tableOf ts sought + 1))) := by
  apply lands_backward ordered
  · intro _ post _ isTable _ mem
    exact not_le_of_gt (lt_key_of_after ordered isTable post mem)
  intro _ _ _ isTable
  exact firstWanted_seekForPrev ordered isTable sought

open Classical in
theorem exists_nearest_below {holds : Nat → Prop} {bound : Nat}
    (someHolds : ∃ index < bound, holds index) :
    ∃ near < bound, holds near ∧ ∀ index, near < index → index < bound → ¬ holds index := by
  obtain ⟨index, below, holdsIndex⟩ := someHolds
  have found := @Nat.findGreatest_spec index (fun i => i < bound ∧ holds i) _ bound below.le
    ⟨below, holdsIndex⟩
  refine ⟨_, found.1, found.2, ?_⟩
  intro _ post otherBelow holdsOther
  exact Nat.findGreatest_is_greatest post otherBelow.le ⟨otherBelow, holdsOther⟩

omit [LinearOrder K] in
theorem follow_backward_of_nearest {choose : Nat → Option Nat} {near offset : Nat}
    (pre : near < start) (inside : start ≤ ts.length)
    (skipped : ∀ index, near < index → index < start → choose index = none)
    (chosen : choose near = some offset) :
    follow choose (backwardBelow ts start) = some ⟨near, offset⟩ := by
  induction start with
  | zero => omega
  | succ start ih =>
    rw [backwardBelow_succ (by omega), follow_cons]
    rcases Nat.lt_or_eq_of_le (Nat.le_of_lt_succ pre) with farther | rfl
    · rw [skipped start farther (Nat.lt_succ_self _)]
      exact ih farther (by omega) fun index post below => skipped index post (by omega)
    · rw [chosen]

section Backward

variable (ordered : TablesOrdered ts) (current : ∀ t ∈ ts, t.PadsCurrent)
  {sought : K} (inside : tableOf ts sought < ts.length)

include ordered current inside

variable {t : IterTable K V}

theorem internal_answer {index : Nat} (isTable : ts[index]? = some t)
    (pre : index < tableOf ts sought) :
    (padOf ts (some sought) index).bind (setOffset (some sought) true) =
      if t.latestPad.isSome = true then offsetIn ts (some sought) true index else none :=
  padOf_bind_of_refuses current isTable (refuses_backward ordered pre inside)

omit ordered inside in
theorem snapshot_answer {index : Nat} {pad : List (K × Designator V)}
    (isPad : (ts[index]?).bind IterTable.snapshotPad = some pad) :
    setOffset (some sought) true pad = offsetIn ts (some sought) true index := by
  obtain ⟨t, isTable, snapshotPad⟩ := Option.bind_eq_some_iff.mp isPad
  obtain ⟨rfl, nonempty⟩ := (current t (List.mem_of_getElem? isTable)).snapshot pad snapshotPad
  rw [offsetIn_of_nonempty isTable nonempty]

theorem seekForPrev_eq : seekForPrev ts sought =
      match offsetIn ts (some sought) true (tableOf ts sought) with
      | some offset => some ⟨tableOf ts sought, offset⟩
      | none =>
        if ((ts[tableOf ts sought]?).bind IterTable.snapshotPad).isSome = true then
          seekWrapper ts (some sought) true (backwardBelow ts (tableOf ts sought))
        else
          seekInternal ts (some sought) true
            (backwardBelow ts (tableOf ts sought)) := by
  rw [seekForPrev, backwardBelow_succ inside, seekWrapper]
  cases isPad : (ts[tableOf ts sought]?).bind IterTable.snapshotPad with
  | none =>
    have accepted := refuses_forward ordered (Nat.le_refl (tableOf ts sought))
    rw [seekInternal, follow_cons, padOf_bind_of_not_refuses current accepted]
    rfl
  | some =>
    cases chosen : offsetIn ts (some sought) true (tableOf ts sought) <;>
      simp [snapshot_answer current isPad, chosen]

theorem seek_nearest {near offset : Nat} (pre : near < tableOf ts sought)
    (isTable : ts[near]? = some t)
    (empty : ∀ index, near < index → index < tableOf ts sought →
      ∀ between, ts[index]? = some between → between.entries = [])
    (chosen : offsetIn ts (some sought) true near = some offset) :
    (t.latestPad.isSome = true →
      seekInternal ts (some sought) true (backwardBelow ts (tableOf ts sought)) =
        some ⟨near, offset⟩) ∧
    (t.latestPad.isSome = true ∨
        near + 1 = tableOf ts sought ∧ t.snapshotPad.isSome = true →
      seekWrapper ts (some sought) true (backwardBelow ts (tableOf ts sought)) =
        some ⟨near, offset⟩) := by
  have internal : t.latestPad.isSome = true →
      seekInternal ts (some sought) true (backwardBelow ts (tableOf ts sought)) =
        some ⟨near, offset⟩ := by
    intro hasPad
    refine follow_backward_of_nearest pre (Nat.le_of_lt inside) ?_ ?_
    · intro index post below
      have isBetween := List.getElem?_eq_getElem (show index < ts.length by omega)
      rw [internal_answer ordered current inside isBetween below,
        offsetIn_of_empty isBetween (empty index post below _ isBetween)]
      split_ifs <;> rfl
    · rw [internal_answer ordered current inside isTable pre, if_pos hasPad, chosen]
  refine ⟨internal, ?_⟩
  intro hasPad
  obtain ⟨previous, isOwn⟩ : ∃ previous, tableOf ts sought = previous + 1 :=
    ⟨tableOf ts sought - 1, by omega⟩
  have previousInside : previous < ts.length := by omega
  rw [isOwn, backwardBelow_succ previousInside, seekWrapper]
  cases isPad : (ts[previous]?).bind IterTable.snapshotPad with
  | none =>
    rw [← backwardBelow_succ previousInside, ← isOwn]
    rcases hasPad with latest | ⟨_, snapshotPad⟩
    · exact internal latest
    obtain rfl : near = previous := by omega
    simp [isTable, Option.isSome_iff_ne_none.mp snapshotPad] at isPad
  | some pad =>
    -- A table with a pad has a visible key, so it is the nearest one.
    obtain ⟨previousTable, isPrevious, snapshotPad⟩ := Option.bind_eq_some_iff.mp isPad
    have nonempty :=
      ((current previousTable (List.mem_of_getElem? isPrevious)).snapshot pad snapshotPad).2
    have isNear : previous = near := by
      by_contra differs
      exact nonempty (empty previous (by omega) (by omega) previousTable isPrevious)
    subst isNear
    simp only [snapshot_answer current isPad, chosen]

theorem seek_nothing
    (empty : ∀ index < tableOf ts sought, ∀ t, ts[index]? = some t →
      t.entries = []) :
    seekInternal ts (some sought) true (backwardBelow ts (tableOf ts sought)) = none ∧
      seekWrapper ts (some sought) true (backwardBelow ts (tableOf ts sought)) =
        none := by
  have noPads : ∀ index ∈ backwardBelow ts (tableOf ts sought), ∃ t,
      ts[index]? = some t ∧ t.latestPad = none ∧ t.snapshotPad = none := by
    intro index mem
    obtain ⟨pre, bound⟩ := mem_backwardBelow.mp mem
    have isTable := List.getElem?_eq_getElem bound
    have noEntries := empty index pre _ isTable
    have pads := current _ (List.mem_of_getElem? isTable)
    refine ⟨_, isTable, ?_, ?_⟩
    · apply Option.eq_none_iff_forall_ne_some.mpr
      exact fun pad isPad => (pads.latest pad isPad).2 noEntries
    apply Option.eq_none_iff_forall_ne_some.mpr
    exact fun pad isPad => (pads.snapshot pad isPad).2 noEntries
  have noPadOf : ∀ index ∈ backwardBelow ts (tableOf ts sought),
      padOf ts (some sought) index = none := by
    intro index mem
    obtain ⟨_, isTable, noLatest, -⟩ := noPads index mem
    have refused := refuses_backward ordered (mem_backwardBelow.mp mem).1 inside
    simp [padOf, isTable, noLatest, refused]
  constructor
  · apply findSome?_eq_none_iff.mpr
    intro index mem
    simp [noPadOf index mem]
  apply Option.eq_none_iff_forall_ne_some.mpr
  intro pos found
  rcases seekWrapper_origin found with ⟨mem, hasPad⟩ | ⟨_, _, isRoute, pads⟩
  · simp [noPadOf _ mem] at hasPad
  have mem : pos.segment ∈ backwardBelow ts (tableOf ts sought) := by
    simp [isRoute]
  obtain ⟨_, isTable, -, noSnapshot⟩ := noPads _ mem
  have hasPad := pads pos.segment (by simp)
  simp [isTable, noSnapshot] at hasPad

omit current inside in
theorem offset_of_earlier {near : Nat} (isTable : ts[near]? = some t)
    (pre : near < tableOf ts sought) (nonempty : t.entries ≠ []) :
    ∃ offset, offsetIn ts (some sought) true near = some offset := by
  have first := firstWanted_seekForPrev ordered isTable sought
  cases chosen : offsetIn ts (some sought) true near with
  | some offset => exact ⟨offset, rfl⟩
  | none =>
    rw [chosen] at first
    obtain ⟨entry, mem⟩ := exists_mem_of_ne_nil _ nonempty
    have isKey : entry.1 ∈ t.keys := mem_map_of_mem mem
    exact absurd (le_of_lt (key_lt_of_before ordered isTable pre isKey))
      (first entry.1 isKey)

theorem seekForPrev_of_reachable (reachable : PrevReachable ts sought) :
    seekForPrev ts sought = follow (offsetIn ts (some sought) true)
        (backwardBelow ts (tableOf ts sought + 1)) := by
  rw [seekForPrev_eq ordered current inside, backwardBelow_succ inside, follow_cons]
  cases answer : offsetIn ts (some sought) true (tableOf ts sought) with
  | some => rfl
  | none =>
    rcases reachable with ⟨_, isOwnTable, key, mem, notAbove⟩ | empty |
      ⟨near, _, pre, isTable, nonempty, between, hasPad⟩
    · have first := firstWanted_seekForPrev ordered isOwnTable sought
      rw [answer] at first
      exact absurd notAbove (first key mem)
    · have nothing := seek_nothing ordered current inside empty
      have noAnswer : follow (offsetIn ts (some sought) true)
          (backwardBelow ts (tableOf ts sought)) = none := by
        apply findSome?_eq_none_iff.mpr
        intro index mem
        obtain ⟨pre, bound⟩ := mem_backwardBelow.mp mem
        have isTable := List.getElem?_eq_getElem bound
        simp [offsetIn_of_empty isTable (empty index pre _ isTable)]
      rw [nothing.1, nothing.2, noAnswer]
      split_ifs <;> rfl
    obtain ⟨_, chosen⟩ := offset_of_earlier ordered isTable pre nonempty
    have nearest := seek_nearest ordered current inside pre isTable between chosen
    have skipped : ∀ index, near < index → index < tableOf ts sought →
        offsetIn ts (some sought) true index = none := by
      intro index post below
      have isBetween := List.getElem?_eq_getElem (show index < ts.length by omega)
      exact offsetIn_of_empty isBetween (between index post below _ isBetween)
    rw [follow_backward_of_nearest pre (Nat.le_of_lt inside) skipped chosen]
    rcases hasPad with latest | ⟨neighbour, snapshotPad, _, isOwnTable, ownPad⟩
    · rw [nearest.1 latest, nearest.2 (Or.inl latest)]
      split_ifs <;> rfl
    have ownHasPad :
        ((ts[tableOf ts sought]?).bind IterTable.snapshotPad).isSome = true := by
      simpa [isOwnTable] using ownPad
    rw [if_pos ownHasPad, nearest.2 (Or.inr ⟨neighbour, snapshotPad⟩)]

theorem hasPad_of_found_in_nearest {pos : Position}
    (found : seekForPrev ts sought = some pos)
    (pre : pos.segment < tableOf ts sought)
    (isTable : ts[pos.segment]? = some t)
    (empty : ∀ index, pos.segment < index → index < tableOf ts sought →
      ∀ between, ts[index]? = some between → between.entries = []) :
    t.latestPad.isSome = true ∨
      pos.segment + 1 = tableOf ts sought ∧ t.snapshotPad.isSome = true ∧
        ∃ own, ts[tableOf ts sought]? = some own ∧ own.snapshotPad.isSome = true := by
  rw [seekForPrev, backwardBelow_succ inside] at found
  rcases seekWrapper_origin found with ⟨-, hasPad⟩ | ⟨earlier, _, isRoute, pads⟩
  · left
    have refused := refuses_backward ordered pre inside
    cases latest : t.latestPad with
    | some => rfl
    | none => simp [padOf, isTable, latest, refused] at hasPad
  right
  obtain ⟨passed, rfl⟩ : ∃ passed, earlier = tableOf ts sought :: passed := by
    cases earlier with
    | nil =>
      have isFirst := (cons.inj isRoute).1
      omega
    | cons first passed => exact ⟨passed, by rw [(cons.inj isRoute).1]⟩
  have restRoute := (cons.inj isRoute).2
  -- Every table that was passed has a pad of the snapshot, hence entries.
  have noneBetween : passed = [] := by
    apply eq_nil_iff_forall_not_mem.mpr
    intro index mem
    have onRoute : index ∈ backwardBelow ts (tableOf ts sought) := by
      rw [restRoute]
      exact mem_append_left _ mem
    obtain ⟨below, bound⟩ := mem_backwardBelow.mp onRoute
    have desc := @backwardBelow_descending _ _ ts (tableOf ts sought)
    rw [restRoute] at desc
    have post := (pairwise_append.mp desc).2.2 index mem pos.segment
      mem_cons_self
    have isBetween := List.getElem?_eq_getElem bound
    have hasPad := pads index (by simp [mem])
    rw [isBetween, Option.bind_some] at hasPad
    obtain ⟨pad, isPad⟩ := Option.isSome_iff_exists.mp hasPad
    exact ((current _ (List.mem_of_getElem? isBetween)).snapshot pad isPad).2
      (empty index post below _ isBetween)
  subst noneBetween
  obtain ⟨previous, isOwn⟩ : ∃ previous, tableOf ts sought = previous + 1 :=
    ⟨tableOf ts sought - 1, by omega⟩
  have isPrevious : previous = pos.segment := by
    rw [isOwn, backwardBelow_succ (by omega)] at restRoute
    exact (cons.inj restRoute).1
  have ownTable := List.getElem?_eq_getElem inside
  have ownPad := pads (tableOf ts sought) (by simp)
  have nearPad := pads pos.segment (by simp)
  refine ⟨by omega, by simpa [isTable] using nearPad, _, ownTable, ?_⟩
  simpa [ownTable] using ownPad

theorem reachable_of_lands
    (lands : Lands (· > ·) (· ≤ sought) (segments ts) (seekForPrev ts sought)) :
    PrevReachable ts sought := by
  by_contra unreachable
  simp only [PrevReachable, not_or] at unreachable
  obtain ⟨notOwn, notEmpty, notNear⟩ := unreachable
  have someEntries : ∃ index < tableOf ts sought,
      ∃ t, ts[index]? = some t ∧ t.entries ≠ [] := by
    by_contra nothing
    apply notEmpty
    intro index pre t isTable
    by_contra nonempty
    exact nothing ⟨index, pre, t, isTable, nonempty⟩
  obtain ⟨near, pre, ⟨t, isTable, nonempty⟩, nearest⟩ := exists_nearest_below someEntries
  have empty : ∀ index, near < index → index < tableOf ts sought →
      ∀ between, ts[index]? = some between → between.entries = [] := by
    intro index post below between isBetween
    by_contra hasEntries
    exact nearest index post below ⟨between, isBetween, hasEntries⟩
  obtain ⟨entry, entryMember⟩ := exists_mem_of_ne_nil _ nonempty
  have isKey : entry.1 ∈ t.keys := mem_map_of_mem entryMember
  have isWanted := le_of_lt (key_lt_of_before ordered isTable pre isKey)
  have isVisible : entry.1 ∈ (segments ts).flatten :=
    mem_flatten_iff.mpr ⟨near, t.keys, by simp [segments, isTable], isKey⟩
  cases found : seekForPrev ts sought with
  | none => exact (lands.eq_none_iff.mp found) entry.1 isVisible isWanted
  | some pos =>
    obtain ⟨landed, isAt, landedWanted, greatest⟩ := found ▸ lands
    obtain ⟨_, isSeg, atOffset⟩ := Option.bind_eq_some_iff.mp isAt
    obtain ⟨landedTable, isLanded, rfl⟩ := segments_getElem isSeg
    have mem := List.mem_of_getElem? atOffset
    have notAfter : ¬ tableOf ts sought < pos.segment := fun post =>
      absurd landedWanted (not_le_of_gt (lt_key_of_after ordered isLanded post mem))
    have differs : pos.segment ≠ tableOf ts sought := fun same =>
      notOwn ⟨landedTable, same ▸ isLanded, landed, mem, landedWanted⟩
    have hasEntries : landedTable.entries ≠ [] := by
      intro noEntries
      simp [IterTable.keys, noEntries] at mem
    -- The key that was found is the greatest, so its table is the nearest one.
    have isNear : pos.segment = near := by
      rcases Nat.lt_trichotomy pos.segment near with farther | same | closer
      · have above := ordered.key_lt isLanded isTable farther mem isKey
        rcases greatest entry.1 isVisible isWanted with same | below
        · exact absurd above (same ▸ lt_irrefl _)
        · exact absurd above (lt_asymm below)
      · exact same
      · exact absurd (empty pos.segment closer (by omega) landedTable isLanded) hasEntries
    subst isNear
    obtain rfl := Option.some.inj (isTable.symm.trans isLanded)
    have hasPad := hasPad_of_found_in_nearest ordered current inside found pre isTable empty
    exact notNear ⟨_, t, pre, isTable, nonempty, empty, hasPad⟩

end Backward

theorem lands_seekForPrev_iff (ordered : TablesOrdered ts)
    (current : ∀ t ∈ ts, t.PadsCurrent) (sought : K) :
    Lands (· > ·) (· ≤ sought) (segments ts) (seekForPrev ts sought) ↔
      PrevReachable ts sought := by
  by_cases nonempty : ts = []
  · subst nonempty
    have nothing : seekForPrev ([] : List (IterTable K V)) sought = none := by
      simp [seekForPrev, backwardBelow, seekWrapper]
    rw [nothing]
    exact ⟨fun _ => Or.inr (.inl (by simp)), fun _ => by simp [Lands, segments]⟩
  have inside : tableOf ts sought < ts.length := by
    simpa [tableOf] using tableIndex_lt (show ts.map IterTable.beginKey ≠ [] by
      simpa using nonempty) sought
  refine ⟨reachable_of_lands ordered current inside, ?_⟩
  intro reachable
  rw [seekForPrev_of_reachable ordered current inside reachable]
  exact lands_nearest_below ordered sought

end Moves

def SKTable.iterTable (t : SKTable K V) (colId : Nat) (point : ReadPoint)
    (snapshotPad : Option (IterScratchPad K V)) : IterTable K V :=
  { beginKey := t.beginKey
    entries := (t.currentPad colId point).entries
    latestPad := (t.getLatestIterPad colId point.seqNum).1.map IterScratchPad.entries
    snapshotPad := snapshotPad.map IterScratchPad.entries }

theorem mem_iterTable_keys {t : SKTable K V} (sorted : t.Sorted) (col : Nat)
    (point : ReadPoint) (snapshotPad : Option (IterScratchPad K V)) (key : K) :
    key ∈ (t.iterTable col point snapshotPad).keys ↔
      (t.shown key col point).isSome = true := by
  rw [← SKTable.get_currentPad sorted, Rows.isSome_get_iff]
  rfl

theorem shown_isSome_imp {t : SKTable K V} {key : K} {col : Nat}
    {point : ReadPoint} (shows : (t.shown key col point).isSome = true) :
    (t.findUserKey key).isSome = true ∨ (Rows.get t.rows key).isSome = true := by
  by_contra absent
  simp only [not_or, Option.not_isSome_iff_eq_none] at absent
  simp [SKTable.shown, padRead, absent.1, SKTable.deviceRow, absent.2, DeviceRow.padEntry,
    fillIterScratchPadWithColumnInfo, rowColumns, fillFrom] at shows

/-- Every key that is in memory or has a row lies in the range of its table. -/
structure Db.InRange (db : Db K V) : Prop where
  begins : db.beginKeys.Pairwise (· < ·)
  keys : ∀ (index : Nat) (t : SKTable K V), db.tables[index]? = some t →
    ∀ key, (t.findUserKey key).isSome = true ∨ (Rows.get t.rows key).isSome = true →
      (index ≠ 0 → t.beginKey ≤ key) ∧
        ∀ after, db.tables[index + 1]? = some after → key < after.beginKey

theorem Db.InRange.tablesOrdered {db : Db K V} (inRange : db.InRange)
    (wellFormed : db.WellFormed) (col : Nat) (point : ReadPoint)
    (snapshotPads : K → Option (IterScratchPad K V)) :
    TablesOrdered (db.tables.map fun t =>
      t.iterTable col point (snapshotPads t.beginKey)) := by
  have located : ∀ (index : Nat) (iterTable : IterTable K V), (db.tables.map fun t =>
        t.iterTable col point (snapshotPads t.beginKey))[index]? = some iterTable →
      ∃ t, db.tables[index]? = some t ∧ t.Sorted ∧
        iterTable = t.iterTable col point (snapshotPads t.beginKey) := by
    intro index iterTable isTable
    rw [getElem?_map] at isTable
    obtain ⟨t, isBefore, rfl⟩ := Option.map_eq_some_iff.mp isTable
    exact ⟨t, isBefore, wellFormed.sorted t (List.mem_of_getElem? isBefore), rfl⟩
  refine ⟨?_, ?_, ?_, ?_⟩
  · rw [map_map]
    exact inRange.begins
  · intro iterTable mem
    obtain ⟨index, isTable⟩ := List.mem_iff_getElem?.mp mem
    obtain ⟨t, -, sorted, rfl⟩ := located index iterTable isTable
    rw [IterTable.keys, pairwise_map]
    exact SKTable.currentPad_ascending sorted col point
  · intro index iterTable isTable notFirst key mem
    obtain ⟨t, isBefore, sorted, rfl⟩ := located index iterTable isTable
    have shows := (mem_iterTable_keys sorted col point _ key).mp mem
    exact (inRange.keys index t isBefore key (shown_isSome_imp shows)).1 notFirst
  intro index iterTable post isTable isAfter key mem
  obtain ⟨t, isBefore, sorted, rfl⟩ := located index iterTable isTable
  obtain ⟨afterTable, isAfterTable, -, rfl⟩ := located (index + 1) post isAfter
  have shows := (mem_iterTable_keys sorted col point _ key).mp mem
  exact (inRange.keys index t isBefore key (shown_isSome_imp shows)).2 afterTable
    isAfterTable

/-- An iterator stops where it should, for every key sought and from every position:
`Seek` on the least visible key that is not smaller, `SeekForPrev` on the greatest that
is not larger, each invalid exactly when there is none, and repeated `Next` and `Prev`
on all following and all preceding keys in order. -/
structure StopsRight (ts : List (IterTable K V)) (sought : K) : Prop where
  seek : ∀ key, (seek ts sought).bind (keyAt (segments ts)) = some key ↔
    IsLeast { other | other ∈ visible ts ∧ sought ≤ other } key
  seekInvalid : InsDb.seek ts sought = none ↔ ∀ other ∈ visible ts, ¬ sought ≤ other
  seekForPrev : ∀ key, (seekForPrev ts sought).bind (keyAt (segments ts)) = some key ↔
    IsGreatest { other | other ∈ visible ts ∧ other ≤ sought } key
  seekForPrevInvalid : InsDb.seekForPrev ts sought = none ↔
    ∀ other ∈ visible ts, ¬ other ≤ sought
  next : ∀ pos key, keyAt (segments ts) pos = some key → ∀ count,
    (repeated (next ts) (count + 1) (some pos)).bind (keyAt (segments ts)) =
      ((visible ts).filter fun other => key < other)[count]?
  prev : ∀ pos key, keyAt (segments ts) pos = some key → ∀ count,
    (repeated (prev ts) (count + 1) (some pos)).bind (keyAt (segments ts)) =
      ((visible ts).filter fun other => other < key).reverse[count]?

/-- For tables in key order with current pads the iterator stops where it should exactly
when what `SeekForPrev` has to find is in its own table or behind a pad that is there. -/
theorem iterator_stops_right_iff {ts : List (IterTable K V)}
    (ordered : TablesOrdered ts) (current : ∀ t ∈ ts, t.PadsCurrent)
    (sought : K) : StopsRight ts sought ↔ PrevReachable ts sought := by
  rw [← lands_seekForPrev_iff ordered current sought]
  constructor
  · intro right
    exact (lands_nearest_below ordered sought).of_isGreatest_iff right.seekForPrev
      right.seekForPrevInvalid
  intro lands
  have forward := lands_seek ordered current sought
  exact
    { seek := forward.isLeast_iff
      seekInvalid := forward.eq_none_iff
      seekForPrev := lands.isGreatest_iff
      seekForPrevInvalid := lands.eq_none_iff
      next := fun _ _ isAt count => repeated_next ordered current count isAt
      prev := fun _ _ isAt count => repeated_prev ordered current count isAt }

/-- Key 1 in the first table, key 15 in the table that begins at 10, no pads yet. -/
def twoTables : List (IterTable Nat Nat) :=
  [{ beginKey := 0, entries := [(1, .inMemory 7)] },
   { beginKey := 10, entries := [(15, .inMemory 8)] }]

theorem twoTables_ordered : TablesOrdered twoTables := by
  refine ⟨by simp [twoTables], ?_, ?_, ?_⟩
  · simp [twoTables, IterTable.keys]
  · intro index _ isTable _ _ mem
    match index, isTable with
    | 1, isTable =>
      obtain rfl := Option.some.inj isTable
      simp [IterTable.keys] at mem
      simp [mem]
    | index + 2, isTable => simp [twoTables] at isTable
  intro index _ _ isTable isAfter _ mem
  match index, isTable, isAfter with
  | 0, isTable, isAfter =>
    obtain rfl := Option.some.inj isTable
    obtain rfl := Option.some.inj isAfter
    simp [IterTable.keys] at mem
    simp [mem]
  | index + 1, _, isAfter => simp [twoTables] at isAfter

theorem twoTables_current : ∀ t ∈ twoTables, t.PadsCurrent := by
  intro _ mem
  simp only [twoTables, mem_cons, not_mem_nil, or_false] at mem
  rcases mem with rfl | rfl
  · exact ⟨by simp, by simp⟩
  · exact ⟨by simp, by simp⟩

/-- Seeking 20, both searches find key 15 in its own table. -/
theorem iterator_stops_right_at_own_table :
    TablesOrdered twoTables ∧ (∀ t ∈ twoTables, t.PadsCurrent) ∧ StopsRight twoTables 20 :=
  ⟨twoTables_ordered, twoTables_current,
    (iterator_stops_right_iff twoTables_ordered twoTables_current 20).mpr
      (Or.inl ⟨_, rfl, 15, by decide, by decide⟩)⟩

/-- Seeking 12 backwards, key 1 should be found, but the pad of the first table is not
built for a key of the second. -/
theorem seekForPrev_misses_earlier_table :
    TablesOrdered twoTables ∧ (∀ t ∈ twoTables, t.PadsCurrent) ∧
      seekForPrev twoTables 12 = none ∧ 1 ∈ visible twoTables ∧ 1 ≤ 12 :=
  ⟨twoTables_ordered, twoTables_current, by decide, by decide, by decide⟩

end InsDb
