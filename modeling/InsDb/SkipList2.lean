import InsDb.Library.Neighbours
import InsDb.SkipListHeight

/-!
# The skip list of a key map

`SkipList2` keeps the keys of a table on up to `kMaxHeight` levels of forward links, with one link
back on the lowest level.  A node is named by its key; `⊥` is `head_` and `⊤` is `nullptr`.
Whatever the heights, the list answers as a sorted set does.
-/

namespace InsDb

open Library Library.Neighbours Function

structure SkipList2 (K : Type) where
  next : Nat → WithBot K → WithTop K := fun _ _ => ⊤
  prev : K → WithBot K := fun _ => ⊥
  /-- The height of the node of an element; 0 if `GetNode` of it is `nullptr`. -/
  height : K → Nat := fun _ => 0
  maxHeight : Nat := 1
  count : Nat := 0

def kMaxHeight : Nat := 12

def randomHeight (zeros : Nat) : Nat := SkipListHeight.draw kMaxHeight zeros 1

namespace SkipList2

variable {K : Type} [LinearOrder K] (s : SkipList2 K)

/-- The loop of `FindGreaterOrEqual`, `FindLessThan` and `FindLast`, with the node at which each
level was left.  Each pass goes on to a later node or one level down. -/
def descend (after : K → Bool) : Nat → WithBot K → Nat → (Nat → WithBot K) →
    Option (Nat → WithBot K)
  | 0, _, _, _ => none
  | fuel + 1, x, level, prev =>
    match Option.filter after (s.next level x), level with
    | some next, level => descend after fuel next level prev
    | none, 0 => some (update prev 0 x)
    | none, level + 1 => descend after fuel x level (update prev (level + 1) x)

/-- The levels above the list are left at `head_`, as `Insert` has it. -/
def find (after : K → Bool) : Option (Nat → WithBot K) :=
  s.descend after (s.count + s.maxHeight) ⊥ (s.maxHeight - 1) fun _ => ⊥

def findGreaterOrEqual (key : K) : Option (Nat → WithBot K) := s.find (· < key)

def findLessThan (key : K) : Option (WithBot K) := (s.find (· < key)).map (· 0)

def findLast : Option (WithBot K) := (s.find fun _ => true).map (· 0)

/-- What `Insert` does with a new node. -/
def link (prev : Nat → WithBot K) (key : K) (height : Nat) : SkipList2 K where
  next level :=
    if level < height then
      update (update (s.next level) key (s.next level (prev level))) (prev level) key
    else
      s.next level
  prev := setPrev (update s.prev key (prev 0)) (s.next 0 (prev 0)) key
  height := update s.height key height
  maxHeight := max s.maxHeight height
  count := s.count + 1

def insert (key : K) (zeros : Nat) : Option (Bool × SkipList2 K) := do
  let prev ← s.findGreaterOrEqual key
  if s.next 0 (prev 0) = key then
    return (false, s)
  else
    return (true, s.link prev key (randomHeight zeros))

/-- What `Remove` does with a node. -/
def unlink (prev : Nat → WithBot K) (key : K) : SkipList2 K :=
  { s with
    next := fun level =>
      if level < s.height key then
        update (s.next level) (prev level) (s.next level key)
      else
        s.next level
    prev := setPrev s.prev (s.next 0 key) (prev 0)
    height := update s.height key 0
    count := s.count - 1 }

def remove (key : K) : Option (WithTop K × SkipList2 K) := do
  let prev ← s.findGreaterOrEqual key
  if s.next 0 (prev 0) = key then
    return (key, s.unlink prev key)
  else
    return (⊤, s)

def searchGreaterOrEqual (key : K) : Option (WithTop K) := do
  let prev ← s.findGreaterOrEqual key
  return s.next 0 (prev 0)

def search (key : K) : Option (WithTop K) := do
  let found ← s.searchGreaterOrEqual key
  return if found = key then found else ⊤

def searchLessThanEqual (key : K) : Option (WithBot K) := s.findLessThan key

/-- `Next` of an element.  It has a node if it is the one that the list holds under its key; one
that has left the list is looked up by its key, under which there may be another one by then. -/
def nextOf (data : K) (hasNode : Bool) : Option (WithTop K) :=
  if hasNode = true ∧ 0 < s.height data then some (s.next 0 data) else s.searchGreaterOrEqual data

def prevOf (data : K) (hasNode : Bool) : Option (WithBot K) :=
  if hasNode = true ∧ 0 < s.height data then some (s.prev data) else s.searchLessThanEqual data

end SkipList2

inductive SkipListCall (K : Type) where
  | insert (key : K) (zeros : Nat)
  | remove (key : K)
  | search (key : K)
  | searchLessThanEqual (key : K)
  | searchGreaterOrEqual (key : K)
  | next (data : K) (hasNode : Bool)
  | prev (data : K) (hasNode : Bool)
  | first
  | last

inductive SkipListResult (K : Type) where
  | inserted (done : Bool)
  | node (found : WithTop K)
  | before (found : WithBot K)

namespace SkipListCall

variable {K : Type} [LinearOrder K]

/-- A call of the list: its result, and the list that is left. -/
def perform (s : SkipList2 K) : SkipListCall K → Option (SkipListResult K × SkipList2 K)
  | insert key zeros => (s.insert key zeros).map fun (done, s) => (.inserted done, s)
  | remove key => (s.remove key).map fun (found, s) => (.node found, s)
  | search key => (s.search key).map fun found => (.node found, s)
  | searchLessThanEqual key => (s.searchLessThanEqual key).map fun found => (.before found, s)
  | searchGreaterOrEqual key => (s.searchGreaterOrEqual key).map fun found => (.node found, s)
  | next data hasNode => (s.nextOf data hasNode).map fun found => (.node found, s)
  | prev data hasNode => (s.prevOf data hasNode).map fun found => (.before found, s)
  | first => some (.node (s.next 0 ⊥), s)
  | last => s.findLast.map fun found => (.before found, s)

/-- The same call of a sorted set.  `SearchLessThanEqual` leaves out the key itself, and `Next` of
an element that is not the one in the set does not. -/
def answer (S : Finset K) : SkipListCall K → SkipListResult K × Finset K
  | insert key _ => (.inserted (key ∉ S), Insert.insert key S)
  | remove key => (.node (if key ∈ S then key else ⊤), S.erase key)
  | search key => (.node (if key ∈ S then key else ⊤), S)
  | searchLessThanEqual key => (.before (S.filter (· < key)).max, S)
  | searchGreaterOrEqual key => (.node (S.filter (key ≤ ·)).min, S)
  | next data hasNode =>
    (.node (if hasNode = true ∧ data ∈ S then (S.filter (data < ·)).min
      else (S.filter (data ≤ ·)).min), S)
  | prev data _ => (.before (S.filter (· < data)).max, S)
  | first => (.node S.min, S)
  | last => (.before S.max, S)

end SkipListCall

theorem le_draw {maxHeight : Nat} (zeros height : Nat) :
    height ≤ SkipListHeight.draw maxHeight zeros height := by
  induction zeros generalizing height with
  | zero => exact le_rfl
  | succ zeros ih =>
    rw [SkipListHeight.draw]
    split_ifs
    · exact (Nat.le_succ height).trans (ih (height + 1))
    · exact le_rfl

namespace SkipList2

variable {K : Type} [LinearOrder K] {s : SkipList2 K} {S : Finset K} {key : K}

/-- The elements with a link on a level. -/
def onLevel (s : SkipList2 K) (level : Nat) : Set K :=
  {k | level < s.height k}

/-- The list is a skip list of the elements. -/
structure Holds (s : SkipList2 K) (S : Finset K) : Prop where
  linked : ∀ level, Linked (s.onLevel level) (s.next level)
  elements : s.onLevel 0 = ↑S
  heights : ∀ k, s.height k ≤ s.maxHeight
  count : s.count = S.card
  maxHeight : 0 < s.maxHeight ∧ s.maxHeight ≤ kMaxHeight
  backlinked : Backlinked ↑S (s.next 0) s.prev

theorem onLevel_update (height level : Nat) :
    {k | level < update s.height key height k} =
      if level < height then Insert.insert key (s.onLevel level) else s.onLevel level \ {key} := by
  ext k
  by_cases isKey : k = key
  · split_ifs with inside
    · simp [isKey, inside]
    · simp [isKey, inside]
  · split_ifs
    · simp [isKey, onLevel]
    · simp [isKey, onLevel]

/-- The last elements below `key`, level by level. -/
def Before (s : SkipList2 K) (key : K) (prev : Nat → WithBot K) : Prop :=
  ∀ level, IsLast {k ∈ s.onLevel level | k < key} (prev level)

theorem min_eq_iff : (S.filter (key ≤ ·)).min = key ↔ key ∈ S := by
  constructor
  · intro isMin
    exact (Finset.mem_filter.mp (Finset.mem_of_min isMin)).1
  · intro mem
    apply le_antisymm
    · exact Finset.min_le (Finset.mem_filter.mpr ⟨mem, le_rfl⟩)
    · exact Finset.le_min fun k inside => WithTop.coe_le_coe.mpr (Finset.mem_filter.mp inside).2

namespace Holds

theorem mem_iff (holds : s.Holds S) (k : K) : k ∈ S ↔ 0 < s.height k := by
  rw [← Finset.mem_coe, ← holds.elements]
  rfl

theorem bottom (holds : s.Holds S) : Linked ↑S (s.next 0) := by
  rw [← holds.elements]
  exact holds.linked 0

theorem descend (holds : s.Holds S) {after : K → Bool}
    (lower : ∀ j k, j ≤ k → after k = true → after j = true) {fuel level : Nat} {x : WithBot K}
    (prev : Nat → WithBot K) (node : IsNode (s.onLevel level) x)
    (passed : ∀ k : K, x = k → after k = true)
    (enough : (S.filter fun k : K => x < k).card + level < fuel) :
    ∃ found, s.descend after fuel x level prev = some found ∧
      (∀ l ≤ level, IsLast {k ∈ s.onLevel l | after k = true} (found l)) ∧
      ∀ l, level < l → found l = prev l := by
  induction fuel generalizing x level prev with
  | zero => omega
  | succ fuel ih =>
    have first := holds.linked level x node
    simp only [SkipList2.descend]
    cases isNext : Option.filter after (s.next level x) with
    | some n =>
      obtain ⟨isN, isAfter⟩ := Option.filter_eq_some_iff.mp isNext
      obtain ⟨mem, behind⟩ := first.1 n isN
      apply ih prev (isNode_coe mem)
      · intro k same
        rw [← WithBot.coe_inj.mp same]
        exact isAfter
      · have fewer : (S.filter fun k : K => (n : WithBot K) < k).card <
            (S.filter fun k : K => x < k).card := by
          apply Finset.card_lt_card
          refine Finset.ssubset_iff_of_subset ?_ |>.mpr ⟨n, ?_, by simp⟩
          · exact Finset.monotone_filter_right S fun k _ above => behind.trans above
          · exact Finset.mem_filter.mpr ⟨(holds.mem_iff n).mpr (Nat.zero_lt_of_lt mem), behind⟩
        omega
    | none =>
      have here : IsLast {k ∈ s.onLevel level | after k = true} x := by
        refine ⟨fun k same => ⟨node k same, passed k same⟩, ?_⟩
        rintro k ⟨mem, isAfter⟩
        by_contra notBefore
        have le := first.2 k ⟨mem, not_le.mp notBefore⟩
        cases isN : s.next level x with
        | top => exact absurd (isN ▸ le) (by simp)
        | coe n =>
          rw [isN] at le isNext
          have stays := lower n k (WithTop.coe_le_coe.mp le) isAfter
          exact absurd isNext (by simp [Option.filter, stays])
      cases level with
      | zero =>
        refine ⟨_, rfl, ?_, ?_⟩
        · intro l atMost
          rw [Nat.le_zero.mp atMost, update_self]
          exact here
        · intro l above
          exact update_of_ne above.ne' ..
      | succ level =>
        obtain ⟨found, isFound, below, unchanged⟩ := ih (update prev (level + 1) x)
          (fun k same => Nat.lt_of_succ_lt (node k same)) passed (by omega)
        refine ⟨found, isFound, ?_, ?_⟩
        · intro l atMost
          rcases Nat.lt_or_eq_of_le atMost with less | isTop
          · exact below l (Nat.le_of_lt_succ less)
          · rw [isTop, unchanged _ (Nat.lt_succ_self level), update_self]
            exact here
        · intro l above
          rw [unchanged l (by omega), update_of_ne (by omega)]

theorem find (holds : s.Holds S) {after : K → Bool}
    (lower : ∀ j k, j ≤ k → after k = true → after j = true) :
    ∃ found, s.find after = some found ∧
      ∀ l, IsLast {k ∈ s.onLevel l | after k = true} (found l) := by
  have positive := holds.maxHeight.1
  have enough : (S.filter fun k : K => (⊥ : WithBot K) < k).card + (s.maxHeight - 1) <
      s.count + s.maxHeight := by
    have fewer := Finset.card_filter_le S fun k : K => (⊥ : WithBot K) < k
    rw [← holds.count] at fewer
    omega
  obtain ⟨found, isFound, below, above⟩ := holds.descend lower (fun _ => ⊥)
    (fun _ same => absurd same WithBot.bot_ne_coe) (fun _ same => absurd same WithBot.bot_ne_coe)
    enough
  refine ⟨found, isFound, ?_⟩
  intro l
  by_cases inside : l ≤ s.maxHeight - 1
  · exact below l inside
  · rw [above l (by omega)]
    refine ⟨fun _ same => absurd same WithBot.bot_ne_coe, ?_⟩
    rintro k ⟨higher, _⟩
    have atMost : s.maxHeight ≤ l := by omega
    exact absurd (higher.out.trans_le (holds.heights k)) (not_lt_of_ge atMost)

theorem before_bottom (holds : s.Holds S) {prev : Nat → WithBot K}
    (before : s.Before key prev) : IsLast {k ∈ (S : Set K) | k < key} (prev 0) := by
  rw [← holds.elements]
  exact before 0

/-- Behind the last node below `key` stands the first one that is not. -/
theorem next_eq_min (holds : s.Holds S) {p : WithBot K}
    (between : IsLast {k ∈ (S : Set K) | k < key} p) :
    s.next 0 p = (S.filter (key ≤ ·)).min := by
  apply IsFirst.eq_min
  have same : ((S.filter (key ≤ ·) : Finset K) : Set K) = {k ∈ (S : Set K) | p < k} := by
    ext k
    simp only [Finset.coe_filter, Set.mem_ofPred_eq]
    exact and_congr_right fun mem => (lt_iff_of_isLast between mem).symm
  rw [same]
  exact holds.bottom p (isNode_of_isLast between)

theorem findGreaterOrEqual (holds : s.Holds S) (key : K) :
    ∃ prev, s.findGreaterOrEqual key = some prev ∧ s.Before key prev ∧
      prev 0 = (S.filter (· < key)).max ∧ s.next 0 (prev 0) = (S.filter (key ≤ ·)).min := by
  have lower : ∀ j k : K, j ≤ k → decide (k < key) = true → decide (j < key) = true := by
    intro j k le less
    exact decide_eq_true (le.trans_lt (of_decide_eq_true less))
  obtain ⟨prev, isPrev, before⟩ := holds.find lower
  simp only [decide_eq_true_eq] at before
  have between := holds.before_bottom before
  refine ⟨prev, isPrev, before, IsLast.eq_max ?_, holds.next_eq_min between⟩
  rw [Finset.coe_filter]
  exact between

section Change

variable (holds : s.Holds S) {prev : Nat → WithBot K} (before : s.Before key prev)

include holds before

theorem link (new : key ∉ S) {height : Nat} (positive : 0 < height) (small : height ≤ kMaxHeight) :
    (s.link prev key height).Holds (Insert.insert key S) where
  linked level := by
    have absent : key ∉ s.onLevel level :=
      fun mem => new ((holds.mem_iff key).mpr (Nat.zero_lt_of_lt mem))
    rw [onLevel, SkipList2.link, onLevel_update]
    dsimp only
    split_ifs
    · exact (holds.linked level).insert (before level) absent
    · rw [Set.sdiff_singleton_eq_self absent]
      exact holds.linked level
  elements := by
    rw [onLevel, SkipList2.link, onLevel_update, if_pos positive, holds.elements, Finset.coe_insert]
  heights k := by
    change update s.height key height k ≤ max s.maxHeight height
    rw [update_apply]
    split_ifs
    · exact le_max_right ..
    · exact (holds.heights k).trans (le_max_left ..)
  count := by rw [Finset.card_insert_of_notMem new, ← holds.count, SkipList2.link]
  maxHeight := ⟨holds.maxHeight.1.trans_le (le_max_left ..), max_le holds.maxHeight.2 small⟩
  backlinked := by
    simp only [Finset.coe_insert, SkipList2.link, if_pos positive]
    exact holds.backlinked.insert (holds.before_bottom before) holds.bottom new

theorem unlink (old : key ∈ S) : (s.unlink prev key).Holds (S.erase key) where
  linked level := by
    rw [onLevel, SkipList2.unlink, onLevel_update, if_neg (Nat.not_lt_zero level)]
    dsimp only
    split_ifs with inside
    · exact (holds.linked level).erase (before level) inside
    · rw [Set.sdiff_singleton_eq_self (show key ∉ s.onLevel level from inside)]
      exact holds.linked level
  elements := by
    rw [onLevel, SkipList2.unlink, onLevel_update, if_neg (Nat.not_lt_zero 0), holds.elements,
      Finset.coe_erase]
  heights k := by
    change update s.height key 0 k ≤ s.maxHeight
    rw [update_apply]
    split_ifs
    · exact Nat.zero_le _
    · exact holds.heights k
  count := by rw [Finset.card_erase_of_mem old, ← holds.count, SkipList2.unlink]
  maxHeight := holds.maxHeight
  backlinked := by
    simp only [Finset.coe_erase, SkipList2.unlink, if_pos ((holds.mem_iff key).mp old)]
    exact holds.backlinked.erase old

end Change

theorem insert (holds : s.Holds S) (key : K) (zeros : Nat) :
    ∃ next, s.insert key zeros = some (decide (key ∉ S), next) ∧
      next.Holds (Insert.insert key S) := by
  obtain ⟨prev, isPrev, before, _, isNext⟩ := holds.findGreaterOrEqual key
  simp only [SkipList2.insert, isPrev, isNext, min_eq_iff, Option.bind_eq_bind, Option.bind_some]
  by_cases old : key ∈ S
  · rw [if_pos old, Finset.insert_eq_of_mem old]
    exact ⟨s, by simp [old], holds⟩
  rw [if_neg old]
  exact ⟨s.link prev key (randomHeight zeros), by simp [old],
    holds.link before old (le_draw zeros 1) (SkipListHeight.draw_le (by decide))⟩

theorem remove (holds : s.Holds S) (key : K) :
    ∃ next, s.remove key = some (if key ∈ S then (key : WithTop K) else ⊤, next) ∧
      next.Holds (S.erase key) := by
  obtain ⟨prev, isPrev, before, _, isNext⟩ := holds.findGreaterOrEqual key
  simp only [SkipList2.remove, isPrev, isNext, min_eq_iff, Option.bind_eq_bind, Option.bind_some]
  by_cases old : key ∈ S
  · rw [if_pos old, if_pos old]
    exact ⟨_, rfl, holds.unlink before old⟩
  · rw [if_neg old, if_neg old, Finset.erase_eq_of_notMem old]
    exact ⟨s, rfl, holds⟩

theorem searchGreaterOrEqual (holds : s.Holds S) (key : K) :
    s.searchGreaterOrEqual key = some (S.filter (key ≤ ·)).min := by
  obtain ⟨prev, isPrev, _, _, isNext⟩ := holds.findGreaterOrEqual key
  simp [SkipList2.searchGreaterOrEqual, isPrev, isNext]

theorem searchLessThanEqual (holds : s.Holds S) (key : K) :
    s.searchLessThanEqual key = some (S.filter (· < key)).max := by
  obtain ⟨prev, isPrev, _, isLast, _⟩ := holds.findGreaterOrEqual key
  rw [SkipList2.findGreaterOrEqual] at isPrev
  simp [SkipList2.searchLessThanEqual, findLessThan, isPrev, isLast]

theorem search (holds : s.Holds S) (key : K) :
    s.search key = some (if key ∈ S then (key : WithTop K) else ⊤) := by
  have isKey := @min_eq_iff K _ S key
  simp only [SkipList2.search, holds.searchGreaterOrEqual, Option.bind_eq_bind, Option.bind_some,
    isKey]
  split_ifs with old
  · rw [isKey.mpr old]
    rfl
  · rfl

theorem nextOf (holds : s.Holds S) (data : K) (hasNode : Bool) :
    s.nextOf data hasNode = some (if hasNode = true ∧ data ∈ S then (S.filter (data < ·)).min
      else (S.filter (data ≤ ·)).min) := by
  have isIn := holds.mem_iff data
  rw [SkipList2.nextOf]
  by_cases inList : hasNode = true ∧ data ∈ S
  · have first := holds.bottom data (isNode_coe inList.2)
    rw [if_pos inList, if_pos ⟨inList.1, isIn.mp inList.2⟩]
    congr 1
    apply IsFirst.eq_min
    simpa [Finset.coe_filter] using first
  · rw [if_neg inList, if_neg fun found => inList ⟨found.1, isIn.mpr found.2⟩]
    exact holds.searchGreaterOrEqual data

theorem prevOf (holds : s.Holds S) (data : K) (hasNode : Bool) :
    s.prevOf data hasNode = some (S.filter (· < data)).max := by
  rw [SkipList2.prevOf]
  split_ifs with inList
  · have mem := (holds.mem_iff data).mpr inList.2
    obtain ⟨prev, _, before, isLast, isNext⟩ := holds.findGreaterOrEqual data
    have node := isNode_of_isLast (holds.before_bottom before)
    rw [holds.backlinked (prev 0) node data (isNext.trans (min_eq_iff.mpr mem)), isLast]
  · exact holds.searchLessThanEqual data

theorem first (holds : s.Holds S) : s.next 0 ⊥ = S.min := by
  have first := holds.bottom ⊥ fun _ same => absurd same WithBot.bot_ne_coe
  apply IsFirst.eq_min
  simpa [WithBot.bot_lt_coe] using first

theorem findLast (holds : s.Holds S) : s.findLast = some S.max := by
  have lower : ∀ j k : K, j ≤ k → true = true → true = true := fun _ _ _ same => same
  obtain ⟨found, isFound, last⟩ := holds.find lower
  have atBottom := last 0
  rw [holds.elements] at atBottom
  simp only [SkipList2.findLast, isFound, Option.map_some]
  congr 1
  apply IsLast.eq_max
  simpa using atBottom

theorem perform (holds : s.Holds S) (call : SkipListCall K) :
    ∃ next, call.perform s = some ((call.answer S).1, next) ∧ next.Holds (call.answer S).2 := by
  cases call with
  | insert key zeros =>
    obtain ⟨next, done, kept⟩ := holds.insert key zeros
    exact ⟨next, by simp [SkipListCall.perform, SkipListCall.answer, done], kept⟩
  | remove key =>
    obtain ⟨next, done, kept⟩ := holds.remove key
    exact ⟨next, by simp [SkipListCall.perform, SkipListCall.answer, done], kept⟩
  | _ =>
    refine ⟨s, ?_, holds⟩
    simp [SkipListCall.perform, SkipListCall.answer, holds.search, holds.searchGreaterOrEqual,
      holds.searchLessThanEqual, holds.nextOf, holds.prevOf, holds.first, holds.findLast]

theorem empty : ({} : SkipList2 K).Holds ∅ := by
  have nothing : ∀ level, ({} : SkipList2 K).onLevel level = ∅ := by simp [onLevel]
  refine ⟨?_, by simp [nothing], by simp, rfl, ⟨Nat.one_pos, by simp [kMaxHeight]⟩,
    by simp [Backlinked]⟩
  intro level x _
  rw [nothing]
  exact ⟨fun _ same => absurd same WithTop.top_ne_coe, fun _ mem => mem.1.elim⟩

end Holds

end SkipList2

namespace SkipListCall

variable {K : Type} [LinearOrder K]

def step (s : SkipList2 K) (call : SkipListCall K) : Option (SkipList2 K) :=
  (call.perform s).map Prod.snd

def contents (calls : List (SkipListCall K)) (S : Finset K) : Finset K :=
  calls.foldl (fun S call => (call.answer S).2) S

theorem exec_of_holds (calls : List (SkipListCall K)) {s : SkipList2 K} {S : Finset K}
    (holds : s.Holds S) :
    ∃ last, Run.exec step calls s = some last ∧ last.Holds (contents calls S) := by
  induction calls generalizing s S with
  | nil => exact ⟨s, rfl, holds⟩
  | cons call calls ih =>
    obtain ⟨next, done, kept⟩ := holds.perform call
    obtain ⟨last, runs, lastKept⟩ := ih kept
    exact ⟨last, by simp [Run.exec, step, done, runs], lastKept⟩

/-- Whatever heights are drawn, after any calls of a skip list every further call returns what a
sorted set returns.  The elements stay linked in order on every level and back, and are counted. -/
theorem skipList_refines_sortedSet (calls : List (SkipListCall K)) :
    ∃ s : SkipList2 K, Run.exec step calls {} = some s ∧ s.Holds (contents calls ∅) ∧
      ∀ call : SkipListCall K, ∃ next,
        call.perform s = some ((call.answer (contents calls ∅)).1, next) := by
  obtain ⟨s, runs, holds⟩ := exec_of_holds calls SkipList2.Holds.empty
  refine ⟨s, runs, holds, fun call => ?_⟩
  obtain ⟨next, done, _⟩ := holds.perform call
  exact ⟨next, done⟩

theorem max_lt_eq_max_le_iff {S : Finset K} {key : K} :
    (S.filter (· < key)).max = (S.filter (· ≤ key)).max ↔ key ∉ S := by
  constructor
  · intro same mem
    have reaches : (key : WithBot K) ≤ (S.filter (· ≤ key)).max :=
      Finset.le_max (Finset.mem_filter.mpr ⟨mem, le_rfl⟩)
    have stays : (S.filter (· < key)).max < (key : WithBot K) := by
      refine (Finset.sup_lt_iff (WithBot.bot_lt_coe key)).mpr fun k inside => ?_
      exact WithBot.coe_lt_coe.mpr (Finset.mem_filter.mp inside).2
    exact absurd (same ▸ reaches) (not_le_of_gt stays)
  · intro absent
    congr 1
    refine Finset.filter_congr fun k mem => ⟨le_of_lt, fun le => lt_of_le_of_ne le ?_⟩
    exact ne_of_mem_of_not_mem mem absent

/-- After any calls `SearchGreaterOrEqual` finds the least element that is not below the key, and
`SearchLessThanEqual` the greatest one that is not above it exactly if the key is absent. -/
theorem searchLessThanEqual_iff (calls : List (SkipListCall K)) :
    ∃ s : SkipList2 K, Run.exec step calls {} = some s ∧ ∀ key,
      s.searchGreaterOrEqual key = some ((contents calls ∅).filter (key ≤ ·)).min ∧
        (s.searchLessThanEqual key = some ((contents calls ∅).filter (· ≤ key)).max ↔
          key ∉ contents calls ∅) := by
  obtain ⟨s, runs, holds⟩ := exec_of_holds calls SkipList2.Holds.empty
  refine ⟨s, runs, fun key => ⟨holds.searchGreaterOrEqual key, ?_⟩⟩
  rw [holds.searchLessThanEqual key, Option.some.injEq]
  exact max_lt_eq_max_le_iff

/-- The key that was inserted is not found. -/
theorem inserted_key_passed_over :
    ((Run.exec step [insert 1 0] ({} : SkipList2 Nat)).bind fun s => s.searchLessThanEqual 1) =
        some ⊥ ∧
      ((contents [insert 1 0] (∅ : Finset Nat)).filter (· ≤ 1)).max = WithBot.some 1 :=
  ⟨rfl, rfl⟩

end SkipListCall

end InsDb
