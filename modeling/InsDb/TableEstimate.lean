import Mathlib.Data.List.DropRight
import Mathlib.Order.Defs.LinearOrder
import Mathlib.Tactic.Ring

/-!
# The estimated number of tables below a key

`SkipList::EstimateCount` walks down the skip list of the tables and multiplies the hops
it has made by the branching factor at each level it descends.  A table that is taller
than its predecessors replaces the hops over them by one hop on its own level, so that the
estimate need not grow with the key.  `weightBelow_concat` says what one more table does to it.
-/

namespace InsDb

open List

structure SkipNode (K : Type) where
  key : K
  height : Nat
deriving DecidableEq, Repr

structure SkipList (K : Type) [LinearOrder K] where
  branching : Nat
  maxHeight : Nat
  nodes : List (SkipNode K)
  ascending : nodes.Pairwise fun node later => node.key < later.key
  heights : ∀ node ∈ nodes, 0 < node.height ∧ node.height ≤ maxHeight

section Walk

variable {K : Type} [LinearOrder K]

/-- The hops of `EstimateCount` on one level.  `skipped` are the nodes behind `x` that the
level does not have; the result is the nodes behind `x` and the count. -/
def hopLevel (level : Nat) (key : K) (skipped : List (SkipNode K)) (count : Nat) :
    List (SkipNode K) → List (SkipNode K) × Nat
  | [] => (skipped, count)
  | node :: rest =>
    if level < node.height then
      if node.key < key then hopLevel level key [] (count + 1) rest
      else (skipped ++ node :: rest, count)
    else hopLevel level key (skipped ++ [node]) count rest

def descendFrom (branching : Nat) (key : K) : Nat → List (SkipNode K) → Nat → Nat
  | 0, behind, count => (hopLevel 0 key [] count behind).2
  | level + 1, behind, count =>
    let (behind, count) := hopLevel (level + 1) key [] count behind
    descendFrom branching key level behind (count * branching)

/-- `SkipList::EstimateCount`. -/
def estimateCount (list : SkipList K) (key : K) : Nat :=
  descendFrom list.branching key (list.maxHeight - 1) list.nodes 0

structure ApproximateOptions where
  maxRequestSize : Nat := 4096
  approxKeySize : Nat
  approxValSize : Nat

/-- `DBImpl::GetApproximateSizes` of one range, in 64 bits. -/
def getApproximateSize (options : ApproximateOptions) (list : SkipList K) (start limit : K) :
    Nat :=
  let tableSize := options.maxRequestSize / options.approxKeySize *
    (options.approxKeySize + options.approxValSize) % 2 ^ 32
  let countTable := (estimateCount list limit + 2 ^ 64 - estimateCount list start % 2 ^ 64) % 2 ^ 64
  (countTable + 1) * tableSize % 2 ^ 64

end Walk

variable {K : Type}

variable (level : Nat)

def SkipNode.within (node : SkipNode K) : Bool := decide (node.height ≤ level)

def SkipNode.above (node : SkipNode K) : Bool := decide (level < node.height)

/-- The estimate that the levels below `level` contribute behind a list of tables. -/
def weightBelow (branching : Nat) : Nat → List (SkipNode K) → Nat
  | 0, _ => 0
  | level + 1, below =>
    (below.rtakeWhile (SkipNode.within (level + 1))).countP (SkipNode.above level) *
        branching ^ level +
      weightBelow branching level below

theorem rtakeWhile_append_cons {p : SkipNode K → Bool} {node : SkipNode K}
    (stops : p node = false) (pre post : List (SkipNode K)) :
    (pre ++ node :: post).rtakeWhile p = post.rtakeWhile p := by
  induction post using reverseRecOn with
  | nil => simp [rtakeWhile_concat_neg, stops]
  | append_singleton post last ih =>
    rw [← cons_append, ← append_assoc]
    cases holds : p last with
    | true =>
      rw [rtakeWhile_concat_pos _ _ _ holds, rtakeWhile_concat_pos _ _ _ holds, ih]
    | false =>
      have fails : ¬ p last = true := by simp [holds]
      rw [rtakeWhile_concat_neg _ _ _ fails, rtakeWhile_concat_neg _ _ _ fails]

theorem rtakeWhile_within (below : List (SkipNode K)) :
    (below.rtakeWhile (SkipNode.within (level + 1))).rtakeWhile (SkipNode.within level) =
      below.rtakeWhile (SkipNode.within level) := by
  simp only [rtakeWhile, reverse_reverse, takeWhile_takeWhile]
  congr 2
  funext node
  rw [Bool.eq_iff_iff]
  simp only [SkipNode.within, decide_eq_true_eq]
  omega

variable (branching : Nat)

theorem weightBelow_of_taller {level : Nat} {node : SkipNode K}
    (taller : level < node.height) (below : List (SkipNode K)) :
    weightBelow branching level (below ++ [node]) = 0 := by
  induction level with
  | zero => rfl
  | succ level ih =>
    have stops : ¬ node.within (level + 1) = true := by simp [SkipNode.within, taller]
    rw [weightBelow, rtakeWhile_concat_neg _ _ _ stops, ih (by omega)]
    simp

/-- A table adds the weight of its top level and takes away what was collected below it. -/
theorem weightBelow_concat {level : Nat} {node : SkipNode K}
    (positive : 0 < node.height) (fits : node.height ≤ level) (below : List (SkipNode K)) :
    weightBelow branching level (below ++ [node]) + weightBelow branching (node.height - 1) below =
      weightBelow branching level below + branching ^ (node.height - 1) := by
  induction level with
  | zero => omega
  | succ level ih =>
    have kept : node.within (level + 1) = true := by simp [SkipNode.within, fits]
    rw [weightBelow, weightBelow, rtakeWhile_concat_pos _ _ _ kept, countP_append, countP_singleton]
    by_cases atTop : node.height = level + 1
    · have counted : node.above level = true := by simp [SkipNode.above, atTop]
      rw [if_pos counted, weightBelow_of_taller branching (by omega) below, atTop,
        Nat.add_sub_cancel]
      ring
    have notCounted : ¬ node.above level = true := by
      simp only [SkipNode.above, decide_eq_true_eq]
      omega
    rw [if_neg notCounted, Nat.add_zero]
    omega

/-- What the tables `between` take away behind `below`, one after the other. -/
def weightDropped (branching : Nat) (below : List (SkipNode K)) : List (SkipNode K) → Nat
  | [] => 0
  | node :: rest =>
    weightBelow branching (node.height - 1) below +
      weightDropped branching (below ++ [node]) rest

def weightAdded (between : List (SkipNode K)) : Nat :=
  (between.map fun node => branching ^ (node.height - 1)).sum

theorem weightBelow_append (branching level : Nat) (below between : List (SkipNode K))
    (heights : ∀ node ∈ between, 0 < node.height ∧ node.height ≤ level) :
    weightBelow branching level (below ++ between) + weightDropped branching below between =
      weightBelow branching level below + weightAdded branching between := by
  induction between generalizing below with
  | nil => simp [weightDropped, weightAdded]
  | cons node rest ih =>
    have height := heights node mem_cons_self
    have one := weightBelow_concat branching height.1 height.2 below
    have more := ih (below ++ [node]) fun other mem =>
      heights other (mem_cons_of_mem _ mem)
    rw [append_assoc, singleton_append] at more
    simp only [weightDropped, weightAdded, map_cons, sum_cons] at more ⊢
    omega

variable [LinearOrder K]

theorem hopLevel_stops (key : K) (skipped : List (SkipNode K)) (count : Nat)
    {rest : List (SkipNode K)} (notBelow : ∀ node ∈ rest, ¬ node.key < key) :
    hopLevel level key skipped count rest = (skipped ++ rest, count) := by
  induction rest generalizing skipped with
  | nil => simp [hopLevel]
  | cons node rest ih =>
    have later := fun other mem => notBelow other (mem_cons_of_mem _ mem)
    rw [hopLevel, if_neg (notBelow node mem_cons_self)]
    split_ifs
    · rfl
    rw [ih _ later]
    simp

theorem hopLevel_append (key : K) (skipped : List (SkipNode K)) (count : Nat)
    {below rest : List (SkipNode K)} (short : ∀ node ∈ skipped, node.within level = true)
    (isBelow : ∀ node ∈ below, node.key < key) (notBelow : ∀ node ∈ rest, ¬ node.key < key) :
    hopLevel level key skipped count (below ++ rest) =
      ((skipped ++ below).rtakeWhile (SkipNode.within level) ++ rest,
        count + below.countP (SkipNode.above level)) := by
  induction below generalizing skipped count with
  | nil =>
    have allShort := rtakeWhile_eq_self_iff.mpr short
    simp [hopLevel_stops level key skipped count notBelow, allShort]
  | cons node below ih =>
    have laterBelow := fun other mem => isBelow other (mem_cons_of_mem _ mem)
    rw [cons_append, hopLevel, if_pos (isBelow node mem_cons_self)]
    by_cases tall : level < node.height
    · have stops : node.within level = false := by simp [SkipNode.within, tall]
      have counted : node.above level = true := by simp [SkipNode.above, tall]
      rw [if_pos tall, ih [] (count + 1) (by simp) laterBelow, rtakeWhile_append_cons stops,
        countP_cons_of_pos counted, nil_append, Nat.add_right_comm, Nat.add_assoc]
    have isShort : node.within level = true := by simp [SkipNode.within]; omega
    have notCounted : ¬ node.above level = true := by simp [SkipNode.above, tall]
    have allShort : ∀ other ∈ skipped ++ [node], other.within level = true := by
      intro other mem
      rcases mem_append.mp mem with isSkipped | isNode
      · exact short other isSkipped
      rw [mem_singleton.mp isNode]
      exact isShort
    rw [if_neg tall, ih _ count allShort laterBelow, countP_cons_of_neg notCounted,
      append_assoc, singleton_append]

theorem descendFrom_eq (key : K) {below rest : List (SkipNode K)}
    (isBelow : ∀ node ∈ below, node.key < key) (notBelow : ∀ node ∈ rest, ¬ node.key < key)
    (level count : Nat) :
    descendFrom branching key level (below.rtakeWhile (SkipNode.within (level + 1)) ++ rest) count =
      count * branching ^ level + weightBelow branching (level + 1) below := by
  induction level generalizing count with
  | zero =>
    have stillBelow : ∀ node ∈ below.rtakeWhile (SkipNode.within 1), node.key < key :=
      fun node mem => isBelow node ((rtakeWhile_suffix _ _).subset mem)
    simp [descendFrom, weightBelow, hopLevel_append 0 key [] count (by simp) stillBelow notBelow]
  | succ level ih =>
    have stillBelow : ∀ node ∈ below.rtakeWhile (SkipNode.within (level + 2)), node.key < key :=
      fun node mem => isBelow node ((rtakeWhile_suffix _ _).subset mem)
    rw [descendFrom, hopLevel_append (level + 1) key [] count (by simp) stillBelow notBelow]
    simp only [nil_append]
    rw [rtakeWhile_within, ih, weightBelow.eq_def _ (level + 1 + 1)]
    ring

variable (list : SkipList K)

theorem estimateCount_append {key : K} {below rest : List (SkipNode K)}
    (nodes : list.nodes = below ++ rest) (isBelow : ∀ node ∈ below, node.key < key)
    (notBelow : ∀ node ∈ rest, ¬ node.key < key) :
    estimateCount list key = weightBelow list.branching list.maxHeight below := by
  have allWithin : below.rtakeWhile (SkipNode.within list.maxHeight) = below := by
    apply rtakeWhile_eq_self_iff.mpr
    intro node mem
    have height := (list.heights node (nodes ▸ mem_append_left _ mem)).2
    simp [SkipNode.within, height]
  rw [estimateCount, nodes]
  cases top : list.maxHeight with
  | zero =>
    have noNodes : list.nodes = [] := by
      apply eq_nil_iff_forall_not_mem.mpr
      intro node mem
      have height := list.heights node mem
      omega
    obtain ⟨rfl, rfl⟩ := append_eq_nil_iff.mp (nodes ▸ noNodes)
    rfl
  | succ level =>
    rw [top] at allWithin
    have descended := descendFrom_eq list.branching key isBelow notBelow level 0
    rw [allWithin, Nat.zero_mul, Nat.zero_add] at descended
    exact descended

def SkipNode.isBelow (key : K) (node : SkipNode K) : Bool := decide (node.key < key)

/-- The tables that begin below a key. -/
def tablesBelow (key : K) : List (SkipNode K) :=
  list.nodes.takeWhile (SkipNode.isBelow key)

/-- The tables that begin at or behind `start` and below `limit`. -/
def tablesWithin (start limit : K) : List (SkipNode K) :=
  (list.nodes.dropWhile (SkipNode.isBelow start)).takeWhile (SkipNode.isBelow limit)

theorem not_isBelow_of_mem_dropWhile {key : K} {nodes : List (SkipNode K)}
    (sorted : nodes.Pairwise fun node later => node.key < later.key) :
    ∀ node ∈ nodes.dropWhile (SkipNode.isBelow key), ¬ node.key < key := by
  induction nodes with
  | nil => simp
  | cons node rest ih =>
    obtain ⟨smallest, ascendingRest⟩ := pairwise_cons.mp sorted
    by_cases below : node.key < key
    · rw [dropWhile_cons_of_pos (by simp [SkipNode.isBelow, below])]
      exact ih ascendingRest
    rw [dropWhile_cons_of_neg (by simpa [SkipNode.isBelow] using below)]
    intro other mem
    rcases mem_cons.mp mem with rfl | isLater
    · exact below
    · exact fun otherBelow => below (lt_trans (smallest other isLater) otherBelow)

theorem estimateCount_eq (key : K) : estimateCount list key =
      weightBelow list.branching list.maxHeight (tablesBelow list key) := by
  apply estimateCount_append list takeWhile_append_dropWhile.symm
  · intro node mem
    have holds := mem_takeWhile_imp mem
    exact of_decide_eq_true holds
  · exact not_isBelow_of_mem_dropWhile list.ascending

theorem tablesBelow_append {start limit : K} (ordered : start ≤ limit) :
    tablesBelow list limit = tablesBelow list start ++ tablesWithin list start limit := by
  unfold tablesBelow tablesWithin
  induction list.nodes with
  | nil => rfl
  | cons node rest ih =>
    by_cases below : node.key < start
    · have belowStart : node.isBelow start = true := decide_eq_true below
      have belowLimit : node.isBelow limit = true := decide_eq_true (lt_of_lt_of_le below ordered)
      rw [takeWhile_cons_of_pos belowLimit, takeWhile_cons_of_pos belowStart,
        dropWhile_cons_of_pos belowStart, ih, cons_append]
    have notBelow : ¬ node.isBelow start = true := by simpa [SkipNode.isBelow] using below
    rw [takeWhile_cons_of_neg notBelow, dropWhile_cons_of_neg notBelow, nil_append]

theorem estimate_monotone_iff (list : SkipList K) (start limit : K) (ordered : start ≤ limit) :
    estimateCount list start ≤ estimateCount list limit ↔
      weightDropped list.branching (tablesBelow list start) (tablesWithin list start limit) ≤
        weightAdded list.branching (tablesWithin list start limit) := by
  have heights : ∀ node ∈ tablesWithin list start limit,
      0 < node.height ∧ node.height ≤ list.maxHeight := by
    intro _ member
    apply list.heights
    exact (dropWhile_suffix _).subset ((takeWhile_sublist _).subset member)
  have balance := weightBelow_append list.branching list.maxHeight (tablesBelow list start)
    (tablesWithin list start limit) heights
  rw [estimateCount_eq, estimateCount_eq, tablesBelow_append list ordered]
  omega

/-- Ten tables of height 1 and one of height 2. -/
def tallLastList : SkipList Nat where
  branching := 4
  maxHeight := 12
  nodes := (List.range 10).map (⟨·, 1⟩) ++ [⟨10, 2⟩]
  ascending := by decide
  heights := by decide

theorem estimate_monotone_iff_tallLast :
    (3 : Nat) ≤ 5 ∧ estimateCount tallLastList 3 ≤ estimateCount tallLastList 5 :=
  ⟨by decide, (estimate_monotone_iff tallLastList 3 5 (by decide)).mpr (by decide)⟩

theorem estimate_falls :
    (10 : Nat) ≤ 11 ∧ estimateCount tallLastList 10 = 10 ∧ estimateCount tallLastList 11 = 4 ∧
      ¬ estimateCount tallLastList 10 ≤ estimateCount tallLastList 11 ∧
      getApproximateSize ⟨4096, 16, 1024⟩ tallLastList 10 11 = 2 ^ 64 - 5 * 256 * 1040 := by
  decide

end InsDb
