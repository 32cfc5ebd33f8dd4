import Mathlib.Data.List.Induction
import InsDb.Submission

/-!
# The nodes of a request

The nodes that a request submits are a run of the column list: the node it designates and
the mergeable nodes below it. `Thread` says that these are the updates whose transactions
wait in the request, newest first, and that no other request designates one of them.
-/

namespace InsDb

open InsDb.Library List ColumnNode

variable {K V : Type}

/-- What has become of an update that was given to `Store`. -/
inductive EntryFate where
  | applied
  | cancelled
  | merged
  | submitted
deriving DecidableEq, Repr

structure Entry where
  trxnId : Nat := 0
  fate : EntryFate := .cancelled
deriving DecidableEq, Repr

/-- The entry is an update of a transaction of the group that is neither submitted, merged
nor cancelled. -/
def Entry.openIn (tgid : Nat) (entry : Entry) : Bool :=
  decide (entry.trxnId ≠ 0 ∧ entry.trxnId >>> tgidShift = tgid ∧ entry.fate = .applied)

structure Owned (entries : Nat → Entry) (heads : List Nat) (trxnDeque : List Transaction)
    (head : ColumnNode V) (run : List (ColumnNode V)) : Prop where
  ids : ((head :: run).filter ColumnNode.transaction).map
    (fun node => (entries node.beginSeq).trxnId) = (trxnDeque.map Transaction.id).reverse
  applied : ∀ node ∈ head :: run, (entries node.beginSeq).fate = .applied ∧
    (node.transaction = true ↔ (entries node.beginSeq).trxnId ≠ 0)
  skips : ∀ node ∈ run, node.beginSeq ∉ heads

/-- The nodes of a column that belong to a request which designates `colNode`. -/
def Thread (entries : Nat → Entry) (heads : List Nat) (nodes : List (ColumnNode V))
    (colNode : Nat) (trxnDeque : List Transaction) : Prop :=
  ∃ newer head older, nodes = newer ++ head :: older ∧ head.beginSeq = colNode ∧
    Owned entries heads trxnDeque head (older.takeWhile mergeable)

def Marked (nodes : List (ColumnNode V)) (colNode : Nat) : Prop :=
  ∃ node ∈ nodes, node.beginSeq = colNode ∧ node.ikeySeq ≠ 0

theorem mergeable_iff {node : ColumnNode V} :
    mergeable node = true ↔ node.ikeySeq = 0 ∧ node.tgidSplit = false := by
  simp [mergeable]

section Owned

variable {entries : Nat → Entry} {heads : List Nat} {trxnDeque : List Transaction}
  {head : ColumnNode V} {run : List (ColumnNode V)}

theorem Owned.congr (owned : Owned entries heads trxnDeque head run) {entries' : Nat → Entry}
    {heads' : List Nat} {head' : ColumnNode V} (sameSeq : head'.beginSeq = head.beginSeq)
    (sameFlag : head'.transaction = head.transaction)
    (sameEntries : ∀ node ∈ head :: run, entries' node.beginSeq = entries node.beginSeq)
    (fewer : ∀ node ∈ run, node.beginSeq ∈ heads' → node.beginSeq ∈ heads) :
    Owned entries' heads' trxnDeque head' run := by
  have atHead := sameEntries head mem_cons_self
  have atRun : ∀ node ∈ run, entries' node.beginSeq = entries node.beginSeq :=
    fun node mem => sameEntries node (mem_cons_of_mem _ mem)
  have runIds : (run.filter transaction).map (fun node => (entries' node.beginSeq).trxnId) =
      (run.filter transaction).map (fun node => (entries node.beginSeq).trxnId) := by
    apply map_congr_left
    intro node mem
    rw [atRun node (mem_filter.mp mem).1]
  refine ⟨?_, ?_, ?_⟩
  · rw [← owned.ids]
    cases flag : head.transaction with
    | true =>
      rw [filter_cons_of_pos (sameFlag.trans flag), filter_cons_of_pos flag,
        map_cons, map_cons, runIds, sameSeq, atHead]
    | false =>
      rw [filter_cons_of_neg (by simp [sameFlag, flag]),
        filter_cons_of_neg (by simp [flag]), runIds]
  · intro node mem
    rcases mem_cons.mp mem with rfl | inRun
    · rw [sameSeq, sameFlag, atHead]
      exact owned.applied head mem_cons_self
    rw [atRun node inRun]
    exact owned.applied node (mem_cons_of_mem _ inRun)
  · intro node mem isHead
    exact owned.skips node mem (fewer node mem isHead)

end Owned

theorem takeWhile_map_of_kept {Item : Type} {test : Item → Bool} {change : Item → Item}
    {items : List Item} (same : ∀ item ∈ items.takeWhile test, change item = item)
    (stays : ∀ item, test (change item) = true → test item = true) :
    (items.map change).takeWhile test = items.takeWhile test := by
  induction items with
  | nil => rfl
  | cons item rest ih =>
    rw [map_cons]
    by_cases passes : test item = true
    · rw [takeWhile_cons_of_pos passes] at same ⊢
      have unchanged := same item mem_cons_self
      rw [unchanged, takeWhile_cons_of_pos passes,
        ih fun other mem => same other (mem_cons_of_mem _ mem)]
    rw [takeWhile_cons_of_neg passes,
      takeWhile_cons_of_neg fun changed => passes (stays item changed)]

section Threads

variable {entries : Nat → Entry} {heads : List Nat} {nodes : List (ColumnNode V)}
  {colNode : Nat} {trxnDeque : List Transaction}

theorem Thread.mem (thread : Thread entries heads nodes colNode trxnDeque) :
    ∃ node ∈ nodes, node.beginSeq = colNode := by
  obtain ⟨_, head, _, rfl, isHead, -⟩ := thread
  exact ⟨head, by simp, isHead⟩

theorem Thread.congr (thread : Thread entries heads nodes colNode trxnDeque)
    {entries' : Nat → Entry} {heads' : List Nat}
    (sameEntries : ∀ node ∈ nodes, entries' node.beginSeq = entries node.beginSeq)
    (fewer : ∀ node ∈ nodes, node.beginSeq ∈ heads' → node.beginSeq ∈ heads) :
    Thread entries' heads' nodes colNode trxnDeque := by
  obtain ⟨newer, head, older, rfl, isHead, owned⟩ := thread
  have inRun : ∀ node ∈ older.takeWhile mergeable, node ∈ newer ++ head :: older := by
    intro node mem
    have := (takeWhile_sublist mergeable).subset mem
    simp [this]
  refine ⟨newer, head, older, rfl, isHead, owned.congr rfl rfl ?_ ?_⟩
  · intro node mem
    rcases mem_cons.mp mem with rfl | later
    · exact sameEntries node (by simp)
    · exact sameEntries node (inRun node later)
  intro node mem
  exact fewer node (inRun node mem)

variable {change : ColumnNode V → ColumnNode V}

theorem Thread.push (thread : Thread entries heads nodes colNode trxnDeque)
    (node : ColumnNode V) (sameSeq : ∀ old, (change old).beginSeq = old.beginSeq)
    (sameFlag : ∀ old, (change old).transaction = old.transaction) :
    Thread entries heads (node :: nodes.modifyHead change) colNode trxnDeque := by
  obtain ⟨newer, head, older, rfl, isHead, owned⟩ := thread
  cases newer with
  | nil =>
    refine ⟨[node], change head, older, rfl, (sameSeq head).trans isHead, ?_⟩
    exact owned.congr (sameSeq head) (sameFlag head) (fun _ _ => rfl) (fun _ _ isHead => isHead)
  | cons first rest => exact ⟨node :: change first :: rest, head, older, rfl, isHead, owned⟩

theorem Thread.modify (thread : Thread entries heads nodes colNode trxnDeque) {designated : Nat}
    (sameSeq : ∀ old, (change old).beginSeq = old.beginSeq)
    (sameFlag : ∀ old, (change old).transaction = old.transaction)
    (marks : ∀ old, (change old).ikeySeq ≠ 0)
    (outside : designated ∈ heads ∨ ∀ node ∈ nodes, node.beginSeq = designated → node.ikeySeq ≠ 0) :
    Thread entries heads
      (nodes.map fun node => if node.beginSeq = designated then change node else node)
      colNode trxnDeque := by
  obtain ⟨_, head, older, rfl, isHead, owned⟩ := thread
  have kept : (older.map fun node =>
      if node.beginSeq = designated then change node else node).takeWhile mergeable =
        older.takeWhile mergeable := by
    apply takeWhile_map_of_kept
    · intro node mem
      rw [if_neg]
      intro isDesignated
      rcases outside with isOther | marked
      · exact owned.skips node mem (isDesignated ▸ isOther)
      have inOlder := (takeWhile_sublist mergeable).subset mem
      have pending := (mergeable_iff.mp (mem_takeWhile_imp mem)).1
      exact marked node (by simp [inOlder]) isDesignated pending
    · intro node passes
      split_ifs at passes with isDesignated
      · exact absurd (mergeable_iff.mp passes).1 (marks node)
      · exact passes
  refine ⟨_, _, _, by rw [map_append, map_cons], ?_, ?_⟩
  · split_ifs
    · exact (sameSeq head).trans isHead
    · exact isHead
  rw [kept]
  refine owned.congr ?_ ?_ (fun _ _ => rfl) (fun _ _ isHead => isHead)
  · split_ifs
    · exact sameSeq head
    · rfl
  split_ifs
  · exact sameFlag head
  · rfl

variable {node : ColumnNode V}

theorem Thread.ofNew (isApplied : (entries node.beginSeq).fate = .applied)
    (flag : node.transaction = true ↔ (entries node.beginSeq).trxnId ≠ 0)
    (ids : (if node.transaction then [(entries node.beginSeq).trxnId] else []) =
      (trxnDeque.map Transaction.id).reverse)
    (stops : ∀ below, nodes.head? = some below → mergeable below = false) :
    Thread entries heads (node :: nodes) node.beginSeq trxnDeque := by
  have noRun : nodes.takeWhile mergeable = [] := by
    cases nodes with
    | nil => rfl
    | cons below => exact takeWhile_cons_of_neg (Bool.eq_false_iff.mp (stops below rfl))
  refine ⟨[], node, nodes, rfl, rfl, ?_, ?_, ?_⟩
  · rw [noRun, ← ids]
    cases flagged : node.transaction <;> simp [flagged]
  · rw [noRun]
    intro _ mem
    obtain rfl := mem_singleton.mp mem
    exact ⟨isApplied, flag⟩
  rw [noRun]
  intro _ mem
  exact absurd mem not_mem_nil

theorem Thread.join {old below : ColumnNode V} {older : List (ColumnNode V)}
    {heads' : List Nat} {joined : List Transaction}
    (thread : Thread entries heads (old :: older) old.beginSeq trxnDeque)
    (nodup : ((old :: older).map ColumnNode.beginSeq).Nodup)
    (sameSeq : below.beginSeq = old.beginSeq) (sameFlag : below.transaction = old.transaction)
    (waits : mergeable below = true) (isApplied : (entries node.beginSeq).fate = .applied)
    (flag : node.transaction = true ↔ (entries node.beginSeq).trxnId ≠ 0)
    (ids : (joined.map Transaction.id).reverse =
      (if node.transaction then [(entries node.beginSeq).trxnId] else []) ++ (trxnDeque.map
      Transaction.id).reverse)
    (freed : old.beginSeq ∉ heads')
    (fewer : ∀ other ∈ older, other.beginSeq ∈ heads' → other.beginSeq ∈ heads) :
    Thread entries heads' (node :: below :: older) node.beginSeq joined := by
  obtain ⟨newer, head, rest, whole, isHead, owned⟩ := thread
  -- The thread begins at the first node, since no other has its number.
  have first : head = old ∧ rest = older := by
    cases newer with
    | nil => exact ⟨(cons.inj whole).1.symm, (cons.inj whole).2.symm⟩
    | cons =>
      have inOlder : head ∈ older := by
        rw [(cons.inj whole).2]
        simp
      have notIn := (nodup_cons.mp nodup).1
      exact absurd (mem_map.mpr ⟨head, inOlder, isHead⟩) notIn
  obtain ⟨rfl, rfl⟩ := first
  have changed := owned.congr sameSeq sameFlag (fun _ _ => rfl) (fun _ _ isOther => isOther)
  refine ⟨[], node, below :: rest, rfl, rfl, ?_, ?_, ?_⟩
  · rw [takeWhile_cons_of_pos waits, ids, ← changed.ids]
    cases flagged : node.transaction <;> simp [flagged]
  · rw [takeWhile_cons_of_pos waits]
    intro other mem
    rcases mem_cons.mp mem with rfl | lower
    · exact ⟨isApplied, flag⟩
    · exact changed.applied other lower
  rw [takeWhile_cons_of_pos waits]
  intro other mem
  rcases mem_cons.mp mem with rfl | lower
  · rw [sameSeq]
    exact freed
  intro isOther
  have inRest := (takeWhile_sublist mergeable).subset lower
  exact owned.skips other lower (fewer other inRest isOther)

theorem Thread.congr_of_marked (thread : Thread entries heads nodes colNode trxnDeque)
    {entries' : Nat → Entry} {designated : Nat}
    (sameEntries : ∀ seq, seq ≠ designated → entries' seq = entries seq)
    (isOther : colNode ≠ designated)
    (marked : ∀ node ∈ nodes, node.beginSeq = designated → node.ikeySeq ≠ 0) :
    Thread entries' heads nodes colNode trxnDeque := by
  obtain ⟨newer, head, older, rfl, isHead, owned⟩ := thread
  refine ⟨newer, head, older, rfl, isHead, owned.congr rfl rfl ?_ (fun _ _ isOther => isOther)⟩
  intro node mem
  apply sameEntries
  rcases mem_cons.mp mem with rfl | inRun
  · rw [isHead]
    exact isOther
  intro isDesignated
  have inOlder := (takeWhile_sublist mergeable).subset inRun
  exact marked node (by simp [inOlder]) isDesignated
    (mergeable_iff.mp (mem_takeWhile_imp inRun)).1

theorem Marked.push (isMarked : Marked nodes colNode) (node : ColumnNode V)
    (sameSeq : ∀ old, (change old).beginSeq = old.beginSeq)
    (sameKey : ∀ old, (change old).ikeySeq = old.ikeySeq) :
    Marked (node :: nodes.modifyHead change) colNode := by
  obtain ⟨listed, mem, isListed, marked⟩ := isMarked
  cases nodes with
  | nil => exact absurd mem not_mem_nil
  | cons =>
    rcases mem_cons.mp mem with rfl | inRest
    · exact ⟨change listed, by simp, (sameSeq listed).trans isListed,
        (sameKey listed).symm ▸ marked⟩
    · exact ⟨listed, by simp [inRest], isListed, marked⟩

theorem Marked.modify (isMarked : Marked nodes colNode) (designated : Nat)
    (sameSeq : ∀ old, (change old).beginSeq = old.beginSeq)
    (marks : ∀ old, (change old).ikeySeq ≠ 0) :
    Marked (nodes.map fun node => if node.beginSeq = designated then change node else node)
      colNode := by
  obtain ⟨listed, mem, isListed, marked⟩ := isMarked
  refine ⟨_, mem_map.mpr ⟨listed, mem, rfl⟩, ?_⟩
  split_ifs
  · exact ⟨(sameSeq listed).trans isListed, marks listed⟩
  · exact ⟨isListed, marked⟩

theorem Marked.of_mem (isMarked : Marked nodes colNode)
    (nodup : (nodes.map ColumnNode.beginSeq).Nodup) (mem : node ∈ nodes)
    (isNode : node.beginSeq = colNode) : node.ikeySeq ≠ 0 := by
  obtain ⟨_, isMember, isListed, marked⟩ := isMarked
  obtain rfl := inj_on_of_nodup_map nodup mem isMember (isNode.trans isListed.symm)
  exact marked

end Threads

section Merge

variable {snaps : List Nat} {newer older : List (ColumnNode V)} {head : ColumnNode V}

theorem splitAtNode_of_append
    (nodup : ((newer ++ head :: older).map ColumnNode.beginSeq).Nodup) :
    splitAtNode head.beginSeq (newer ++ head :: older) = (newer, head :: older) := by
  have above : ∀ node ∈ newer, decide (node.beginSeq ≠ head.beginSeq) = true := by
    intro _ mem
    rw [map_append, map_cons] at nodup
    have apart := (nodup_append.mp nodup).2.2 _ (mem_map_of_mem mem) _ mem_cons_self
    simpa using apart
  unfold splitAtNode
  rw [takeWhile_append_of_pos above, dropWhile_append_of_pos above,
    takeWhile_cons_of_neg (by simp), dropWhile_cons_of_neg (by simp), append_nil]

theorem mergeList_of_append (nodup : ((newer ++ head :: older).map ColumnNode.beginSeq).Nodup) :
    mergeList snaps head.beginSeq (newer ++ head :: older) = newer ++ head.clearTransaction ::
        (mergeVisited (Sweep.stab head.beginSeq head.endSeq snaps).2
            (older.takeWhile mergeable) ++
          stopAt (older.dropWhile mergeable)) := by
  unfold mergeList
  rw [splitAtNode_of_append nodup]

theorem takeWhile_append_of_stop {Item : Type} {test : Item → Bool} (front : List Item)
    {item : Item} {back : List Item} (stops : item ∉ (front ++ item :: back).takeWhile test) :
    (front ++ item :: back).takeWhile test = front.takeWhile test ∧
      (front ++ item :: back).dropWhile test = front.dropWhile test ++ item :: back := by
  induction front with
  | nil =>
    have fails : ¬ test item = true := by
      intro passes
      rw [nil_append, takeWhile_cons_of_pos passes] at stops
      exact stops mem_cons_self
    simp [fails]
  | cons first rest ih =>
    rw [cons_append] at stops ⊢
    by_cases passes : test first = true
    · rw [takeWhile_cons_of_pos passes] at stops
      obtain ⟨taken, dropped⟩ := ih fun later => stops (mem_cons_of_mem _ later)
      rw [takeWhile_cons_of_pos passes, dropWhile_cons_of_pos passes,
        takeWhile_cons_of_pos passes, dropWhile_cons_of_pos passes, taken, dropped]
      exact ⟨rfl, rfl⟩
    rw [takeWhile_cons_of_neg passes, dropWhile_cons_of_neg passes,
      takeWhile_cons_of_neg passes, dropWhile_cons_of_neg passes]
    exact ⟨rfl, rfl⟩

theorem Thread.merge {entries entries' : Nat → Entry} {heads heads' : List Nat} {colNode : Nat}
    {trxnDeque : List Transaction}
    (thread : Thread entries heads (newer ++ head :: older) colNode trxnDeque)
    (nodup : ((newer ++ head :: older).map ColumnNode.beginSeq).Nodup)
    (marked : head.ikeySeq ≠ 0) (isOther : colNode ≠ head.beginSeq)
    (notVisited : ∀ node ∈ older.takeWhile mergeable, node.beginSeq ≠ colNode)
    (sameEntries : ∀ seq, seq ∉ (older.takeWhile mergeable).map ColumnNode.beginSeq →
      entries' seq = entries seq)
    (fewer : ∀ seq ∈ heads', seq ∈ heads) (kept : List (ColumnNode V)) :
    Thread entries' heads'
      (newer ++ head.clearTransaction :: (kept ++ stopAt (older.dropWhile mergeable)))
      colNode trxnDeque := by
  obtain ⟨above, own, below, whole, isOwn, owned⟩ := thread
  have fewerHeads : ∀ node ∈ below.takeWhile mergeable, node.beginSeq ∈ heads' →
      node.beginSeq ∈ heads := fun node _ isHead => fewer _ isHead
  have own_ne_head : own ≠ head := by
    rintro rfl
    exact isOther isOwn.symm
  rcases append_eq_append_iff.mp whole with ⟨mid, rfl, lower⟩ | ⟨mid, rfl, lower⟩
  · -- The submitted node is the upper one.
    cases mid with
    | nil => exact absurd (cons.inj lower).1.symm own_ne_head
    | cons first mid =>
      have isFirst : first = head := (cons.inj lower).1.symm
      have isOlder : older = mid ++ own :: below := (cons.inj lower).2
      subst isFirst isOlder
      have ownStops : own ∉ (mid ++ own :: below).takeWhile mergeable :=
        fun passed => notVisited own passed isOwn
      obtain ⟨taken, dropped⟩ := takeWhile_append_of_stop mid ownStops
      have lowerDistinct := nodup.sublist (((sublist_cons_self first _).trans
        (sublist_append_right newer _)).map _)
      rw [map_append] at lowerDistinct
      have apart := (nodup_append.mp lowerDistinct).2.2
      have unchanged : ∀ node ∈ own :: below.takeWhile mergeable,
          entries' node.beginSeq = entries node.beginSeq := by
        intro node mem
        apply sameEntries
        rw [taken]
        intro inMid
        have inBelow : node ∈ own :: below :=
          ((takeWhile_sublist mergeable).cons_cons own).subset mem
        exact apart _ ((takeWhile_sublist mergeable).map _ |>.subset inMid) _
          (mem_map_of_mem inBelow) rfl
      rw [dropped]
      cases mid.dropWhile mergeable with
      | nil =>
        refine ⟨newer ++ first.clearTransaction :: kept, own.clearTGIDSplit, below, ?_, isOwn,
          owned.congr rfl rfl unchanged fewerHeads⟩
        simp [stopAt]
      | cons stop rest =>
        refine ⟨newer ++ first.clearTransaction :: (kept ++ stop.clearTGIDSplit :: rest), own,
          below, ?_, isOwn, owned.congr rfl rfl unchanged fewerHeads⟩
        simp [stopAt]
  · -- The other request is the upper one.
    cases mid with
    | nil => exact absurd (cons.inj lower).1 own_ne_head
    | cons first mid =>
      have isFirst : first = own := (cons.inj lower).1.symm
      have isBelow : below = mid ++ head :: older := (cons.inj lower).2
      subst isFirst isBelow
      have stopsAt : ∀ stop : ColumnNode V, stop.ikeySeq ≠ 0 → ∀ back,
          (mid ++ stop :: back).takeWhile mergeable = mid.takeWhile mergeable := by
        intro _ isMarked _
        refine (takeWhile_append_of_stop mid ?_).1
        intro passed
        exact isMarked (mergeable_iff.mp (mem_takeWhile_imp passed)).1
      rw [stopsAt head marked] at owned fewerHeads
      rw [map_append] at nodup
      have apart := (nodup_append.mp nodup).2.2
      have unchanged : ∀ node ∈ first :: mid.takeWhile mergeable,
          entries' node.beginSeq = entries node.beginSeq := by
        intro node mem
        apply sameEntries
        intro inOlder
        have inNewer : node ∈ above ++ first :: mid :=
          mem_append_right _ (((takeWhile_sublist mergeable).cons_cons first).subset mem)
        exact apart _ (mem_map_of_mem inNewer) _ (mem_cons_of_mem _
          ((takeWhile_sublist mergeable).map _ |>.subset inOlder)) rfl
      refine ⟨above, first, mid ++ head.clearTransaction ::
        (kept ++ stopAt (older.dropWhile mergeable)), by simp, isOwn, ?_⟩
      rw [stopsAt head.clearTransaction marked]
      exact owned.congr rfl rfl unchanged fewerHeads

theorem Marked.merge {colNode : Nat} (kept : List (ColumnNode V))
    (isMarked : Marked (newer ++ head :: older) colNode) :
    Marked (newer ++ head.clearTransaction :: (kept ++ stopAt (older.dropWhile mergeable)))
      colNode := by
  obtain ⟨node, mem, isNode, marked⟩ := isMarked
  rcases mem_append.mp mem with inNewer | inLower
  · exact ⟨node, mem_append_left _ inNewer, isNode, marked⟩
  rcases mem_cons.mp inLower with rfl | inOlder
  · exact ⟨node.clearTransaction, by simp, isNode, marked⟩
  rw [← @List.takeWhile_append_dropWhile _ mergeable older] at inOlder
  rcases mem_append.mp inOlder with visited | left
  · exact absurd (mergeable_iff.mp (mem_takeWhile_imp visited)).1 marked
  revert left
  cases older.dropWhile mergeable with
  | nil =>
    intro left
    exact absurd left not_mem_nil
  | cons =>
    intro left
    rcases mem_cons.mp left with rfl | inRest
    · exact ⟨node.clearTGIDSplit, by simp [stopAt], isNode, marked⟩
    · exact ⟨node, by simp [stopAt, inRest], isNode, marked⟩

end Merge

theorem getTrxn_of_reverse {trxnDeque : List Transaction} {id : Nat} {ids : List Nat}
    (isDeque : id :: ids = (trxnDeque.map Transaction.id).reverse) :
    (getTrxn trxnDeque).1.id = id ∧ ids = ((getTrxn trxnDeque).2.map Transaction.id).reverse := by
  induction trxnDeque using reverseRecOn with
  | nil => simp at isDeque
  | append_singleton =>
    rw [map_append, reverse_append] at isDeque
    obtain ⟨isLast, rest⟩ := cons.inj isDeque
    simp only [getTrxn, getLast?_concat, dropLast_concat]
    exact ⟨isLast.symm, rest⟩

theorem mergedTrxns_ids {trxnOf : ColumnNode V → Nat} {run : List (ColumnNode V)}
    {trxnDeque : List Transaction} (ids : (run.filter ColumnNode.transaction).map trxnOf =
      (trxnDeque.map Transaction.id).reverse) :
    (mergedTrxns run trxnDeque).map Transaction.id =
      (run.filter ColumnNode.transaction).map trxnOf := by
  induction run generalizing trxnDeque with
  | nil => rfl
  | cons node older ih =>
    rw [mergedTrxns]
    cases flag : node.transaction with
    | true =>
      rw [filter_cons_of_pos flag, map_cons] at ids ⊢
      obtain ⟨isNewest, rest⟩ := getTrxn_of_reverse ids
      rw [if_pos rfl, map_cons, isNewest, ih rest]
    | false =>
      rw [filter_cons_of_neg (by simp [flag])] at ids ⊢
      exact ih ids

theorem Owned.trxnInfo {entries : Nat → Entry} {heads : List Nat} {trxnDeque : List Transaction}
    {head : ColumnNode V} {run : List (ColumnNode V)}
    (owned : Owned entries heads trxnDeque head run) :
    (head.transaction = true →
      (InsDb.trxnInfo head run trxnDeque).head.id = (entries head.beginSeq).trxnId) ∧
      (InsDb.trxnInfo head run trxnDeque).merged.map Transaction.id =
        (run.filter ColumnNode.transaction).map fun node => (entries node.beginSeq).trxnId := by
  have ids := owned.ids
  unfold InsDb.trxnInfo
  cases flag : head.transaction with
  | true =>
    rw [filter_cons_of_pos flag, map_cons] at ids
    obtain ⟨isHead, rest⟩ := getTrxn_of_reverse ids
    exact ⟨fun _ => isHead, mergedTrxns_ids rest⟩
  | false =>
    rw [filter_cons_of_neg (by simp [flag])] at ids
    exact ⟨fun isSet => absurd isSet (by simp), mergedTrxns_ids ids⟩

end InsDb
