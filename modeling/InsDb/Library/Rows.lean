import Mathlib.Order.Basic
import Mathlib.Data.List.Sort

/-!
# Rows in ascending key order

A table is a list of rows with strictly ascending keys.  Rows are looked up by key;
`set` replaces the row of a key or inserts it where it belongs.
-/

namespace InsDb.Library.Rows

variable {K Row Entry : Type} [LinearOrder K]

def get (rows : List (K × Row)) (key : K) : Option Row :=
  (rows.find? fun row => row.1 = key).map Prod.snd

def Ascending (rows : List (K × Row)) : Prop :=
  rows.Pairwise fun earlier later => earlier.1 < later.1

def set (key : K) (row : Row) : List (K × Row) → List (K × Row)
  | [] => [(key, row)]
  | first :: rest =>
    if key < first.1 then
      (key, row) :: first :: rest
    else if key = first.1 then
      (key, row) :: rest
    else
      first :: set key row rest

@[simp] theorem get_nil (key : K) : get ([] : List (K × Row)) key = none := rfl

theorem get_cons (first : K × Row) (rest : List (K × Row)) (key : K) :
    get (first :: rest) key = if first.1 = key then some first.2 else get rest key := by
  by_cases same : first.1 = key <;> simp [get, same]

variable {rows : List (K × Row)} {key : K}

theorem get_eq_none_of_forall_ne (differs : ∀ row ∈ rows, row.1 ≠ key) : get rows key = none := by
  simp only [get, Option.map_eq_none_iff, List.find?_eq_none, decide_eq_true_eq]
  exact differs

theorem get_append (front back : List (K × Row)) (key : K) :
    get (front ++ back) key = (get front key).or (get back key) := by
  simp [get, Option.map_or]

variable {row : Row}

theorem mem_of_get (found : get rows key = some row) : (key, row) ∈ rows := by
  obtain ⟨⟨storedKey, _⟩, first, rfl⟩ := Option.map_eq_some_iff.mp found
  have same : storedKey = key := by simpa using List.find?_some first
  subst same
  exact List.mem_of_find?_eq_some first

theorem get_of_mem (sorted : Ascending rows) (mem : (key, row) ∈ rows) :
    get rows key = some row := by
  induction rows with
  | nil => simp at mem
  | cons first rest ih =>
    rw [get_cons]
    rcases List.mem_cons.mp mem with rfl | later
    · simp
    have above := (List.pairwise_cons.mp sorted).1 (key, row) later
    rw [if_neg (ne_of_lt above)]
    exact ih (List.pairwise_cons.mp sorted).2 later

theorem get_eq_some_iff (sorted : Ascending rows) :
    get rows key = some row ↔ (key, row) ∈ rows :=
  ⟨mem_of_get, get_of_mem sorted⟩

theorem Ascending.ext {left right : List (K × Row)} (leftAscending : Ascending left)
    (rightAscending : Ascending right) (same : ∀ key, get left key = get right key) :
    left = right := by
  apply List.Pairwise.eq_of_mem_iff leftAscending rightAscending
  rintro ⟨_, _⟩
  rw [← get_eq_some_iff leftAscending, ← get_eq_some_iff rightAscending, same]

theorem get_map_snd (rows : List (K × Row)) (change : Row → Entry) (key : K) :
    get (rows.map fun row => (row.1, change row.2)) key = (get rows key).map change := by
  induction rows with
  | nil => rfl
  | cons first rest ih =>
    rw [List.map_cons, get_cons, get_cons, ih]
    split_ifs <;> rfl

theorem get_filter (rows : List (K × Row)) (keep : K → Bool) (key : K) :
    get (rows.filter fun row => keep row.1) key = if keep key then get rows key else none := by
  induction rows with
  | nil => simp
  | cons first rest ih =>
    by_cases kept : keep first.1 = true
    · rw [List.filter_cons_of_pos (by exact kept), get_cons, get_cons, ih]
      by_cases same : first.1 = key
      · subst same
        simp [kept]
      · simp [same]
    rw [List.filter_cons_of_neg (by exact kept), get_cons, ih]
    by_cases same : first.1 = key
    · subst same
      simp [kept]
    · simp [same]

def filterMap (change : Row → Option Entry) (rows : List (K × Row)) : List (K × Entry) :=
  rows.filterMap fun row => (change row.2).map (Prod.mk row.1)

theorem Ascending.filter (sorted : Ascending rows) (keep : K × Row → Bool) :
    Ascending (rows.filter keep) :=
  List.Pairwise.filter keep sorted

theorem get_set (rows : List (K × Row)) (key : K) (row : Row) (other : K) :
    get (set key row rows) other = if key = other then some row else get rows other := by
  induction rows with
  | nil => simp [set, get_cons]
  | cons first rest ih =>
    rcases lt_trichotomy key first.1 with below | same | above
    · rw [set, if_pos below, get_cons]
    · rw [set, if_neg (by simp [same]), if_pos same, get_cons, get_cons, same]
      split_ifs <;> rfl
    rw [set, if_neg (not_lt_of_gt above), if_neg (ne_of_gt above), get_cons, get_cons, ih]
    by_cases isFirst : first.1 = other
    · rw [if_pos isFirst, if_pos isFirst, if_neg (isFirst ▸ ne_of_gt above)]
    · rw [if_neg isFirst, if_neg isFirst]

theorem mem_set {mem : K × Row} (inSet : mem ∈ set key row rows) :
    mem = (key, row) ∨ mem ∈ rows := by
  induction rows with
  | nil => simpa [set] using inSet
  | cons =>
    rw [set] at inSet
    split_ifs at inSet <;> grind

theorem Ascending.set (sorted : Ascending rows) (key : K) (row : Row) :
    Ascending (set key row rows) := by
  induction rows with
  | nil => simp [Rows.set, Ascending]
  | cons first rest ih =>
    obtain ⟨above, restAscending⟩ := List.pairwise_cons.mp sorted
    rw [Rows.set]
    split_ifs with below same
    · refine List.pairwise_cons.mpr ⟨?_, sorted⟩
      intro later mem
      rcases List.mem_cons.mp mem with rfl | inRest
      · exact below
      · exact lt_trans below (above later inRest)
    · subst same
      exact List.pairwise_cons.mpr ⟨above, restAscending⟩
    refine List.pairwise_cons.mpr ⟨?_, ih restAscending⟩
    intro later mem
    rcases mem_set mem with rfl | inRest
    · exact lt_of_le_of_ne (not_lt.mp below) (Ne.symm same)
    · exact above later inRest

def replace (key : K) (row : Row) (rows : List (K × Row)) : List (K × Row) :=
  rows.map fun stored => if stored.1 = key then (key, row) else stored

theorem get_replace (rows : List (K × Row)) (key : K) (row : Row) (other : K)
    (present : (get rows key).isSome = true) :
    get (replace key row rows) other = if key = other then some row else get rows other := by
  induction rows with
  | nil => simp at present
  | cons first rest ih =>
    rw [replace, List.map_cons, ← replace, get_cons, get_cons]
    by_cases same : first.1 = key
    · subst same
      simp only [if_true]
      split_ifs with isOther
      · rfl
      -- Rows further down may be replaced as well; they are hidden for this key.
      clear ih present
      induction rest with
      | nil => rfl
      | cons second rest ih =>
        rw [replace, List.map_cons, ← replace, get_cons, get_cons, ih]
        split_ifs <;> simp_all
    rw [get_cons, if_neg same] at present
    rw [if_neg same, ih present]
    by_cases isOther : first.1 = other
    · simp [isOther, isOther ▸ Ne.symm same]
    · simp [isOther]

theorem replace_keys (rows : List (K × Row)) (key : K) (row : Row) :
    (replace key row rows).map Prod.fst = rows.map Prod.fst := by
  rw [replace, List.map_map]
  apply List.map_congr_left
  intro stored _
  by_cases same : stored.1 = key <;> simp [same]

theorem isSome_get_iff : (get rows key).isSome = true ↔ key ∈ rows.map Prod.fst := by
  induction rows with
  | nil => simp
  | cons first rest ih =>
    rw [get_cons, List.map_cons, List.mem_cons, ← ih]
    by_cases same : first.1 = key
    · simp [same]
    · simp [same, Ne.symm same]

def setAll (changes : List (K × Row)) (rows : List (K × Row)) : List (K × Row) :=
  changes.foldl (fun rows change => set change.1 change.2 rows) rows

theorem Ascending.setAll (sorted : Ascending rows) (changes : List (K × Row)) :
    Ascending (setAll changes rows) := by
  induction changes generalizing rows with
  | nil => exact sorted
  | cons change changes ih => exact ih (sorted.set change.1 change.2)

theorem get_setAll_of_distinct (changes : List (K × Row)) (rows : List (K × Row))
    (nodup : (changes.map Prod.fst).Nodup) (key : K) :
    get (setAll changes rows) key = (get changes key).or (get rows key) := by
  induction changes generalizing rows with
  | nil => simp [setAll]
  | cons change changes ih =>
    obtain ⟨fresh, restDistinct⟩ := List.nodup_cons.mp nodup
    have rest := ih (set change.1 change.2 rows) restDistinct
    rw [setAll, List.foldl_cons, ← setAll, rest, get_set, get_cons]
    by_cases same : change.1 = key
    · subst same
      have missing : get changes change.1 = none := by
        apply get_eq_none_of_forall_ne
        intro row mem sameKey
        exact fresh (List.mem_map.mpr ⟨row, mem, sameKey⟩)
      simp [missing]
    · simp [same]

end InsDb.Library.Rows
