import InsDb.TableFormat

/-!
# Reading the rows of a table

A row holds the distance to the row before it, its own size and its key against the base key,
all counted in 16 bits.  A table that is loaded gives back its rows, along the offsets and along
the distances, exactly if nothing is truncated.
-/

namespace InsDb

open InsDb.Library List Option
open Varint (Bytes)

theorem getVarint16_append {input rest : Bytes} {v : Nat}
    (read : getVarint16 input = some (v, rest)) (more : Bytes) :
    getVarint16 (input ++ more) = some (v, rest ++ more) := by
  obtain ⟨⟨_, _⟩, decoded, same⟩ := map_eq_some_iff.mp read
  cases same
  rw [getVarint16, Varint.decode_append decoded, map_some]

theorem getKeyWithOffset_some {data : Bytes} {offset next : Nat} {row : TableRow}
    (read : getKeyWithOffset data offset = some (row, next)) :
    ∃ prev afterPrev size afterSize keyInfo behind shared afterShared sharedPart nonShared
      nonSharedPart,
      takeFixed 2 (data.drop offset) = some (prev, afterPrev) ∧
      takeFixed 2 afterPrev = some (size, afterSize) ∧ 4 ≤ size ∧
      takeBytes (size - 4) afterSize = some (keyInfo, behind) ∧
      getVarint16 keyInfo = some (shared, afterShared) ∧
      (takeBytes shared (data.drop ((SKTableHeader.decode data).info2 + 2))).map Prod.fst =
        some sharedPart ∧
      getVarint16 afterShared = some (nonShared, nonSharedPart ++ row.colInfo) ∧
      nonSharedPart.length = nonShared ∧
      row.key = sharedPart ++ nonSharedPart ∧
      next = if size + offset = (SKTableHeader.decode data).info2 then 0 else size + offset := by
  obtain ⟨⟨prev, afterPrev⟩, first, read⟩ := bind_eq_some_iff.mp read
  obtain ⟨⟨size, afterSize⟩, second, read⟩ := bind_eq_some_iff.mp read
  by_cases short : size < 4
  · simp only [if_pos short, bind_eq_bind, bind_none, reduceCtorEq] at read
  simp only [if_neg short, pure, bind_eq_bind] at read
  obtain ⟨⟨keyInfo, behind⟩, slice, read⟩ := bind_eq_some_iff.mp read
  obtain ⟨⟨shared, afterShared⟩, firstLength, read⟩ := bind_eq_some_iff.mp read
  obtain ⟨⟨sharedPart, _⟩, common, read⟩ := bind_eq_some_iff.mp read
  obtain ⟨⟨nonShared, _⟩, secondLength, read⟩ := bind_eq_some_iff.mp read
  obtain ⟨⟨nonSharedPart, _⟩, own, read⟩ := bind_eq_some_iff.mp read
  cases read
  obtain ⟨rfl, ownLength⟩ := takeBytes_some own
  exact ⟨prev, afterPrev, size, afterSize, keyInfo, behind, shared, afterShared, sharedPart,
    nonShared, nonSharedPart, first, second, Nat.not_lt.mp short, slice, firstLength,
    by rw [common, map_some], secondLength, ownLength, rfl, rfl⟩

theorem getVarint16_encode {v : Nat} (fits : v < 2 ^ 16) (tail : Bytes) :
    getVarint16 (encodeVarint16 v ++ tail) = some (v, tail) := by
  have decoded := Varint.decode_encode 2 v tail (by omega)
  rw [getVarint16, encodeVarint16, decoded, map_some]
  change some (v % 2 ^ 16, tail) = some (v, tail)
  rw [Nat.mod_eq_of_lt fits]

theorem sharedLength_le (base key : Bytes) :
    sharedLength base key ≤ base.length ∧ sharedLength base key ≤ key.length := by
  induction base generalizing key with
  | nil => exact ⟨Nat.le_refl 0, Nat.zero_le _⟩
  | cons first base ih =>
    cases key with
    | nil => exact ⟨Nat.zero_le _, Nat.le_refl 0⟩
    | cons byte key =>
      have later := ih key
      rw [sharedLength, length_cons, length_cons]
      split_ifs <;> omega

theorem take_sharedLength (base key : Bytes) :
    base.take (sharedLength base key) = key.take (sharedLength base key) := by
  induction base generalizing key with
  | nil => rfl
  | cons first base ih =>
    cases key with
    | nil => rfl
    | cons byte =>
      rw [sharedLength]
      by_cases same : first = byte
      · rw [if_pos same, take_succ_cons, take_succ_cons, ih, same]
      · rw [if_neg same, take_zero, take_zero]

@[simp] theorem sharedLength_nil (key : Bytes) : sharedLength [] key = 0 := rfl

def rowSize (base : Bytes) (row : TableRow) : Nat :=
  let shared := sharedLength base row.key
  4 + (encodeVarint16 shared).length + (encodeVarint16 (row.key.length - shared)).length +
    (row.key.length - shared) + row.colInfo.length

theorem encodeKey_eq {base key : Bytes} (baseSmall : base.length < 2 ^ 16)
    (keySmall : key.length - sharedLength base key < 2 ^ 16) :
    encodeKey base key = encodeVarint16 (sharedLength base key) ++
      (encodeVarint16 (key.length - sharedLength base key) ++
        key.drop (sharedLength base key)) := by
  have shared := (sharedLength_le base key).1.trans_lt baseSmall
  have all : (key.drop (sharedLength base key)).take (key.length - sharedLength base key) =
      key.drop (sharedLength base key) := by
    rw [← length_drop, take_length]
  simp only [encodeKey, Nat.mod_eq_of_lt shared, Nat.mod_eq_of_lt keySmall, all]
  by_cases noBase : base = []
  · subst noBase
    rw [if_pos rfl, sharedLength_nil, drop_zero]
  · rw [if_neg noBase]

theorem length_encodeKeyRow (base : Bytes) (prevDiff : Nat) (row : TableRow) :
    (encodeKeyRow base prevDiff row).length =
      4 + (encodeKey base row.key ++ row.colInfo).length := by
  simp only [encodeKeyRow, encodeFixed16, length_append, length_cons, length_nil]
  omega

theorem rowSize_eq {base : Bytes} {row : TableRow} (baseSmall : base.length < 2 ^ 16)
    (keySmall : row.key.length - sharedLength base row.key < 2 ^ 16) (prevDiff : Nat) :
    (encodeKeyRow base prevDiff row).length = rowSize base row := by
  rw [length_encodeKeyRow, encodeKey_eq baseSmall keySmall, rowSize]
  simp only [length_append, length_drop]
  omega

theorem keySmall_of_rowSize {base : Bytes} {row : TableRow} (small : rowSize base row < 2 ^ 16) :
    row.key.length - sharedLength base row.key < 2 ^ 16 := by
  simp only [rowSize] at small
  omega

theorem nextBase_small {base : Bytes} {row : TableRow} (baseSmall : base.length < 2 ^ 16)
    (small : rowSize base row < 2 ^ 16) : (nextBase base row).length < 2 ^ 16 := by
  unfold nextBase
  by_cases noBase : base = []
  · have keySmall := keySmall_of_rowSize small
    rw [noBase, sharedLength_nil] at keySmall
    rw [if_pos noBase]
    exact keySmall
  rw [if_neg noBase]
  exact baseSmall

theorem foldl_nextBase {base : Bytes} (found : base ≠ []) (rows : List TableRow) :
    rows.foldl nextBase base = base := by
  induction rows with
  | nil => rfl
  | cons row rest ih =>
    rw [foldl_cons, nextBase, if_neg found]
    exact ih

/-- The rows of `rows` lie at `offset` and end where the second block begins. -/
structure RowsAt (data base : Bytes) (offset prevDiff : Nat) (rows : List TableRow) : Prop where
  place : ∃ tail, data.drop offset = (encodeKeyRows base prevDiff rows).flatten ++ tail
  ends : offset + (encodeKeyRows base prevDiff rows).flatten.length =
    (SKTableHeader.decode data).info2
  base_place : ∃ tail, data.drop ((SKTableHeader.decode data).info2 + 2) =
    rows.foldl nextBase base ++ tail

theorem encodeKeyRows_eq_nil {base : Bytes} {prevDiff : Nat} {rows : List TableRow}
    (empty : (encodeKeyRows base prevDiff rows).flatten.length = 0) : rows = [] := by
  cases rows with
  | nil => rfl
  | cons =>
    rw [encodeKeyRows, flatten_cons, length_append, length_encodeKeyRow] at empty
    omega

namespace RowsAt

variable {data base : Bytes} {offset prevDiff : Nat} {row : TableRow} {rest : List TableRow}

section

variable (rows : RowsAt data base offset prevDiff (row :: rest))

include rows

theorem step : RowsAt data (nextBase base row) (offset + (encodeKeyRow base prevDiff row).length)
      (encodeKeyRow base prevDiff row).length rest := by
  obtain ⟨tail, place⟩ := rows.place
  rw [encodeKeyRows, flatten_cons, append_assoc] at place
  refine ⟨⟨tail, ?_⟩, ?_, rows.base_place⟩
  · rw [← drop_drop, place, drop_left]
  have ends := rows.ends
  rw [encodeKeyRows, flatten_cons, length_append] at ends
  omega

theorem takeBytes_shared {shared : Nat} (inBase : shared ≤ base.length) : ∃ post,
      takeBytes shared (data.drop ((SKTableHeader.decode data).info2 + 2)) =
        some (base.take shared, post) := by
  by_cases noBase : base = []
  · subst noBase
    obtain rfl : shared = 0 := Nat.le_zero.mp inBase
    exact ⟨_, rfl⟩
  obtain ⟨_, base_place⟩ := rows.base_place
  rw [foldl_nextBase noBase] at base_place
  rw [base_place, takeBytes, length_append, if_pos (Nat.le_add_right_of_le inBase),
    take_append_of_le_length inBase]
  exact ⟨_, rfl⟩

theorem next_eq_zero :
    (encodeKeyRow base prevDiff row).length + offset = (SKTableHeader.decode data).info2 ↔
      rest = [] := by
  have ends := rows.step.ends
  constructor
  · intro _
    have nothing : (encodeKeyRows (nextBase base row) (encodeKeyRow base prevDiff row).length
        rest).flatten.length = 0 := by
      omega
    exact encodeKeyRows_eq_nil nothing
  rintro rfl
  rw [encodeKeyRows, flatten_nil, length_nil] at ends
  omega

theorem place_cons : ∃ tail, data.drop offset = encodeFixed16 prevDiff ++
      (encodeFixed16 (4 + (encodeKey base row.key ++ row.colInfo).length) ++
        ((encodeKey base row.key ++ row.colInfo) ++ tail)) := by
  obtain ⟨tail, place⟩ := rows.place
  rw [encodeKeyRows, flatten_cons, append_assoc] at place
  generalize (encodeKeyRows _ _ rest).flatten ++ tail = later at place
  refine ⟨later, ?_⟩
  rw [place]
  simp [encodeKeyRow]

theorem getKeyWithOffset_eq (baseSmall : base.length < 2 ^ 16) (small : rowSize base row < 2 ^ 16) :
    getKeyWithOffset data offset =
      some (row, if rest = [] then 0 else offset + rowSize base row) := by
  have keySmall := keySmall_of_rowSize small
  have inBase := (sharedLength_le base row.key).1
  have size := rowSize_eq baseSmall keySmall prevDiff
  have last := rows.next_eq_zero
  rw [size] at last
  rw [length_encodeKeyRow] at size
  obtain ⟨_, place⟩ := rows.place_cons
  obtain ⟨_, common⟩ := rows.takeBytes_shared inBase
  have key := takeBytes_append (row.key.drop (sharedLength base row.key)) row.colInfo
  rw [length_drop] at key
  have joined : base.take (sharedLength base row.key) ++
      row.key.drop (sharedLength base row.key) = row.key := by
    rw [take_sharedLength, take_append_drop]
  have slice : rowSize base row - 4 = (encodeKey base row.key ++ row.colInfo).length := by omega
  have fields : encodeKey base row.key ++ row.colInfo =
      encodeVarint16 (sharedLength base row.key) ++
        (encodeVarint16 (row.key.length - sharedLength base row.key) ++
          (row.key.drop (sharedLength base row.key) ++ row.colInfo)) := by
    rw [encodeKey_eq baseSmall keySmall]
    simp
  have notShort : ¬ rowSize base row < 4 := by omega
  simp only [getKeyWithOffset, place, size, takeFixed_encodeFixed16_mod,
    takeFixed_encodeFixed16 small, bind_eq_bind, bind_some, if_neg notShort, slice,
    takeBytes_append, pure]
  simp [fields,getVarint16_encode (inBase.trans_lt baseSmall),common,getVarint16_encode
    keySmall,key,joined,last,Nat.add_comm offset]

theorem rowSize_lt_of_read (baseSmall : base.length < 2 ^ 16) {next : Nat}
    (read : getKeyWithOffset data offset = some (row, next)) : rowSize base row < 2 ^ 16 := by
  obtain ⟨_, place⟩ := rows.place_cons
  obtain ⟨_, _, size, _, _, behind, _, _, _,
    _, _, first, second, _, slice, firstLength, common, secondLength,
    ownLength, key, -⟩ := getKeyWithOffset_some read
  have inBase := sharedLength_le base row.key
  have sharedSmall := inBase.1.trans_lt baseSmall
  rw [place, takeFixed_encodeFixed16_mod] at first
  cases first
  rw [takeFixed_encodeFixed16_mod] at second
  cases second
  obtain ⟨bytes, _⟩ := takeBytes_some slice
  -- both lengths lie within the slice, so they are the written ones
  simp only [encodeKey, append_assoc, Nat.mod_eq_of_lt sharedSmall] at bytes
  have sharedRead := getVarint16_append firstLength behind
  rw [← bytes, getVarint16_encode sharedSmall] at sharedRead
  obtain ⟨rfl, afterFirst⟩ := Prod.mk.inj (some.inj sharedRead)
  have nonSharedRead := getVarint16_append secondLength behind
  rw [← afterFirst, getVarint16_encode (Nat.mod_lt _ (by decide))] at nonSharedRead
  obtain ⟨nonSharedEq, afterSecond⟩ := Prod.mk.inj (some.inj nonSharedRead)
  obtain ⟨_, sharedBytes⟩ := rows.takeBytes_shared inBase.1
  rw [sharedBytes, map_some] at common
  have keyLength := congrArg length key
  rw [← some.inj common, length_append, length_take_of_le inBase.1, ownLength,
    ← nonSharedEq] at keyLength
  have keySmall : row.key.length - sharedLength base row.key < 2 ^ 16 := by omega
  -- so the slice is as long as the row, and the size was not truncated either
  have sliceSize := congrArg length bytes
  have afterFirstSize := congrArg length afterFirst
  have afterSecondSize := congrArg length afterSecond
  rw [Nat.mod_eq_of_lt keySmall] at sliceSize afterFirstSize afterSecondSize nonSharedEq
  simp only [length_append] at sliceSize afterFirstSize afterSecondSize
  simp only [rowSize]
  omega

end

end RowsAt

def SmallRows : Bytes → List TableRow → Prop
  | _, [] => True
  | base, row :: rest => rowSize base row < 2 ^ 16 ∧ SmallRows (nextBase base row) rest

section

variable {data base : Bytes} {offset prevDiff fuel : Nat} {rows : List TableRow}
  (place : RowsAt data base offset prevDiff rows) (baseSmall : base.length < 2 ^ 16)

include place baseSmall

theorem followRows_eq (small : SmallRows base rows) (enough : rows.length ≤ fuel)
    (nonempty : rows ≠ []) : followRows data fuel offset = some rows := by
  induction rows generalizing base offset prevDiff fuel with
  | nil => exact absurd rfl nonempty
  | cons row rest ih =>
    obtain ⟨rowSmall, restSmall⟩ := small
    obtain ⟨_, rfl⟩ := Nat.exists_eq_add_of_le' (Nat.le_trans (Nat.le_add_left 1 _) enough)
    have read := place.getKeyWithOffset_eq baseSmall rowSmall
    have later := place.step
    rw [rowSize_eq baseSmall (keySmall_of_rowSize rowSmall)] at later
    simp only [followRows, read, bind_eq_bind, bind_some]
    by_cases last : rest = []
    · rw [if_pos (if_pos last), last]
      rfl
    have goesOn : offset + rowSize base row ≠ 0 := by
      simp only [rowSize]
      omega
    have followed := ih later (nextBase_small baseSmall rowSmall) restSmall
      (Nat.le_of_succ_le_succ enough) last
    rw [if_neg last, if_neg goesOn, followed]
    rfl

theorem smallRows_of_followRows (followed : followRows data fuel offset = some rows) :
    SmallRows base rows := by
  induction rows generalizing base offset prevDiff fuel with
  | nil => trivial
  | cons row rest ih =>
    cases fuel with
    | zero => cases followed
    | succ fuel =>
      obtain ⟨⟨first, next⟩, read, followed⟩ := bind_eq_some_iff.mp followed
      have same : first = row ∧ (rest ≠ [] → followRows data fuel next = some rest) := by
        dsimp only at followed
        by_cases last : next = 0
        · rw [if_pos last] at followed
          cases followed
          exact ⟨rfl, fun more => absurd rfl more⟩
        rw [if_neg last] at followed
        obtain ⟨_, later, joined⟩ := bind_eq_some_iff.mp followed
        cases joined
        exact ⟨rfl, fun _ => later⟩
      rw [same.1] at read
      have rowSmall := place.rowSize_lt_of_read baseSmall read
      refine ⟨rowSmall, ?_⟩
      by_cases last : rest = []
      · rw [last]
        trivial
      have expected := place.getKeyWithOffset_eq baseSmall rowSmall
      rw [read, if_neg last] at expected
      cases expected
      have later := place.step
      rw [rowSize_eq baseSmall (keySmall_of_rowSize rowSmall)] at later
      exact ih later (nextBase_small baseSmall rowSmall) (same.2 last)

end

theorem walkOffsets_eq {data base : Bytes} {offset prevDiff : Nat} {rows : List TableRow}
    (place : RowsAt data base offset prevDiff rows) (baseSmall : base.length < 2 ^ 16)
    (small : SmallRows base rows) (fits : (SKTableHeader.decode data).info2 < 2 ^ 32)
    (tail : Bytes) :
    walkOffsets data rows.length ((rowOffsets offset (encodeKeyRows base prevDiff rows)).flatMap
      encodeFixed32 ++ tail) = some rows := by
  induction rows generalizing base offset prevDiff with
  | nil => rfl
  | cons row rest ih =>
    obtain ⟨rowSmall, restSmall⟩ := small
    have read := place.getKeyWithOffset_eq baseSmall rowSmall
    have offsetFits : offset < 2 ^ 32 := by
      have ends := place.ends
      omega
    have later := ih place.step (nextBase_small baseSmall rowSmall) restSmall
    simp [encodeKeyRows, rowOffsets, walkOffsets, takeFixed_encodeFixed32 offsetFits, read, later]

theorem length_of_walkOffsets {data keyOffset : Bytes} {count : Nat} {rows : List TableRow}
    (walked : walkOffsets data count keyOffset = some rows) : rows.length = count := by
  induction count generalizing keyOffset rows with
  | zero =>
    cases walked
    rfl
  | succ count ih =>
    obtain ⟨⟨_, _⟩, -, walked⟩ := bind_eq_some_iff.mp walked
    obtain ⟨⟨_, _⟩, -, walked⟩ := bind_eq_some_iff.mp walked
    obtain ⟨_, rest, joined⟩ := bind_eq_some_iff.mp walked
    cases joined
    rw [length_cons, ih rest]

theorem baseKey_small {base : Bytes} {rows : List TableRow} (baseSmall : base.length < 2 ^ 16)
    (small : SmallRows base rows) : (rows.foldl nextBase base).length < 2 ^ 16 := by
  induction rows generalizing base with
  | nil => exact baseSmall
  | cons row rest ih => exact ih (nextBase_small baseSmall small.1) small.2

theorem length_le_encodeKeyRows (base : Bytes) (prevDiff : Nat) (rows : List TableRow) :
    rows.length ≤ (encodeKeyRows base prevDiff rows).flatten.length := by
  induction rows generalizing base prevDiff with
  | nil => exact Nat.zero_le _
  | cons row rest ih =>
    have later := ih (nextBase base row) (encodeKeyRow base prevDiff row).length
    have own := length_encodeKeyRow base prevDiff row
    rw [encodeKeyRows, length_cons, flatten_cons, length_append]
    omega

structure Loaded (data : Bytes) (rows : List TableRow) : Prop where
  nrKey : (SKTableHeader.decode data).nrKey = rows.length % 2 ^ 16
  info2 : (SKTableHeader.decode data).info2 = infoTwoOffset rows
  stored : ∃ tail, data.drop sktdfBeginKeyOffset = storedRows rows ++ tail

namespace Loaded

variable {data : Bytes} {rows : List TableRow}

section

variable (loaded : Loaded data rows)

include loaded

theorem drop_info2 : ∃ tail, data.drop (SKTableHeader.decode data).info2 =
      encodeFixed16 (baseKey rows).length ++ (baseKey rows ++
        ((rowOffsets sktdfBeginKeyOffset (tableRows rows)).flatMap encodeFixed32 ++ tail)) := by
  obtain ⟨tail, stored⟩ := loaded.stored
  refine ⟨tail, ?_⟩
  rw [loaded.info2, infoTwoOffset, ← drop_drop, stored, storedRows, append_assoc,
    drop_left, infoTwo]
  simp

theorem rowsAt : RowsAt data [] sktdfBeginKeyOffset 0 rows where
  place := by
    obtain ⟨_, stored⟩ := loaded.stored
    rw [storedRows, append_assoc] at stored
    exact ⟨_, stored⟩
  ends := loaded.info2.symm
  base_place := by
    obtain ⟨_, infoTwo⟩ := loaded.drop_info2
    rw [← drop_drop, infoTwo]
    exact ⟨_, rfl⟩

theorem rowsByOffset_eq (small : SmallRows [] rows) (few : rows.length < 2 ^ 16)
    (fits : infoTwoOffset rows < 2 ^ 32) : rowsByOffset data = some rows := by
  obtain ⟨tail, infoTwo⟩ := loaded.drop_info2
  have baseSmall : (baseKey rows).length < 2 ^ 16 := baseKey_small (by decide) small
  have walked := walkOffsets_eq loaded.rowsAt (by decide) small (loaded.info2 ▸ fits) tail
  simp only [rowsByOffset, infoTwo, takeFixed_encodeFixed16 baseSmall, bind_eq_bind,
    bind_some, drop_left, loaded.nrKey, Nat.mod_eq_of_lt few]
  exact walked

theorem few_of_rowsByOffset (walked : rowsByOffset data = some rows) : rows.length < 2 ^ 16 := by
  obtain ⟨⟨_, _⟩, -, walked⟩ := bind_eq_some_iff.mp walked
  have count := length_of_walkOffsets walked
  rw [loaded.nrKey] at count
  omega

theorem rowsByDistance_eq (small : SmallRows [] rows) (few : rows.length < 2 ^ 16) :
    rowsByDistance data = some rows := by
  rw [rowsByDistance, loaded.nrKey, Nat.mod_eq_of_lt few]
  by_cases empty : rows = []
  · rw [empty]
    rfl
  have counted : rows.length ≠ 0 := fun zero => empty (eq_nil_of_length_eq_zero zero)
  have enough : rows.length ≤ data.length := by
    obtain ⟨_, stored⟩ := loaded.stored
    have atMost := length_le_encodeKeyRows [] 0 rows
    have length := congrArg length stored
    rw [storedRows, tableRows] at length
    simp only [length_drop, length_append] at length
    omega
  rw [if_neg counted]
  exact followRows_eq loaded.rowsAt (by decide) small enough empty

theorem small_of_rowsByDistance (few : rows.length < 2 ^ 16)
    (walked : rowsByDistance data = some rows) : SmallRows [] rows := by
  rw [rowsByDistance, loaded.nrKey, Nat.mod_eq_of_lt few] at walked
  by_cases empty : rows.length = 0
  · rw [eq_nil_of_length_eq_zero empty]
    trivial
  rw [if_neg empty] at walked
  exact smallRows_of_followRows loaded.rowsAt (by decide) walked

theorem reads_iff (fits : infoTwoOffset rows < 2 ^ 32) :
    (rowsByOffset data = some rows ∧ rowsByDistance data = some rows) ↔
      SmallRows [] rows ∧ rows.length < 2 ^ 16 := by
  constructor
  · intro walked
    have few := loaded.few_of_rowsByOffset walked.1
    exact ⟨loaded.small_of_rowsByDistance few walked.2, few⟩
  intro fine
  exact ⟨loaded.rowsByOffset_eq fine.1 fine.2 fits, loaded.rowsByDistance_eq fine.1 fine.2⟩

end

end Loaded

end InsDb
