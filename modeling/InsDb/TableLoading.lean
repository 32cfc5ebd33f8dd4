import InsDb.TableRows

/-!
# Loading a flushed table

Whatever the compression does, loading the image of a table that was not deleted gives the
uncompressed table, so that the table is read back if its rows are.
-/

namespace InsDb

open InsDb.Library List
open Varint (Bytes)
open SKTableHeader (flagCompression)

theorem compressionStart_bounds (rows : List TableRow) :
    sktdfBeginKeyOffset ≤ compressionStart rows ∧ compressionStart rows ≤ infoTwoOffset rows := by
  unfold compressionStart infoTwoOffset
  cases tableRows rows with
  | nil => exact ⟨Nat.le_refl _, Nat.le_refl _⟩
  | cons =>
    simp only [head?_cons, Option.map_some, Option.getD_some, flatten_cons, length_append]
    omega

theorem infoTwoOffset_le (rows : List TableRow) :
    infoTwoOffset rows ≤ sktdfBeginKeyOffset + (storedRows rows).length := by
  rw [infoTwoOffset, storedRows, length_append]
  omega

namespace FlushTable

variable (t : FlushTable) (context : FlushContext)

theorem front_append_rest : t.front ++ t.rest = storedRows t.rows :=
  take_append_drop _ _

theorem length_front : t.front.length = compressionStart t.rows - sktdfBeginKeyOffset := by
  have start := compressionStart_bounds t.rows
  have inside := infoTwoOffset_le t.rows
  apply length_take_of_le
  omega

theorem length_rest : compressionStart t.rows + t.rest.length =
    sktdfBeginKeyOffset + (storedRows t.rows).length := by
  have start := compressionStart_bounds t.rows
  have front := t.length_front
  have whole := congrArg length t.front_append_rest
  rw [length_append] at whole
  omega

theorem header_fits {flag : Nat} {rest : Bytes} (flagFits : flag ≤ flagCompression)
    (restFits : rest.length ≤ t.rest.length) :
    (t.imageWith context flag rest).header.Fits := by
  have inside := infoTwoOffset_le t.rows
  have whole := t.length_rest
  have fits := t.fits
  have positive : 0 < 2 ^ 32 := by decide
  unfold flagCompression at flagFits
  exact
    { crc1_lt := Nat.mod_lt _ positive
      crc2_lt := Nat.mod_lt _ positive
      nrKey_lt := (Nat.mod_lt _ (by decide)).trans (show 2 ^ 16 < 2 ^ 32 by decide)
      info2_lt := show infoTwoOffset t.rows + flag < 2 ^ 32 by omega
      compStart_lt := show compressionStart t.rows < 2 ^ 32 by omega
      sktSize_lt := show rest.length < 2 ^ 32 by omega
      largestSeqNum_lt := t.largestSeqNum_lt
      nextID_lt := t.nextID_lt
      preallocID_lt := t.preallocID_lt }

theorem started (flag : Nat) (rest : Bytes) :
    (t.imageWith context flag rest).header.compStart ≠ 0 := by
  have start := (compressionStart_bounds t.rows).1
  change compressionStart t.rows ≠ 0
  unfold sktdfBeginKeyOffset at start
  omega

theorem loaded_plain (snappy : Option Snappy) : ∃ data, loadTable context.crc32c snappy
        ((t.imageWith context 0 t.rest).withChecksums context.crc32c).bytes = some data ∧
      Loaded data t.rows := by
  have fits := t.header_fits context (Nat.zero_le flagCompression) (Nat.le_refl _)
  obtain ⟨_, _, sealed, accepted, -⟩ := DeviceTable.withChecksums_eq context.crc32c_lt fits
    (t.started context 0 t.rest)
  have plain : infoTwoOffset t.rows + 0 < flagCompression := by
    have inside := infoTwoOffset_le t.rows
    have limit := t.fits
    unfold flagCompression
    omega
  rw [sealed] at accepted ⊢
  refine ⟨_, DeviceTable.loadTable_plain accepted plain snappy, ?_⟩
  have header := DeviceTable.decode_bytes accepted.fits
  constructor
  · rw [header]
    rfl
  · rw [header]
    rfl
  rw [DeviceTable.drop_bytes]
  refine ⟨alignment context (compressionStart t.rows + t.rest.length), ?_⟩
  rw [← t.front_append_rest, append_assoc]
  rfl

theorem loaded_compressed (snappy : Snappy)
    (saves : (snappy.compress t.rest).length ≤ t.rest.length) : ∃ data,
    loadTable context.crc32c (some snappy)
        ((t.imageWith context flagCompression (snappy.compress t.rest)).withChecksums
          context.crc32c).bytes = some data ∧
      Loaded data t.rows := by
  have fits := t.header_fits context (Nat.le_refl flagCompression) saves
  obtain ⟨_, _, sealed, accepted, -⟩ := DeviceTable.withChecksums_eq context.crc32c_lt fits
    (t.started context flagCompression (snappy.compress t.rest))
  rw [sealed] at accepted ⊢
  have compStart : compressionStart t.rows = sktdfBeginKeyOffset + t.front.length := by
    have start := compressionStart_bounds t.rows
    rw [t.length_front]
    omega
  have restFits : t.rest.length < 2 ^ 32 := by
    have whole := t.length_rest
    have limit := t.fits
    omega
  have header := accepted.fits.uncompressed restFits
  refine ⟨_, DeviceTable.loadTable_compressed accepted (Nat.le_add_left _ _) snappy rfl compStart
    rfl, ?_⟩
  constructor
  · rw [SKTableHeader.decode_encode header]
    rfl
  · rw [SKTableHeader.decode_encode header]
    exact Nat.add_sub_cancel _ _
  rw [t.front_append_rest]
  refine ⟨[], ?_⟩
  rw [append_nil, SKTableHeader.drop_encode]

theorem exists_loaded (kept : t.rows.length % 2 ^ 16 ≠ 0 ∨ t.sktid = 1) : ∃ data,
    loadTable context.crc32c context.snappy (t.image context) = some data ∧
      Loaded data t.rows := by
  rw [image, deviceFormatBuilder, if_pos kept]
  cases context.snappy with
  | none => exact t.loaded_plain context none
  | some snappy =>
    dsimp only
    by_cases saves : (snappy.compress t.rest).length < t.rest.length - t.rest.length / 8
    · rw [if_pos saves]
      exact t.loaded_compressed context snappy (saves.le.trans (Nat.sub_le _ _))
    rw [if_neg saves]
    exact t.loaded_plain context (some snappy)

theorem emptied_fits : (t.emptiedImage context).header.Fits := by
  have positive : 0 < 2 ^ 32 := by decide
  exact
    { crc1_lt := Nat.mod_lt _ positive
      crc2_lt := Nat.mod_lt _ positive
      nrKey_lt := positive
      info2_lt := positive
      compStart_lt := positive
      sktSize_lt := positive
      largestSeqNum_lt := show 0 < 2 ^ 64 by decide
      nextID_lt := t.nextID_lt
      preallocID_lt := t.preallocID_lt }

theorem emptiedImage_withChecksums (crc32c : Bytes → Nat) :
    (t.emptiedImage context).withChecksums crc32c = t.emptiedImage context := by
  have notStarted : (t.emptiedImage context).header.compStart = 0 := rfl
  rw [DeviceTable.withChecksums, if_pos notStarted]

theorem emptied_not_loaded (emptied : ¬(t.rows.length % 2 ^ 16 ≠ 0 ∨ t.sktid = 1)) :
    loadTable context.crc32c context.snappy (t.image context) = none := by
  have header : SKTableHeader.decode (t.image context) =
      (t.emptiedImage context).header := by
    rw [image, deviceFormatBuilder, if_neg emptied, t.emptiedImage_withChecksums]
    exact DeviceTable.decode_bytes (t.emptied_fits context)
  unfold loadTable
  rw [header]
  exact if_pos rfl

def ReadsBack : Prop :=
  ∃ data, loadTable context.crc32c context.snappy (t.image context) = some data ∧
    rowsByOffset data = some t.rows ∧ rowsByDistance data = some t.rows

theorem readsBack_of_kept (kept : t.rows.length % 2 ^ 16 ≠ 0 ∨ t.sktid = 1) :
    t.ReadsBack context ↔ SmallRows [] t.rows ∧ t.rows.length < 2 ^ 16 := by
  obtain ⟨data, image, loaded⟩ := t.exists_loaded context kept
  have fits : infoTwoOffset t.rows < 2 ^ 32 := by
    have inside := infoTwoOffset_le t.rows
    have limit := t.fits
    omega
  rw [← loaded.reads_iff fits]
  constructor
  · rintro ⟨_, sameImage, walked⟩
    rw [image] at sameImage
    cases sameImage
    exact walked
  intro walked
  exact ⟨data, image, walked⟩

/-- A flushed table gives back its rows exactly if no row reaches 2^16 bytes, there are fewer
than 2^16 rows, and the table was not deleted. -/
theorem table_readsBack_iff : t.ReadsBack context ↔
      SmallRows [] t.rows ∧ t.rows.length < 2 ^ 16 ∧
        (t.rows ≠ [] ∨ t.sktid = 1) := by
  by_cases kept : t.rows.length % 2 ^ 16 ≠ 0 ∨ t.sktid = 1
  · rw [t.readsBack_of_kept context kept]
    have notDeleted : t.rows ≠ [] ∨ t.sktid = 1 := by
      apply kept.imp_left
      intro some empty
      rw [empty] at some
      exact some rfl
    tauto
  constructor
  · rintro ⟨_, loaded, -⟩
    rw [t.emptied_not_loaded context kept] at loaded
    cases loaded
  rintro ⟨-, few, notDeleted⟩
  exfalso
  apply kept
  apply notDeleted.imp_left
  intro some
  rw [Nat.mod_eq_of_lt few]
  exact fun zero => some (eq_nil_of_length_eq_zero zero)

end FlushTable

theorem length_encodeKeyRow_le (base : Bytes) (prevDiff : Nat) (row : TableRow) :
    (encodeKeyRow base prevDiff row).length ≤ 10 + (row.key.length + row.colInfo.length) := by
  have first := Varint.length_encode_le 3 (sharedLength base row.key % 2 ^ 16)
  have second := Varint.length_encode_le 3
    ((row.key.length - sharedLength base row.key % 2 ^ 16) % 2 ^ 16)
  have copied : (if base = [] then row.key else
      (row.key.drop (sharedLength base row.key % 2 ^ 16)).take
        ((row.key.length - sharedLength base row.key % 2 ^ 16) % 2 ^ 16)).length ≤
      row.key.length := by
    by_cases noBase : base = []
    · rw [if_pos noBase]
    rw [if_neg noBase, length_take, length_drop]
    omega
  rw [length_encodeKeyRow]
  simp only [encodeKey, encodeVarint16, length_append]
  omega

theorem length_encodeKeyRows_le {rows : List TableRow} {limit : Nat} (base : Bytes)
    (prevDiff : Nat) (short : ∀ row ∈ rows, row.key.length + row.colInfo.length ≤ limit) :
    (encodeKeyRows base prevDiff rows).flatten.length ≤ rows.length * (10 + limit) := by
  induction rows generalizing base prevDiff with
  | nil => exact Nat.zero_le _
  | cons row rest ih =>
    have own := length_encodeKeyRow_le base prevDiff row
    have ownShort := short row mem_cons_self
    have later := ih (nextBase base row) (encodeKeyRow base prevDiff row).length
      fun other inRest => short other (mem_cons_of_mem _ inRest)
    rw [encodeKeyRows, flatten_cons, length_append, length_cons, Nat.succ_mul]
    omega

theorem length_foldl_nextBase_le {rows : List TableRow} {limit : Nat} {base : Bytes}
    (baseShort : base.length ≤ limit) (short : ∀ row ∈ rows, row.key.length ≤ limit) :
    (rows.foldl nextBase base).length ≤ limit := by
  induction rows generalizing base with
  | nil => exact baseShort
  | cons row rest ih =>
    apply ih _ fun other inRest => short other (mem_cons_of_mem _ inRest)
    unfold nextBase
    split_ifs
    · exact short row mem_cons_self
    · exact baseShort

theorem length_rowOffsets (offset : Nat) (rows : List Bytes) :
    (rowOffsets offset rows).length = rows.length := by
  induction rows generalizing offset with
  | nil => rfl
  | cons row rest ih => rw [rowOffsets, length_cons, ih, length_cons]

theorem length_encodeKeyRows (base : Bytes) (prevDiff : Nat) (rows : List TableRow) :
    (encodeKeyRows base prevDiff rows).length = rows.length := by
  induction rows generalizing base prevDiff with
  | nil => rfl
  | cons row rest ih => rw [encodeKeyRows, length_cons, ih, length_cons]

theorem length_storedRows_le {rows : List TableRow} {limit : Nat}
    (short : ∀ row ∈ rows, row.key.length + row.colInfo.length ≤ limit) :
    (storedRows rows).length ≤ 2 + limit + rows.length * (14 + limit) := by
  have encoded := length_encodeKeyRows_le [] 0 short
  have base : (baseKey rows).length ≤ limit := length_foldl_nextBase_le (Nat.zero_le limit)
    fun row inRows => (Nat.le_add_right _ _).trans (short row inRows)
  have offsets : ((rowOffsets sktdfBeginKeyOffset (tableRows rows)).flatMap encodeFixed32).length =
      4 * rows.length := by
    simp [length_rowOffsets, tableRows, length_encodeKeyRows, Nat.mul_comm]
  have split : rows.length * (14 + limit) = rows.length * (10 + limit) + 4 * rows.length := by
    ring
  rw [storedRows, infoTwo, tableRows]
  rw [tableRows] at offsets
  simp only [length_append, offsets, encodeFixed16, length_cons, length_nil]
  omega

def shortKeyRow (number : Nat) : TableRow where
  key := [UInt8.ofNat (number / 256), UInt8.ofNat number]
  colInfo := [1, 0, 128, 1, 1, 1]

theorem shortKeyRow_lt {number later : Nat} (pre : number < later) (inRange : later < 2 ^ 16) :
    (shortKeyRow number).key < (shortKeyRow later).key := by
  simp only [shortKeyRow, cons_lt_cons_iff, UInt8.lt_iff_toNat_lt, UInt8.toNat_ofNat',
    ← UInt8.toNat_inj]
  omega

def shortKeyRows (count : Nat) : List TableRow := (List.range count).map shortKeyRow

theorem length_shortKeyRows (count : Nat) : (shortKeyRows count).length = count := by
  rw [shortKeyRows, length_map, length_range]

theorem shortKeyRows_ascending {count : Nat} (inRange : count ≤ 2 ^ 16) :
    (shortKeyRows count).Pairwise fun row later => row.key < later.key := by
  rw [shortKeyRows, pairwise_map]
  apply pairwise_lt_range.imp_of_mem
  intro _ _ _ inList pre
  exact shortKeyRow_lt pre ((mem_range.mp inList).trans_le inRange)

theorem shortKeyRows_fit {count : Nat} (inRange : count ≤ 2 ^ 16) :
    sktdfBeginKeyOffset + (storedRows (shortKeyRows count)).length ≤ 2 * 1024 * 1024 := by
  have short : ∀ row ∈ shortKeyRows count, row.key.length + row.colInfo.length ≤ 8 := by
    intro _ inRows
    obtain ⟨_, -, rfl⟩ := mem_map.mp inRows
    exact Nat.le_refl 8
  have length := length_storedRows_le short
  rw [length_shortKeyRows] at length
  unfold sktdfBeginKeyOffset
  omega

def shortKeyTable (count : Nat) (inRange : count ≤ 2 ^ 16) : FlushTable where
  sktid := 2
  rows := shortKeyRows count
  largestSeqNum := 1
  nextID := 0
  preallocID := 3
  fits := shortKeyRows_fit inRange
  largestSeqNum_lt := by decide
  nextID_lt := by decide
  preallocID_lt := by decide

theorem shortKeyTable_not_readBack {count : Nat} (inRange : count ≤ 2 ^ 16)
    (wraps : count % 2 ^ 16 = 0) :
    ((shortKeyTable count inRange).rows.Pairwise fun row later => row.key < later.key) ∧
      ∀ context, ¬ (shortKeyTable count inRange).ReadsBack context := by
  refine ⟨shortKeyRows_ascending inRange, ?_⟩
  rintro context ⟨_, loaded, -⟩
  have emptied : ¬((shortKeyTable count inRange).rows.length % 2 ^ 16 ≠ 0 ∨
      (shortKeyTable count inRange).sktid = 1) := by
    have length : (shortKeyTable count inRange).rows.length = count := length_shortKeyRows count
    rw [length, wraps]
    simp [shortKeyTable]
  rw [FlushTable.emptied_not_loaded _ context emptied] at loaded
  cases loaded

/-- A table of 2^16 ascending keys is not read back: it counts as empty, and only a header is
written. -/
theorem manyKeys_not_readBack : ((shortKeyTable (2 ^ 16) (Nat.le_refl _)).rows.Pairwise
        fun row later => row.key < later.key) ∧
      ∀ context, ¬ (shortKeyTable (2 ^ 16) (Nat.le_refl _)).ReadsBack context :=
  shortKeyTable_not_readBack (Nat.le_refl _) (Nat.mod_self _)

end InsDb
