import BulkLoad.Column.Basic
import BulkLoad.Proofs.FirstAt

/-! # What a column holds

The content of a row is null where the row is marked, and else the row's own cut of the storage.
Whatever way a column was made, its storage fits its type and its bitmap has one flag for each
row. So every row lies inside the storage and no value is longer than the longest one.
-/
namespace BulkLoad

theorem ColumnType.width?_bounds {type : ColumnType} {width : Nat}
    (h : type.width? = some width) : 0 < width ∧ width ≤ maxValueBytes := by
  cases type <;> simp only [ColumnType.width?, Option.some.injEq, reduceCtorEq] at h <;>
    subst h <;> decide

namespace Storage

def value (storage : Storage) (row : Nat) : Bytes :=
  match storage with
  | fixed width bytes => (bytes.drop (row * width)).take width
  | varying offsets bytes =>
    (bytes.drop (offsets.getD row 0)).take (offsets.getD (row + 1) 0 - offsets.getD row 0)

/-- The layouts of a type: cuts of its width without a rest, or short values back to back. -/
inductive Fits (type : ColumnType) : Storage → Prop
  | fixed {width : Nat} {bytes : Bytes} (hwidth : type.width? = some width)
      (hcut : bytes.length % width = 0) : Fits type (.fixed width bytes)
  | packed {values : List Bytes} (hwidth : type.width? = none)
      (hshort : ∀ value ∈ values, value.length ≤ maxValueBytes) : Fits type (pack values)

theorem getD_boundaries (start : Nat) (values : List Bytes) {row : Nat}
    (h : row ≤ values.length) :
    (boundaries start values).getD row 0 = start + (values.take row).flatten.length := by
  induction values generalizing start row with
  | nil =>
    obtain rfl : row = 0 := by simpa using h
    rfl
  | cons value rest ih =>
    cases row with
    | zero => rfl
    | succ row =>
      have hrow : row ≤ rest.length := by simpa using h
      simp only [boundaries, List.getD_cons_succ, ih _ hrow, List.take_succ_cons,
        List.flatten_cons, List.length_append]
      omega

theorem getD_boundaries_succ (values : List Bytes) {row : Nat} (h : row < values.length) :
    (boundaries 0 values).getD (row + 1) 0 =
      (boundaries 0 values).getD row 0 + values[row].length := by
  rw [getD_boundaries 0 values h, getD_boundaries 0 values h.le, List.take_add_one,
    List.getElem?_eq_getElem h]
  simp only [Option.toList_some, List.flatten_append, List.flatten_singleton, List.length_append,
    Nat.add_assoc]

theorem getD_boundaries_le (values : List Bytes) {row : Nat} (h : row ≤ values.length) :
    (boundaries 0 values).getD row 0 ≤ values.flatten.length := by
  rw [getD_boundaries 0 values h, Nat.zero_add]
  have hfront := List.take_prefix row values
  exact hfront.flatten.length_le

theorem value_pack (values : List Bytes) {row : Nat} (h : row < values.length) :
    (pack values).value row = values[row] := by
  have hsplit : values.flatten =
      (values.take row).flatten ++ (values[row] ++ (values.drop (row + 1)).flatten) := by
    conv_lhs => rw [← List.take_append_drop row values, List.drop_eq_getElem_cons h]
    rw [List.flatten_append, List.flatten_cons]
  have hfirst : (boundaries 0 values).getD row 0 = (values.take row).flatten.length := by
    rw [getD_boundaries 0 values h.le, Nat.zero_add]
  simp only [value, pack, getD_boundaries_succ values h, Nat.add_sub_cancel_left]
  rw [hfirst, hsplit, List.drop_left', List.take_left']
  · rfl
  · simp

theorem zipWith_boundaries (start : Nat) (values : List Bytes) :
    List.zipWith (· - ·) (boundaries start values).tail (boundaries start values) =
      values.map List.length := by
  induction values generalizing start with
  | nil => rfl
  | cons value rest ih =>
    have hhead : boundaries (start + value.length) rest =
        (start + value.length) :: (boundaries (start + value.length) rest).tail := by
      cases rest <;> rfl
    have htail := ih (start + value.length)
    simp only [boundaries, List.tail_cons, List.map_cons]
    rw [hhead] at htail ⊢
    simp only [List.zipWith_cons_cons, List.tail_cons] at htail ⊢
    rw [htail, Nat.add_sub_cancel_left]

theorem foldl_max_bounds (lengths : List Nat) (start : Nat) :
    start ≤ lengths.foldl max start ∧ (∀ n ∈ lengths, n ≤ lengths.foldl max start) ∧
      ∀ bound, start ≤ bound → (∀ n ∈ lengths, n ≤ bound) → lengths.foldl max start ≤ bound := by
  induction lengths generalizing start with
  | nil => simp
  | cons n rest ih =>
    obtain ⟨hstart, hrest, hleast⟩ := ih (max start n)
    have hn : n ≤ rest.foldl max (max start n) := (le_max_right start n).trans hstart
    refine ⟨(le_max_left start n).trans hstart, ?_, ?_⟩
    · intro k hk
      rcases List.mem_cons.mp hk with rfl | hk
      · exact hn
      · exact hrest k hk
    · intro bound hbound hall
      exact hleast bound (max_le hbound (hall n List.mem_cons_self))
        fun k hk => hall k (List.mem_cons_of_mem n hk)

theorem longestValue_pack (values : List Bytes) :
    (pack values).longestValue = (values.map List.length).foldl max 0 := by
  simp only [longestValue, pack, zipWith_boundaries]

namespace Fits

variable {type : ColumnType} {storage : Storage}

theorem length_value_le (h : storage.Fits type) {row : Nat} (hrow : row < storage.rows) :
    (storage.value row).length ≤ storage.longestValue := by
  cases h with
  | fixed hwidth hcut => exact List.length_take_le _ _
  | @packed values hwidth hshort =>
    have hlt : row < values.length := by simpa using hrow
    rw [value_pack values hlt, longestValue_pack]
    exact (foldl_max_bounds _ 0).2.1 _ (List.mem_map_of_mem (List.getElem_mem hlt))

theorem longestValue_le (h : storage.Fits type) : storage.longestValue ≤ maxValueBytes := by
  cases h with
  | fixed hwidth hcut => exact (ColumnType.width?_bounds hwidth).2
  | @packed values hwidth hshort =>
    rw [longestValue_pack]
    refine (foldl_max_bounds _ 0).2.2 _ (Nat.zero_le _) ?_
    intro n hn
    obtain ⟨value, hvalue, rfl⟩ := List.mem_map.mp hn
    exact hshort value hvalue

end Fits

theorem mul_le_length {bytes : Bytes} {width row : Nat} (h : row < bytes.length / width) :
    (row + 1) * width ≤ bytes.length :=
  (Nat.mul_le_mul_right width h).trans (Nat.div_mul_le_self _ _)

theorem length_value_fixed {width : Nat} {bytes : Bytes} {row : Nat}
    (hrow : row < (fixed width bytes).rows) : ((fixed width bytes).value row).length = width := by
  have hend := mul_le_length hrow
  rw [Nat.add_mul, Nat.one_mul] at hend
  simp only [value, List.length_take, List.length_drop]
  omega

end Storage

namespace Column

def cell (column : Column) (row : Nat) : Cell :=
  if column.isNullAt row then .null else .bytes (column.storage.value row)

/-- The columns that can be made. The functions for numbers, flags and texts prepare bytes for
`ofBytes` or values for `ofValues`. -/
inductive Built : Column → Prop
  | ofBytes {name : String} {type : ColumnType} {bytes : Bytes} {column : Column}
      (h : Column.ofBytes name type bytes = .ok column) : Built column
  | ofValues {name : String} {type : ColumnType} {values : List Bytes} {column : Column}
      (h : Column.ofValues name type values = .ok column) : Built column
  | markNulls {column marked : Column} {nulls : List Bool} (built : Built column)
      (h : column.markNulls nulls = .ok marked) : Built marked

structure WellFormed (column : Column) : Prop where
  fits : column.storage.Fits column.type
  flags : ∀ nulls, column.nulls = some nulls → nulls.length = column.rows

def TooLong (value : Bytes) : Prop := maxValueBytes < value.length

theorem searches_firstTooLong :
    Searches TooLong (fun row value => (row, value.length)) firstTooLong where
  nil _ := rfl
  cons_of_pos _ _ _ h := if_pos h
  cons_of_neg _ _ _ h := if_neg h

theorem firstTooLong_eq_none_iff {values : List Bytes} {row : Nat} :
    firstTooLong row values = none ↔ ∀ value ∈ values, value.length ≤ maxValueBytes := by
  simp only [searches_firstTooLong.eq_none_iff, TooLong, not_lt]

theorem ofBytes_eq_ok_iff {name : String} {type : ColumnType} {bytes : Bytes} {column : Column} :
    ofBytes name type bytes = .ok column ↔
      ∃ width, type.width? = some width ∧ bytes.length % width = 0 ∧
        column = ⟨name, type, .fixed width bytes, none⟩ := by
  unfold ofBytes
  cases hwidth : type.width? with
  | none => simp
  | some width =>
    by_cases hcut : bytes.length % width = 0
    · simp [hcut, eq_comm]
    · simp [hcut]

theorem ofValues_eq_ok_iff {name : String} {type : ColumnType} {values : List Bytes}
    {column : Column} :
    ofValues name type values = .ok column ↔
      type.width? = none ∧ (∀ value ∈ values, value.length ≤ maxValueBytes) ∧
        column = ⟨name, type, Storage.pack values, none⟩ := by
  unfold ofValues
  cases hwidth : type.width? with
  | some width => simp
  | none =>
    cases hlong : firstTooLong 0 values with
    | none => simpa [eq_comm] using fun _ : column = _ => firstTooLong_eq_none_iff.mp hlong
    | some place =>
      have hnot : ¬ ∀ value ∈ values, value.length ≤ maxValueBytes := fun hshort => by
        simp [firstTooLong_eq_none_iff.mpr hshort] at hlong
      simp [hnot]

theorem markNulls_eq_ok_iff {column marked : Column} {nulls : List Bool} :
    column.markNulls nulls = .ok marked ↔
      nulls.length = column.rows ∧ marked = { column with nulls := some nulls } := by
  unfold markNulls
  by_cases hlength : nulls.length = column.rows
  · simp [hlength, eq_comm]
  · simp [hlength]

theorem exists_ofBytes_iff {name : String} {type : ColumnType} {bytes : Bytes} :
    (∃ column, ofBytes name type bytes = .ok column) ↔
      ∃ width, type.width? = some width ∧ width ∣ bytes.length := by
  simp only [ofBytes_eq_ok_iff, Nat.dvd_iff_mod_eq_zero]
  constructor
  · rintro ⟨_, width, hwidth, hcut, -⟩
    exact ⟨width, hwidth, hcut⟩
  · rintro ⟨width, hwidth, hcut⟩
    exact ⟨_, width, hwidth, hcut, rfl⟩

theorem exists_ofValues_iff {name : String} {type : ColumnType} {values : List Bytes} :
    (∃ column, ofValues name type values = .ok column) ↔
      type.width? = none ∧ ∀ value ∈ values, value.length ≤ maxValueBytes := by
  simp only [ofValues_eq_ok_iff]
  constructor
  · rintro ⟨_, hwidth, hshort, -⟩
    exact ⟨hwidth, hshort⟩
  · rintro ⟨hwidth, hshort⟩
    exact ⟨_, hwidth, hshort, rfl⟩

theorem exists_markNulls_iff {column : Column} {nulls : List Bool} :
    (∃ marked, column.markNulls nulls = .ok marked) ↔ nulls.length = column.rows := by
  simp only [markNulls_eq_ok_iff]
  constructor
  · rintro ⟨_, hlength, -⟩
    exact hlength
  · intro hlength
    exact ⟨_, hlength, rfl⟩

theorem rows_ofValues {name : String} {type : ColumnType} {values : List Bytes} {column : Column}
    (h : ofValues name type values = .ok column) : column.rows = values.length := by
  obtain ⟨-, -, rfl⟩ := ofValues_eq_ok_iff.mp h
  exact Storage.rows_pack values

theorem wellFormed_ofBytes {name : String} {type : ColumnType} {bytes : Bytes} {column : Column}
    (h : ofBytes name type bytes = .ok column) : column.WellFormed := by
  obtain ⟨width, hwidth, hcut, rfl⟩ := ofBytes_eq_ok_iff.mp h
  exact ⟨.fixed hwidth hcut, by simp⟩

theorem wellFormed_ofValues {name : String} {type : ColumnType} {values : List Bytes}
    {column : Column} (h : ofValues name type values = .ok column) : column.WellFormed := by
  obtain ⟨hwidth, hshort, rfl⟩ := ofValues_eq_ok_iff.mp h
  exact ⟨.packed hwidth hshort, by simp⟩

theorem WellFormed.markNulls {column marked : Column} {nulls : List Bool}
    (hcolumn : column.WellFormed) (h : column.markNulls nulls = .ok marked) :
    marked.WellFormed := by
  obtain ⟨hlength, rfl⟩ := markNulls_eq_ok_iff.mp h
  refine ⟨hcolumn.fits, ?_⟩
  rintro _ ⟨⟩
  exact hlength

theorem Built.wellFormed {column : Column} (h : column.Built) : column.WellFormed := by
  induction h with
  | ofBytes h => exact wellFormed_ofBytes h
  | ofValues h => exact wellFormed_ofValues h
  | markNulls _ h ih => exact ih.markNulls h

theorem needsIndicator_of_cell_null {column : Column} {row : Nat}
    (h : column.cell row = .null) : column.needsIndicator = true := by
  unfold cell isNullAt at h
  cases hnulls : column.nulls with
  | none => simp [hnulls] at h
  | some nulls => simp [needsIndicator, isNullable, hnulls]

theorem cell_eq_bytes {column : Column} {row : Nat} {content : Bytes}
    (h : column.cell row = .bytes content) : content = column.storage.value row := by
  unfold cell at h
  split at h
  · cases h
  · exact (Cell.bytes.inj h).symm

theorem cell_ofValues {name : String} {type : ColumnType} {values : List Bytes} {column : Column}
    (h : ofValues name type values = .ok column) {row : Nat} (hrow : row < values.length) :
    column.cell row = .bytes values[row] := by
  obtain ⟨-, -, rfl⟩ := ofValues_eq_ok_iff.mp h
  exact congrArg Cell.bytes (Storage.value_pack values hrow)

theorem WellFormed.length_value {column : Column} (h : column.WellFormed) {row : Nat}
    (hrow : row < column.rows) (hplain : column.needsIndicator = false) :
    (column.storage.value row).length = column.storage.longestValue := by
  obtain ⟨name, type, storage, nulls⟩ := column
  cases h.fits with
  | fixed hwidth hcut => exact Storage.length_value_fixed hrow
  | packed => simp [needsIndicator] at hplain

end Column

end BulkLoad
