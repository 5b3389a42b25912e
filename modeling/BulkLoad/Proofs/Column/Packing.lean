import BulkLoad.Proofs.Column.Construction

/-! # Packing and walking

What is packed into a column comes back from a walk of its cursor: values of any length one by
one, bytes of a fixed width cut into values that make up the bytes again. Null marks replace the
cells of the marked rows and no others. A column is refused for the first value that is too long.
-/
namespace BulkLoad

/-- A walk reads these cells and then finds the end. -/
def Cursor.Yields (cursor : Cursor) (cells : List Cell) : Prop :=
  cursor.walk.1 = cells.map .ok ++
    [.error (.fault (.cursorExhausted cells.length cells.length))]

def Cell.hide (hidden : Bool) (cell : Cell) : Cell :=
  if hidden then .null else cell

namespace Storage

def values (storage : Storage) : List Bytes :=
  (List.range storage.rows).map storage.value

@[simp] theorem length_values (storage : Storage) : storage.values.length = storage.rows := by
  simp [values]

theorem values_pack (values : List Bytes) : (pack values).values = values := by
  apply List.ext_getElem
  · simp
  · intro row hrow hrow'
    simp only [Storage.values, List.getElem_map, List.getElem_range]
    exact value_pack values hrow'

theorem flatten_cuts (bytes : Bytes) (width count : Nat) :
    ((List.range count).map fun row => (bytes.drop (row * width)).take width).flatten =
      bytes.take (count * width) := by
  induction count with
  | zero => simp
  | succ count ih =>
    rw [List.range_succ, List.map_append, List.flatten_append, ih, Nat.succ_mul, List.take_add]
    simp

theorem flatten_values_fixed {width : Nat} {bytes : Bytes} (h : width ∣ bytes.length) :
    (fixed width bytes).values.flatten = bytes := by
  have hcuts := flatten_cuts bytes width (bytes.length / width)
  rw [Nat.div_mul_cancel h, List.take_length] at hcuts
  exact hcuts

theorem length_of_mem_values_fixed {width : Nat} {bytes value : Bytes}
    (h : value ∈ (fixed width bytes).values) : value.length = width := by
  obtain ⟨row, hrow, rfl⟩ := List.mem_map.mp h
  exact length_value_fixed (List.mem_range.mp hrow)

theorem foldl_max_eq_getD (lengths : List Nat) : lengths.foldl max 0 = lengths.max?.getD 0 := by
  cases lengths with
  | nil => rfl
  | cons first rest =>
    rw [List.foldl_cons, Nat.zero_max, List.max?_cons', Option.getD_some]

end Storage

namespace Column

def cells (column : Column) : List Cell :=
  (List.range column.rows).map column.cell

theorem WellFormed.yields_cells {column : Column} (h : column.WellFormed) :
    column.cursor.Yields column.cells := by
  have hlength : column.cells.length = column.rows := by simp [cells]
  rw [Cursor.Yields, h.walk_cursor, hlength, cells, List.map_map]
  rfl

theorem cells_of_unmarked {column : Column} (h : column.nulls = none) :
    column.cells = column.storage.values.map .bytes := by
  have hcell : ∀ row, column.cell row = .bytes (column.storage.value row) := by
    intro row
    simp [cell, isNullAt, h]
  simp only [cells, Storage.values, List.map_map, rows]
  exact List.map_congr_left fun row _ => hcell row

theorem cells_of_marked {column : Column} {nulls : List Bool} (h : column.nulls = some nulls)
    (hlength : nulls.length = column.rows) :
    column.cells = List.zipWith Cell.hide nulls (column.storage.values.map .bytes) := by
  apply List.ext_getElem
  · simp [cells, hlength, rows]
  · intro row hrow hrow'
    have hnulls : row < nulls.length := by
      rw [List.length_zipWith] at hrow'
      omega
    have hflag : column.isNullAt row = nulls[row] := by
      simp only [isNullAt, h, List.getD_eq_getElem _ _ hnulls]
    simp only [cells, List.getElem_map, List.getElem_range, cell, hflag, List.getElem_zipWith,
      Storage.values, Cell.hide]

/-- A walk yields the values, and after marking the same with null in every marked row. -/
structure Unpacks (column : Column) (values : List Bytes) : Prop where
  plain : column.cursor.Yields (values.map .bytes)
  accepted : ∀ nulls, (∃ marked, column.markNulls nulls = .ok marked) ↔
    nulls.length = values.length
  marked : ∀ nulls marked, column.markNulls nulls = .ok marked →
    marked.cursor.Yields (List.zipWith Cell.hide nulls (values.map .bytes))

theorem WellFormed.unpacks {column : Column} (h : column.WellFormed)
    (hnulls : column.nulls = none) : column.Unpacks column.storage.values := by
  refine ⟨?_, fun nulls => ?_, fun nulls marked hmarked => ?_⟩
  · rw [← cells_of_unmarked hnulls]
    exact h.yields_cells
  · rw [Storage.length_values]
    exact exists_markNulls_iff
  · have hyields := (h.markNulls hmarked).yields_cells
    obtain ⟨hlength, rfl⟩ := markNulls_eq_ok_iff.mp hmarked
    have hcells : ({ column with nulls := some nulls } : Column).cells =
        List.zipWith Cell.hide nulls (column.storage.values.map .bytes) :=
      cells_of_marked rfl hlength
    rwa [hcells] at hyields

theorem firstTooLong_zero_eq_some_iff {values : List Bytes} {row length : Nat} :
    firstTooLong 0 values = some (row, length) ↔
      ∃ value, FirstAt TooLong values row value ∧ length = value.length := by
  rw [searches_firstTooLong.eq_some_iff]
  simp only [Nat.zero_add, Prod.mk.injEq]
  constructor
  · rintro ⟨_, value, hvalue, rfl, rfl⟩
    exact ⟨value, hvalue, rfl⟩
  · rintro ⟨value, hvalue, rfl⟩
    exact ⟨row, value, hvalue, rfl, rfl⟩

/-- Values are refused for their type, and else for the first one that is too long. -/
theorem ofValues_eq_error_iff {name : String} {type : ColumnType} {values : List Bytes}
    {fault : Fault} :
    ofValues name type values = .error fault ↔
      (type.width? ≠ none ∧ fault = .invalidColumn name (.notVariableLength type)) ∨
      (type.width? = none ∧ ∃ row value, FirstAt TooLong values row value ∧
        fault = .invalidColumn name (.valueTooLong row value.length)) := by
  unfold ofValues
  cases hwidth : type.width? with
  | some width => simp [eq_comm]
  | none =>
    cases hlong : firstTooLong 0 values with
    | none =>
      have hnone : ∀ row value, ¬ FirstAt TooLong values row value := by
        intro row value hvalue
        have hsome := firstTooLong_zero_eq_some_iff.mpr ⟨value, hvalue, rfl⟩
        rw [hlong] at hsome
        cases hsome
      simp [hnone]
    | some place =>
      obtain ⟨row, length⟩ := place
      obtain ⟨value, hvalue, rfl⟩ := firstTooLong_zero_eq_some_iff.mp hlong
      simp only [Option.isSome_none, Bool.false_eq_true, ↓reduceIte, Except.error.injEq, ne_eq,
        not_true_eq_false, false_and, true_and, false_or]
      constructor
      · rintro rfl
        exact ⟨row, value, hvalue, rfl⟩
      · rintro ⟨row', value', hvalue', rfl⟩
        have hsame := firstTooLong_zero_eq_some_iff.mpr ⟨value', hvalue', rfl⟩
        obtain ⟨rfl, hlength⟩ := Prod.mk.inj (Option.some.inj (hlong.symm.trans hsame))
        rw [hlength]

theorem unpacks_ofValues {name : String} {type : ColumnType} {values : List Bytes}
    {column : Column} (h : ofValues name type values = .ok column) :
    column.Unpacks values ∧ column.storage.bytes = values.flatten ∧
      column.storage.longestValue = (values.map List.length).max?.getD 0 := by
  have hwell := wellFormed_ofValues h
  obtain ⟨-, -, rfl⟩ := ofValues_eq_ok_iff.mp h
  have hunpacks := hwell.unpacks rfl
  rw [Storage.values_pack] at hunpacks
  refine ⟨hunpacks, rfl, ?_⟩
  rw [Storage.longestValue_pack, Storage.foldl_max_eq_getD]

theorem unpacks_ofBytes {name : String} {type : ColumnType} {bytes : Bytes} {column : Column}
    (h : ofBytes name type bytes = .ok column) :
    ∃ values, column.Unpacks values ∧ values.flatten = bytes ∧
      ∀ value ∈ values, type.width? = some value.length := by
  have hwell := wellFormed_ofBytes h
  obtain ⟨width, hwidth, hcut, rfl⟩ := ofBytes_eq_ok_iff.mp h
  refine ⟨_, hwell.unpacks rfl, ?_, fun value hvalue => ?_⟩
  · exact Storage.flatten_values_fixed (Nat.dvd_of_mod_eq_zero hcut)
  · rw [hwidth, Storage.length_of_mem_values_fixed hvalue]

/-- Columns of values and columns of bytes: when they are made, and that a walk undoes the
making. -/
theorem walk_undoes_packing (name : String) (type : ColumnType) :
    (∀ values : List Bytes,
      ((∃ column, ofValues name type values = .ok column) ↔
        type.width? = none ∧ ∀ value ∈ values, value.length ≤ maxValueBytes) ∧
      (∀ column, ofValues name type values = .ok column →
        column.Unpacks values ∧ column.storage.bytes = values.flatten ∧
          column.storage.longestValue = (values.map List.length).max?.getD 0) ∧
      ∀ fault, ofValues name type values = .error fault ↔
        (type.width? ≠ none ∧ fault = .invalidColumn name (.notVariableLength type)) ∨
        (type.width? = none ∧ ∃ row value, FirstAt TooLong values row value ∧
          fault = .invalidColumn name (.valueTooLong row value.length))) ∧
    ∀ bytes : Bytes,
      ((∃ column, ofBytes name type bytes = .ok column) ↔
        ∃ width, type.width? = some width ∧ width ∣ bytes.length) ∧
      ∀ column, ofBytes name type bytes = .ok column →
        ∃ values, column.Unpacks values ∧ values.flatten = bytes ∧
          ∀ value ∈ values, type.width? = some value.length := by
  refine ⟨fun values => ⟨?_, ?_, ?_⟩, fun bytes => ⟨?_, ?_⟩⟩
  · exact exists_ofValues_iff
  · exact fun column hcolumn => unpacks_ofValues hcolumn
  · exact fun fault => ofValues_eq_error_iff
  · exact exists_ofBytes_iff
  · exact fun column hcolumn => unpacks_ofBytes hcolumn

theorem walk_undoes_packing_sample :
    let column : Column := ⟨"b", .varBinary, .varying [0, 1, 1, 3] [1, 2, 3], none⟩
    let marked : Column := { column with nulls := some [false, true, true] }
    ofValues "b" .varBinary [[1], [], [2, 3]] = .ok column ∧
      column.cursor.Yields [.bytes [1], .bytes [], .bytes [2, 3]] ∧
      column.markNulls [false, true, true] = .ok marked ∧
      marked.cursor.Yields [.bytes [1], .null, .null] := by
  intro column marked
  have hmake : ofValues "b" .varBinary [[1], [], [2, 3]] = .ok column := rfl
  have hmarked : column.markNulls [false, true, true] = .ok marked := rfl
  obtain ⟨-, hunpacks, -⟩ := (walk_undoes_packing "b" .varBinary).1 [[1], [], [2, 3]]
  obtain ⟨hcolumn, -, -⟩ := hunpacks column hmake
  exact ⟨hmake, hcolumn.plain, hmarked, hcolumn.marked _ _ hmarked⟩

end Column

end BulkLoad
