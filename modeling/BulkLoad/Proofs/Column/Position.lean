import BulkLoad.Proofs.Column.Content

/-! # Cursors of a column

A cursor that a session holds differs from a fresh one only in its row. Before the end of the
column it reads the content of its row, and every advance leads to the next row.
-/
namespace BulkLoad

def Storage.cursorAt (storage : Storage) (row : Nat) : Cursor :=
  match storage with
  | fixed width bytes => .fixed bytes width row
  | varying offsets bytes => .varying bytes offsets row

namespace Storage

variable (storage : Storage) (row : Nat)

@[simp] theorem index_cursorAt : (storage.cursorAt row).index = row := by
  cases storage <;> rfl

@[simp] theorem size_cursorAt : (storage.cursorAt row).size = storage.rows := by
  cases storage <;> rfl

@[simp] theorem advance_cursorAt :
    (storage.cursorAt row).advance = storage.cursorAt (row + 1) := by
  cases storage <;> rfl

theorem current_cursorAt {storage : Storage} {row : Nat} {type : ColumnType}
    (h : storage.Fits type) (hrow : row < storage.rows) :
    (storage.cursorAt row).current = .ok (.bytes (storage.value row)) := by
  cases h with
  | @fixed width bytes hwidth hcut =>
    have hlt : row < bytes.length / width := hrow
    have hend := mul_le_length hlt
    have hstart : row * width ≤ (row + 1) * width := Nat.mul_le_mul_right width (Nat.le_succ row)
    have hlength : (row + 1) * width - row * width = width := by
      rw [Nat.add_mul, Nat.one_mul, Nat.add_sub_cancel_left]
    simp only [cursorAt, Cursor.current, hlt, ↓reduceIte, Cursor.cut,
      Bytes.slice?_of_le hstart hend, hlength, value]
  | @packed values hwidth hshort =>
    have hlt : row < values.length := by simpa using hrow
    have hstart := getD_boundaries_succ values hlt
    have hend := getD_boundaries_le values (Nat.succ_le_of_lt hlt)
    have hordered : (boundaries 0 values).getD row 0 ≤ (boundaries 0 values).getD (row + 1) 0 :=
      Nat.le.intro hstart.symm
    have hcut := Bytes.slice?_of_le hordered hend
    simp only [cursorAt, pack, Cursor.current, length_boundaries, Nat.add_sub_cancel, hlt,
      ↓reduceIte, Cursor.cut, hcut, value]

end Storage

def Column.cursorAt (column : Column) (row : Nat) : Cursor :=
  match column.nulls with
  | some nulls => .nullable (column.storage.cursorAt row) nulls
  | none => column.storage.cursorAt row

namespace Column

theorem cursorAt_zero (column : Column) : column.cursorAt 0 = column.cursor := by
  have hstorage : column.storage.cursorAt 0 = column.storage.cursor := by
    cases column.storage <;> rfl
  cases hnulls : column.nulls with
  | none => simp only [cursorAt, cursor, hnulls, hstorage]
  | some nulls => simp only [cursorAt, cursor, hnulls, hstorage]

@[simp] theorem index_cursorAt (column : Column) (row : Nat) :
    (column.cursorAt row).index = row := by
  unfold cursorAt
  split
  · simp [Cursor.index]
  · simp

@[simp] theorem advance_cursorAt (column : Column) (row : Nat) :
    (column.cursorAt row).advance = column.cursorAt (row + 1) := by
  unfold cursorAt
  split
  · simp [Cursor.advance]
  · simp

namespace WellFormed

variable {column : Column} (h : column.WellFormed)

include h

theorem size_cursorAt (row : Nat) : (column.cursorAt row).size = column.rows := by
  unfold cursorAt
  split
  · next nulls hnulls => simp [Cursor.size, h.flags nulls hnulls, rows]
  · simp [rows]

theorem size_cursor : column.cursor.size = column.rows := by
  rw [← cursorAt_zero, h.size_cursorAt]

theorem current_cursorAt {row : Nat} (hrow : row < column.rows) :
    (column.cursorAt row).current = .ok (column.cell row) := by
  have hvalue := Storage.current_cursorAt h.fits hrow
  unfold cursorAt cell isNullAt
  cases hnulls : column.nulls with
  | none => simpa using hvalue
  | some nulls =>
    have hmin : min column.storage.rows nulls.length = column.rows := by
      rw [h.flags nulls hnulls, rows, Nat.min_self]
    simp only [Cursor.current, Storage.index_cursorAt, Storage.size_cursorAt, hmin, hrow,
      ↓reduceIte, hvalue]
    split <;> rfl

theorem current_cursorAt_of_le {row : Nat} (hrow : column.rows ≤ row) :
    (column.cursorAt row).current = .error (.fault (.cursorExhausted row column.rows)) := by
  have hsize := h.size_cursorAt row
  have hend : (column.cursorAt row).size ≤ (column.cursorAt row).index := by
    rw [hsize, index_cursorAt]
    exact hrow
  rw [Cursor.current_of_le hend, hsize, index_cursorAt]

theorem current_cursorAt_ne_trap (row : Nat) : (column.cursorAt row).current ≠ .error .trap := by
  intro htrap
  rcases Nat.lt_or_ge row column.rows with hrow | hrow
  · rw [h.current_cursorAt hrow] at htrap
    cases htrap
  · rw [h.current_cursorAt_of_le hrow] at htrap
    cases htrap

theorem next_cursorAt {row : Nat} (hrow : row < column.rows) :
    (column.cursorAt row).next = .ok (column.cursorAt (row + 1)) := by
  simp only [Cursor.next, index_cursorAt, h.size_cursorAt, hrow, ↓reduceIte, advance_cursorAt]

theorem eq_of_next_cursorAt {row : Nat} {further : Cursor}
    (hnext : (column.cursorAt row).next = .ok further) :
    row < column.rows ∧ further = column.cursorAt (row + 1) := by
  by_cases hrow : row < column.rows
  · rw [h.next_cursorAt hrow] at hnext
    exact ⟨hrow, (Except.ok.inj hnext).symm⟩
  · simp only [Cursor.next, index_cursorAt, h.size_cursorAt, hrow, ↓reduceIte, reduceCtorEq]
      at hnext

theorem walkFor_cursorAt (left row : Nat) (hrow : row + left = column.rows) :
    (column.cursorAt row).walkFor (left + 1) =
      ((List.range' row left).map (fun row => .ok (column.cell row)) ++
        [.error (.fault (.cursorExhausted column.rows column.rows))],
        column.cursorAt column.rows) := by
  induction left generalizing row with
  | zero =>
    obtain rfl : row = column.rows := hrow
    simp only [Cursor.walkFor, h.current_cursorAt_of_le le_rfl]
    rfl
  | succ left ih =>
    have hlt : row < column.rows := by omega
    rw [Cursor.walkFor, h.current_cursorAt hlt, h.next_cursorAt hlt]
    simp only [ih (row + 1) (by omega), List.range'_succ, List.map_cons, List.cons_append]

/-- A walk from the first row yields the content of every row, and then the end. -/
theorem walk_cursor : column.cursor.walk =
    ((List.range column.rows).map (fun row => .ok (column.cell row)) ++
      [.error (.fault (.cursorExhausted column.rows column.rows))],
      column.cursorAt column.rows) := by
  have hwalk := h.walkFor_cursorAt column.rows 0 (Nat.zero_add _)
  rw [List.range_eq_range', ← hwalk, ← cursorAt_zero, Cursor.walk, h.size_cursorAt,
    index_cursorAt, Nat.sub_zero]

theorem countP_walk_cursor : column.cursor.walk.1.countP Except.isOk = column.rows := by
  have hcells : ∀ answer ∈ (List.range column.rows).map
      (fun row => (.ok (column.cell row) : Except Halt Cell)), answer.isOk = true := by
    intro answer hanswer
    obtain ⟨row, -, rfl⟩ := List.mem_map.mp hanswer
    rfl
  rw [h.walk_cursor, List.countP_append, List.countP_eq_length.mpr hcells, List.length_map,
    List.length_range]
  rfl

/-- Advances lead from the first row to no other places than the rows and the end. -/
theorem exists_row_of_advances {reached : Cursor}
    (hreached : Relation.ReflTransGen (fun earlier later => earlier.next = .ok later)
      column.cursor reached) :
    ∃ row ≤ column.rows, reached = column.cursorAt row := by
  induction hreached with
  | refl => exact ⟨0, Nat.zero_le _, column.cursorAt_zero.symm⟩
  | tail _ hnext ih =>
    obtain ⟨row, _, rfl⟩ := ih
    obtain ⟨hlt, rfl⟩ := h.eq_of_next_cursorAt hnext
    exact ⟨row + 1, hlt, rfl⟩

end WellFormed

end Column

end BulkLoad
