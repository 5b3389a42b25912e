import BulkLoad.Proofs.Column.Construction
import BulkLoad.Proofs.Column.Shapes

/-! # Copying a row and reading it

A row can be read through a cursor or copied out of the storage. Where no offset runs back, the
two agree on every row, also in how they fail: what is an end for the one is the same end for the
other, and a row that leaves the bytes traps the cursor and is refused by the copy. The cells of
a column agree likewise, nulls included.
-/
namespace BulkLoad

namespace Storage

/-- No offset is smaller than the one before it. -/
def Ordered : Storage → Prop
  | fixed .. => True
  | varying offsets _ => offsets.IsChain (· ≤ ·)

theorem Fits.ordered {type : ColumnType} {storage : Storage} (h : storage.Fits type) :
    storage.Ordered := by
  cases h with
  | fixed => trivial
  | packed _ hshort => exact (isChain_boundaries 0 hshort).imp fun _ _ hpair => hpair.1

theorem Ordered.exists_range {storage : Storage} (h : storage.Ordered) {row : Nat}
    (hrow : row < storage.rows) :
    ∃ offset length, storage.range? row = some (offset, length) ∧
      storage.Spans row offset (offset + length) := by
  cases storage with
  | fixed width bytes =>
    have hlast : row * width + width = (row + 1) * width := (Nat.succ_mul row width).symm
    exact ⟨row * width, width, if_pos hrow, rfl, hlast⟩
  | varying offsets bytes =>
    have hrows : row < offsets.length - 1 := hrow
    have hfirst : row < offsets.length := by omega
    have hlast : row + 1 < offsets.length := by omega
    have hle : offsets[row] ≤ offsets[row + 1] := List.isChain_iff_getElem.mp h row hlast
    refine ⟨offsets[row], offsets[row + 1] - offsets[row], ?_, ?_, ?_⟩
    · rw [range?, if_pos hrow]
      simp only [List.getD_eq_getElem _ _ hfirst, List.getD_eq_getElem _ _ hlast]
    · exact List.getElem?_eq_getElem hfirst
    · rw [Nat.add_sub_cancel' hle]
      exact List.getElem?_eq_getElem hlast

/-- The same range decides what is copied and what is read. -/
theorem Ordered.copy_and_read {storage : Storage} (h : storage.Ordered) {row : Nat}
    (hrow : row < storage.rows) :
    ∃ offset length, storage.Spans row offset (offset + length) ∧
      storage.copyRow row = copyOut storage.bytes offset length ∧
      (storage.cursorAt row).current = Cursor.cut storage.bytes offset (offset + length) := by
  obtain ⟨offset, length, hrange, hspans⟩ := h.exists_range hrow
  obtain ⟨first, last, hspans', hread⟩ := exists_spans hrow
  obtain ⟨rfl, rfl⟩ := hspans.unique hspans'
  refine ⟨offset, length, hspans, ?_, hread⟩
  simp only [copyRow, hrange]

theorem copyRow_of_le {storage : Storage} {row : Nat} (h : storage.rows ≤ row) :
    storage.copyRow row = .error (.cursorExhausted row storage.rows) := by
  simp only [copyRow, range?, Nat.not_lt.mpr h, ↓reduceIte]

theorem current_cursorAt_of_le {storage : Storage} {row : Nat} (h : storage.rows ≤ row) :
    (storage.cursorAt row).current = .error (.fault (.cursorExhausted row storage.rows)) := by
  have hend : (storage.cursorAt row).size ≤ (storage.cursorAt row).index := by
    rw [size_cursorAt, index_cursorAt]
    exact h
  rw [Cursor.current_of_le hend, size_cursorAt, index_cursorAt]

theorem Ordered.copyRow_iff {storage : Storage} (h : storage.Ordered) (row : Nat) :
    (∀ index size, storage.copyRow row = .error (.cursorExhausted index size) ↔
      (storage.cursorAt row).current = .error (.fault (.cursorExhausted index size))) ∧
    (∀ content, storage.copyRow row = .ok content ↔
      (storage.cursorAt row).current = .ok (.bytes content)) ∧
    ((storage.cursorAt row).current = .error .trap ↔
      ∃ offset length, storage.Spans row offset (offset + length) ∧
        storage.copyRow row = .error (.outsideStorage offset length storage.bytes.length)) := by
  rcases Nat.lt_or_ge row storage.rows with hrow | hrow
  · obtain ⟨offset, length, hspans, hcopy, hread⟩ := h.copy_and_read hrow
    rw [hcopy, hread]
    refine ⟨fun index size => ?_, fun content => ?_, ?_⟩
    · simp only [copyOut_eq_error_iff, reduceCtorEq, and_false, Cursor.cut_ne_fault]
    · rw [copyOut_eq_ok_iff, Cursor.cut_eq_bytes_iff]
    · rw [Cursor.cut_eq_trap_iff]
      constructor
      · intro hnone
        exact ⟨offset, length, hspans, copyOut_eq_error_iff.mpr ⟨hnone, rfl⟩⟩
      · rintro ⟨_, _, -, hrefused⟩
        exact (copyOut_eq_error_iff.mp hrefused).1
  · rw [copyRow_of_le hrow, current_cursorAt_of_le hrow]
    simp

end Storage

namespace Column

variable {column : Column}

theorem WellFormed.copyRow_of_lt (h : column.WellFormed) {row : Nat} (hrow : row < column.rows) :
    column.copyRow row = .ok (column.cell row) := by
  have hread := Storage.current_cursorAt h.fits hrow
  have hcopy := ((h.fits.ordered.copyRow_iff row).2.1 _).mpr hread
  unfold copyRow cell
  split
  · rfl
  · rw [hcopy]

theorem WellFormed.copyRow_of_le (h : column.WellFormed) {row : Nat} (hrow : column.rows ≤ row) :
    column.copyRow row = .error (.cursorExhausted row column.rows) := by
  have hshown : column.isNullAt row = false := by
    unfold isNullAt
    cases hnulls : column.nulls with
    | none => rfl
    | some nulls =>
      have hlength : nulls.length ≤ row := (h.flags nulls hnulls).trans_le hrow
      exact List.getD_eq_default _ _ hlength
  have hend : column.storage.copyRow row = .error (.cursorExhausted row column.storage.rows) :=
    Storage.copyRow_of_le hrow
  simp only [copyRow, hshown, Bool.false_eq_true, ↓reduceIte, hend, rows]

/-- A copy yields the cell that the cursor reads, and both end behind the last row. -/
theorem WellFormed.copyRow_iff (h : column.WellFormed) (row : Nat) :
    (∀ cell, column.copyRow row = .ok cell ↔ (column.cursorAt row).current = .ok cell) ∧
    (column.rows ≤ row →
      column.copyRow row = .error (.cursorExhausted row column.rows)) := by
  rcases Nat.lt_or_ge row column.rows with hrow | hrow
  · refine ⟨fun cell => ?_, fun hend => absurd hrow (Nat.not_lt.mpr hend)⟩
    rw [h.copyRow_of_lt hrow, h.current_cursorAt hrow]
    simp
  · refine ⟨fun cell => ?_, fun _ => h.copyRow_of_le hrow⟩
    rw [h.copyRow_of_le hrow, h.current_cursorAt_of_le hrow]
    simp

end Column

end BulkLoad
