import BulkLoad.Proofs.Session.Admission
import BulkLoad.Proofs.Session.Staging

/-! # The rows of a batch

A batch that a session accepts has columns of one length, so it consists of rows. When all cursors
stand at one row, staging puts exactly this row before the server, whatever the slots held, and
advancing takes all of them to the next row.
-/
namespace BulkLoad

namespace Batch

variable (batch : Batch)

/-- The contents of one row, column by column. -/
def row (number : Nat) : List Cell := batch.columns.map (·.cell number)

def bindings : List Binding :=
  batch.columns.zipIdx.map fun (column, position) =>
    (Slot.ofColumn column).binding column position

def initRequest : Request := .init (Session.tableUnits batch.table) directionIn

def bindRequests : List Request := batch.bindings.map .bind

def sendRequests : List Request :=
  (List.range' 0 batch.rows).map fun number => .send ((batch.row number).map some)

@[simp] theorem length_bindings : batch.bindings.length = batch.columns.length := by
  simp [bindings]

@[simp] theorem length_bindRequests : batch.bindRequests.length = batch.columns.length := by
  simp [bindRequests]

@[simp] theorem length_sendRequests : batch.sendRequests.length = batch.rows := by
  simp [sendRequests]

end Batch

namespace Session

section Lockstep

variable {columns : List Column} {slots : List Slot} {row : Nat}

theorem stageAll_cursorAt (hcolumns : ∀ column ∈ columns, column.WellFormed ∧ row < column.rows)
    (hslots : List.Forall₂ (fun column slot => slot.Suits column) columns slots) :
    ∃ staged, stageAll (columns.map (·.cursorAt row)) slots = (.ok (), staged) ∧
      List.Forall₂ (fun column slot => slot.Suits column) columns staged ∧
      List.Forall₂ (fun column slot => slot.Shows column (column.cell row)) columns staged := by
  induction hslots with
  | nil => exact ⟨[], rfl, .nil, .nil⟩
  | @cons column slot columns slots hslot _ ih =>
    obtain ⟨hwell, hrow⟩ := hcolumns column List.mem_cons_self
    obtain ⟨rest, hrest, hsuits, hshows⟩ :=
      ih fun other hother => hcolumns other (List.mem_cons_of_mem column hother)
    obtain ⟨staged, hstaged, hfits, hshown⟩ :=
      hslot.hold? (hwell.takes_cell hrow) hwell.fits.longestValue_le
    refine ⟨staged :: rest, ?_, .cons hfits hsuits, .cons hshown hshows⟩
    simp only [List.map_cons, stageAll, hwell.current_cursorAt hrow, hstaged, hrest]

theorem nextAll_cursorAt (hcolumns : ∀ column ∈ columns, column.WellFormed ∧ row < column.rows) :
    nextAll (columns.map (·.cursorAt row)) =
      (.ok (), columns.map (·.cursorAt (row + 1))) := by
  induction columns with
  | nil => rfl
  | cons column rest ih =>
    obtain ⟨hwell, hrow⟩ := hcolumns column List.mem_cons_self
    have hrest := ih fun other hother => hcolumns other (List.mem_cons_of_mem column hother)
    simp only [List.map_cons, nextAll, hwell.next_cursorAt hrow, hrest]

theorem rowAt_zipIdx {position : Nat} {all : List Slot} (hall : all.drop position = slots)
    (hshows : List.Forall₂ (fun column slot => slot.Shows column (column.cell row)) columns slots) :
    rowAt all ((columns.zipIdx position).map fun (column, position) =>
      (Slot.ofColumn column).binding column position) =
      columns.map fun column => some (column.cell row) := by
  induction hshows generalizing position with
  | nil => rfl
  | @cons column slot columns slots hshown _ ih =>
    have hslot : all[position]? = some slot := by rw [← List.head?_drop, hall, List.head?_cons]
    have hrest : all.drop (position + 1) = slots := by rw [← List.tail_drop, hall, List.tail_cons]
    simp only [List.zipIdx_cons, List.map_cons, rowAt, List.cons.injEq]
    refine ⟨?_, ih hrest⟩
    simp only [Slot.binding, hslot]
    exact hshown position

theorem rowAt_bindings {batch : Batch} (hshows : List.Forall₂
    (fun column slot => slot.Shows column (column.cell row)) batch.columns slots) :
    rowAt slots batch.bindings = (batch.row row).map some := by
  rw [Batch.bindings, rowAt_zipIdx (List.drop_zero ..) hshows, Batch.row, List.map_map]
  rfl

end Lockstep

end Session

end BulkLoad
