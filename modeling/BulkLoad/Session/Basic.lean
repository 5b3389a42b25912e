import BulkLoad.Batch
import BulkLoad.Session.Slot

/-! # Sessions

A session loads one batch over one connection. It is created only for a batch with columns that
all have the same number of rows and with a table name that has no zero character; creating it
makes no call. The server is told the name in UTF-16 with a zero at its end.
-/
namespace BulkLoad

structure Session where
  connection : Nat
  batch : Batch
  table : List UInt16
  cursors : List Cursor
  slots : List Slot
  phase : Phase
  rows : Nat
  /-- Whether the server holds resources for the session that only `done` frees. -/
  isOpen : Bool
deriving DecidableEq

namespace Session

/-- The first column, counted from `column`, that does not have the expected number of rows. -/
def firstMismatch (expected : Nat) (column : Nat) : List Column → Option Fault
  | [] => none
  | c :: rest =>
    if c.cursor.size = expected then firstMismatch expected (column + 1) rest
    else some (.rowCountMismatch column c.name expected c.cursor.size)

def tableUnits (table : String) : List UInt16 :=
  Text.Utf16.encode table.toList ++ [0]

def create (connection : Nat) (batch : Batch) : Except Fault Session :=
  match batch.columns with
  | [] => .error (.noColumns batch.table)
  | first :: _ =>
    match firstMismatch first.rows 0 batch.columns with
    | some fault => .error fault
    | none =>
      if Char.ofNat 0 ∈ batch.table.toList then .error (.invalidTableName batch.table)
      else
        .ok {
          connection
          batch
          table := tableUnits batch.table
          cursors := batch.columns.map Column.cursor
          slots := batch.columns.map Slot.ofColumn
          phase := .created
          rows := first.rows
          isOpen := false }

/-- Stages the current value of each cursor into its slot, one after the other. If one fails, the
slots before it stay staged; in the same way cursors stay advanced. -/
def stageAll : List Cursor → List Slot → Except Halt Unit × List Slot
  | cursor :: cursors, slot :: slots =>
    match cursor.current with
    | .error halt => (.error halt, slot :: slots)
    | .ok cell =>
      match slot.hold? cell with
      | none => (.error .trap, slot :: slots)
      | some staged =>
        let (answer, rest) := stageAll cursors slots
        (answer, staged :: rest)
  | _, slots => (.ok (), slots)

def nextAll : List Cursor → Except Fault Unit × List Cursor
  | [] => (.ok (), [])
  | cursor :: cursors =>
    match cursor.next with
    | .error fault => (.error fault, cursor :: cursors)
    | .ok further =>
      let (answer, rest) := nextAll cursors
      (answer, further :: rest)

/-- What the bound locations hold when the server reads them. -/
def rowAt (slots : List Slot) (bound : List Binding) : List (Option Cell) :=
  bound.map fun binding =>
    match slots[binding.location]? with
    | some slot => binding.read? slot.bytes
    | none => none

end Session

end BulkLoad
