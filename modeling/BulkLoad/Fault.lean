import BulkLoad.ColumnType
import BulkLoad.Path
import BulkLoad.Phase

/-! # Faults

A fault records why a step of a bulk load did not happen. Faults of the client library and of the
server are collected in a sink, which only grows; the others are returned to the caller. A trap
stands for a byte range that leaves its bytes, which no fault describes.
-/
namespace BulkLoad

inductive Defect
  | notFixedWidth (type : ColumnType)
  | raggedBytes (bytes width : Nat)
  | notVariableLength (type : ColumnType)
  | valueTooLong (row bytes : Nat)
  | bitmapLength (entries rows : Nat)
  | stated (text : String)
deriving DecidableEq

def Defect.text : Defect → String
  | notFixedWidth type => s!"{type.name} is not a fixed-width type"
  | raggedBytes bytes width => s!"{bytes} bytes is not a multiple of width {width}"
  | notVariableLength type => s!"{type.name} is not a variable-length type"
  | valueTooLong row bytes => s!"row {row} is {bytes} bytes, limit is {maxValueBytes}"
  | bitmapLength entries rows => s!"null bitmap has {entries} entries for {rows} rows"
  | stated text => text

inductive Fault
  | libraryNotOpened (path : Path) (detail : String)
  | entryPointMissing (path : Path) (symbol detail : String)
  | initRefused (table : String) (status : Int32)
  | bindRefused (column : Nat) (name : String) (status : Int32)
  | rowRefused (row : Nat) (status : Int32)
  | notFinalized (status : Int32)
  | cursorExhausted (index size : Nat)
  | outOfOrder (operation : String) (phase : Phase)
  | rowCountMismatch (column : Nat) (name : String) (expected actual : Nat)
  | noColumns (table : String)
  | invalidColumn (name : String) (defect : Defect)
  | invalidTableName (table : String)
  | outsideStorage (offset length available : Nat)
deriving DecidableEq

namespace Fault

def message : Fault → String
  | libraryNotOpened path detail => s!"failed to load bulk copy library '{path.text}': {detail}"
  | entryPointMissing path symbol detail =>
    s!"bulk copy library '{path.text}' does not export `{symbol}`: {detail}"
  | initRefused table status => s!"bcp_initW failed for table '{table}' (status {status.toInt})"
  | bindRefused column name status =>
    s!"bcp_bind failed for column {column} '{name}' (status {status.toInt})"
  | rowRefused row status => s!"bcp_sendrow failed at row {row} (status {status.toInt})"
  | notFinalized status => s!"bcp_done failed (status {status.toInt})"
  | cursorExhausted index size => s!"cursor exhausted at index {index} of {size}"
  | outOfOrder operation phase => s!"{operation}() is not allowed in state {phase.text}"
  | rowCountMismatch column name expected actual =>
    s!"column {column} '{name}' has {actual} rows, expected {expected}"
  | noColumns table => s!"parameter set for table '{table}' has no columns"
  | invalidColumn name defect => s!"invalid column '{name}': {defect.text}"
  | invalidTableName table => s!"invalid table name '{table}': contains NUL"
  | outsideStorage offset length available =>
    s!"range {offset}..{offset}+{length} is outside storage of {available} bytes"

/-- Both ways in which a library can fail to provide the entry points. -/
def concernsLibrary : Fault → Bool
  | libraryNotOpened .. | entryPointMissing .. => true
  | _ => false

end Fault

/-- The faults recorded so far, oldest first. -/
abbrev Sink := List Fault

inductive Halt
  | fault (cause : Fault)
  | trap
deriving DecidableEq

end BulkLoad
