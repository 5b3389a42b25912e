import BulkLoad.Buffer.Copy
import BulkLoad.Column.Cursor

/-! # Column storage

The bytes of a column, either cut into values of one width or packed back to back with the offsets
at which the values begin and the last one ends.
-/
namespace BulkLoad

inductive Storage
  | fixed (width : Nat) (bytes : Bytes)
  | varying (offsets : List Nat) (bytes : Bytes)
deriving DecidableEq

namespace Storage

def bytes : Storage → Bytes
  | fixed _ bytes => bytes
  | varying _ bytes => bytes

def rows : Storage → Nat
  | fixed width bytes => bytes.length / width
  | varying offsets _ => offsets.length - 1

def longestValue : Storage → Nat
  | fixed width _ => width
  | varying offsets _ => (List.zipWith (· - ·) offsets.tail offsets).foldl max 0

def range? (storage : Storage) (row : Nat) : Option (Nat × Nat) :=
  if row < storage.rows then
    match storage with
    | fixed width _ => some (row * width, width)
    | varying offsets _ =>
      some (offsets.getD row 0, offsets.getD (row + 1) 0 - offsets.getD row 0)
  else none

def copyRow (storage : Storage) (row : Nat) : Except Fault Bytes :=
  match storage.range? row with
  | some (offset, length) => copyOut storage.bytes offset length
  | none => .error (.cursorExhausted row storage.rows)

def cursor : Storage → Cursor
  | fixed width bytes => .fixed bytes width 0
  | varying offsets bytes => .varying bytes offsets 0

/-- Where each value begins when they are packed from `start` on, and where the last one ends. -/
def boundaries (start : Nat) : List Bytes → List Nat
  | [] => [start]
  | value :: rest => start :: boundaries (start + value.length) rest

def pack (values : List Bytes) : Storage :=
  .varying (boundaries 0 values) values.flatten

@[simp] theorem length_boundaries (start : Nat) (values : List Bytes) :
    (boundaries start values).length = values.length + 1 := by
  induction values generalizing start with
  | nil => rfl
  | cons value rest ih => simp [boundaries, ih]

@[simp] theorem rows_pack (values : List Bytes) : (pack values).rows = values.length := by
  simp [pack, rows]

end Storage

end BulkLoad
