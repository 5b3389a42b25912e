import BulkLoad.Column.Storage
import BulkLoad.Text.Utf16

/-! # Columns

A column has a name, a type, its stored values and optionally a bitmap of the rows that are null.
The functions that build a column check it once: the layout fits the type, no value is too long
and the bitmap has one flag for each row.
-/
namespace BulkLoad

structure Column where
  name : String
  type : ColumnType
  storage : Storage
  nulls : Option (List Bool)
deriving DecidableEq

namespace Column

def ofBytes (name : String) (type : ColumnType) (bytes : Bytes) : Except Fault Column :=
  match type.width? with
  | none => .error (.invalidColumn name (.notFixedWidth type))
  | some width =>
    if bytes.length % width = 0 then .ok ⟨name, type, .fixed width bytes, none⟩
    else .error (.invalidColumn name (.raggedBytes bytes.length width))

/-- The first value that is too long, with its row. -/
def firstTooLong (row : Nat) : List Bytes → Option (Nat × Nat)
  | [] => none
  | value :: rest =>
    if maxValueBytes < value.length then some (row, value.length) else firstTooLong (row + 1) rest

def ofValues (name : String) (type : ColumnType) (values : List Bytes) : Except Fault Column :=
  if type.width?.isSome then .error (.invalidColumn name (.notVariableLength type))
  else
    match firstTooLong 0 values with
    | some (row, length) => .error (.invalidColumn name (.valueTooLong row length))
    | none => .ok ⟨name, type, Storage.pack values, none⟩

def ofInt32s (name : String) (values : List Int32) : Except Fault Column :=
  ofBytes name .int (values.flatMap fun v => Bytes.littleEndian 4 v.toUInt32.toNat)

def ofInt64s (name : String) (values : List Int64) : Except Fault Column :=
  ofBytes name .bigInt (values.flatMap fun v => Bytes.littleEndian 8 v.toUInt64.toNat)

/-- Floating-point numbers given by their bit patterns. -/
def ofFloat64s (name : String) (patterns : List UInt64) : Except Fault Column :=
  ofBytes name .float (patterns.flatMap fun v => Bytes.littleEndian 8 v.toNat)

def ofBools (name : String) (values : List Bool) : Except Fault Column :=
  ofBytes name .bit (values.map Bool.toUInt8)

def ofBinaries (name : String) (values : List Bytes) : Except Fault Column :=
  ofValues name .varBinary values

def ofUtf8 (name : String) (texts : List String) : Except Fault Column :=
  ofValues name .varChar (texts.map fun text => text.toUTF8.data.toList)

/-- Texts sent as little-endian UTF-16. -/
def ofUtf16 (name : String) (texts : List String) : Except Fault Column :=
  ofValues name .nVarChar (texts.map fun text => Text.Utf16.toBytes (Text.Utf16.encode text.toList))

def rows (column : Column) : Nat := column.storage.rows

/-- Marks rows as null, in place of the marks the column had. -/
def markNulls (column : Column) (nulls : List Bool) : Except Fault Column :=
  if nulls.length = column.rows then .ok { column with nulls := some nulls }
  else .error (.invalidColumn column.name (.bitmapLength nulls.length column.rows))

def isNullable (column : Column) : Bool := column.nulls.isSome

/-- Whether values travel behind a length, as nulls and values of variable length must. -/
def needsIndicator (column : Column) : Bool :=
  column.isNullable ||
    match column.storage with
    | .fixed .. => false
    | .varying .. => true

/-- A cursor at the first row, which hides the rows that are null. -/
def cursor (column : Column) : Cursor :=
  match column.nulls with
  | some nulls => .nullable column.storage.cursor nulls
  | none => column.storage.cursor

def isNullAt (column : Column) (row : Nat) : Bool :=
  match column.nulls with
  | some nulls => nulls.getD row false
  | none => false

def copyRow (column : Column) (row : Nat) : Except Fault Cell :=
  if column.isNullAt row then .ok .null
  else
    match column.storage.copyRow row with
    | .ok bytes => .ok (.bytes bytes)
    | .error fault => .error fault

end Column

end BulkLoad
