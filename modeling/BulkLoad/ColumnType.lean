/-! # Column types

Every type of column has a wire code. Types of fixed width have one width for all values; values
of the others carry their own length.
-/
namespace BulkLoad

inductive ColumnType
  | bit
  | tinyInt
  | smallInt
  | int
  | bigInt
  | real
  | float
  | uniqueIdentifier
  | varBinary
  | varChar
  | nVarChar
deriving DecidableEq

namespace ColumnType

def all : List ColumnType :=
  [bit, tinyInt, smallInt, int, bigInt, real, float, uniqueIdentifier, varBinary, varChar, nVarChar]

def name : ColumnType → String
  | bit => "Bit"
  | tinyInt => "TinyInt"
  | smallInt => "SmallInt"
  | int => "Int"
  | bigInt => "BigInt"
  | real => "Real"
  | float => "Float"
  | uniqueIdentifier => "UniqueIdentifier"
  | varBinary => "VarBinary"
  | varChar => "VarChar"
  | nVarChar => "NVarChar"

def ofName? (name : String) : Option ColumnType :=
  all.find? (·.name == name)

def code : ColumnType → Int32
  | uniqueIdentifier => 0x24
  | tinyInt => 0x30
  | bit => 0x32
  | smallInt => 0x34
  | int => 0x38
  | real => 0x3B
  | float => 0x3E
  | bigInt => 0x7F
  | varBinary => 0xA5
  | varChar => 0xA7
  | nVarChar => 0xE7

/-- The bytes of one value, for the types whose values all have the same width. -/
def width? : ColumnType → Option Nat
  | bit | tinyInt => some 1
  | smallInt => some 2
  | int | real => some 4
  | bigInt | float => some 8
  | uniqueIdentifier => some 16
  | varBinary | varChar | nVarChar => none

end ColumnType

/-- The longest value that a column of variable length accepts. -/
def maxValueBytes : Nat := 8000

end BulkLoad
