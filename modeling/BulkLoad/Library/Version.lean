import BulkLoad.Path

/-! # Library file names

The files of the client library share the beginning of their names. The version is what the
numerals between the dots of the rest say; pieces that are no numerals do not count. Newer versions
come first, and files of the same version come in descending order of their paths.
-/
namespace BulkLoad.Version

def stem : List Char := ['l', 'i', 'b', 'm', 's', 'o', 'd', 'b', 'c', 's', 'q', 'l']

/-- What follows the common beginning of the names. -/
def afterStem? (name : List Char) : Option (List Char) :=
  if stem.isPrefixOf name then some (name.drop stem.length) else none

def isDigit (c : Char) : Bool := '0' ≤ c && c ≤ '9'

def digitsValue (digits : List Char) : Nat :=
  digits.foldl (fun n c => 10 * n + (c.toNat - '0'.toNat)) 0

def unsigned (piece : List Char) : List Char :=
  match piece with
  | '+' :: rest => rest
  | _ => piece

/-- The value of a decimal numeral below 2^64. -/
def numeral? (piece : List Char) : Option Nat :=
  let digits := unsigned piece
  if digits ≠ [] ∧ digits.all isDigit ∧ digitsValue digits < UInt64.size then some (digitsValue digits)
  else none

def isSeparator (c : Char) : Bool := c == '-' || c == '.'

def ofName (name : List Char) : List Nat :=
  match afterStem? name with
  | none => []
  | some rest => (Text.segments '.' (rest.dropWhile isSeparator)).filterMap numeral?

def ofPath (path : Path) : List Nat :=
  match path.fileName? with
  | none => []
  | some name => ofName name

/-- Newest first. -/
def order (a b : Path) : Ordering :=
  (compare (ofPath b) (ofPath a)).then (b.order a)

end BulkLoad.Version
