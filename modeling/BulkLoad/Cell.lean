import BulkLoad.Bytes

/-! # Cells

The content of one column in one row: null, or a byte string.
-/
namespace BulkLoad

inductive Cell
  | null
  | bytes (content : Bytes)
deriving DecidableEq

end BulkLoad
