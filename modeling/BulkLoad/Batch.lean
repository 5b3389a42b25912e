import BulkLoad.Column.Basic

/-! # Batches

A batch is what one bulk load sends: the name of the target table and the columns in the order in
which the server has them.
-/
namespace BulkLoad

structure Batch where
  table : String
  columns : List Column
deriving DecidableEq

namespace Batch

def ofTable (table : String) : Batch := ⟨table, []⟩

def push (batch : Batch) (column : Column) : Batch :=
  { batch with columns := batch.columns ++ [column] }

def isEmpty (batch : Batch) : Bool := batch.columns.isEmpty

end Batch

end BulkLoad
