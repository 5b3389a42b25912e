import BulkLoad.Fault
import BulkLoad.Library.EntryPoints

/-! # Function tables

A table holds the addresses of all entry points of one library. A table is all or nothing: there
is none for a library that cannot be opened or that lacks an entry point.
-/
namespace BulkLoad

/-- A table may own the library it was found in; the library then lives as long as the table. -/
structure Table where
  path : Path
  entries : List Nat
  library : Option Library

namespace Table

def ownsLibrary (table : Table) : Bool := table.library.isSome

/-- A table over a set of exports, labelled with where they come from. -/
def ofLookup (lookup : String → Lookup) (origin : Path) (library : Option Library) :
    Except Fault Table :=
  match (EntryPoints.findAll lookup EntryPoints.names).2 with
  | .error missing => .error (.entryPointMissing origin missing.symbol missing.detail)
  | .ok entries => .ok ⟨origin, entries, library⟩

def load (opener : Path → Except String Library) (path : Path) : Except Fault Table :=
  match opener path with
  | .error detail => .error (.libraryNotOpened path detail)
  | .ok library => ofLookup library.lookup path (some library)

end Table

end BulkLoad
