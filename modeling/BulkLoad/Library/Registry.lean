import BulkLoad.Library.Table
import BulkLoad.Places

/-! # The registry of tables

One table is shared by all who ask for the same path. The registry remembers which table was loaded
for a path but does not keep it alive: a table lives as long as a handle on it is held in some
place, and a path whose table is dead is loaded again.
-/
namespace BulkLoad

/-- Tables are told apart by the serial number of their loading. -/
structure Handle where
  serial : Nat
  table : Table

structure Registry where
  remembered : List (Path × Nat)
  handles : Places Handle
  issued : Nat

namespace Registry

def empty : Registry := ⟨[], [], 0⟩

def live? (registry : Registry) (serial : Nat) : Option Handle :=
  registry.handles.items.find? (·.serial == serial)

/-- The live table that is remembered for the path, in whatever spelling. -/
def cached? (registry : Registry) (path : Path) : Option Handle :=
  match registry.remembered.find? fun entry => decide (entry.1.Same path) with
  | some entry => registry.live? entry.2
  | none => none

def issue (registry : Registry) (table : Table) : Handle × Registry :=
  (⟨registry.issued, table⟩, { registry with issued := registry.issued + 1 })

/-- Remembers a table for its path and forgets all tables that are dead. -/
def remember (registry : Registry) (path : Path) (serial : Nat) : Registry :=
  let alive := registry.remembered.filter fun entry => (registry.live? entry.2).isSome
  { registry with remembered := alive ++ [(path, serial)] }

/-- The live table for the path, or else a new one. Loading runs code, so it may have effects; a
load that fails leaves no trace in the registry. -/
def acquireM {m : Type → Type} [Monad m] (load : Path → m (Except Fault Table)) (path : Path)
    (registry : Registry) : m (Except Fault Handle × Registry) :=
  match registry.cached? path with
  | some handle => pure (.ok handle, registry)
  | none => do
    match ← load path with
    | .error fault => pure (.error fault, registry)
    | .ok table =>
      let (handle, issued) := registry.issue table
      pure (.ok handle, issued.remember path handle.serial)

def acquire (load : Path → Except Fault Table) (path : Path) (registry : Registry) :
    Except Fault Handle × Registry :=
  Id.run (registry.acquireM (fun path => pure (load path)) path)

def placeOf? (registry : Registry) (handle : Handle) : Option Nat :=
  (registry.handles.find? (·.2.serial == handle.serial)).map (·.1)

def hold (registry : Registry) (place : Nat) (handle : Handle) : Registry :=
  { registry with handles := registry.handles.put place handle }

def drop (registry : Registry) (place : Nat) : Registry :=
  { registry with handles := registry.handles.clear place }

end Registry

end BulkLoad
