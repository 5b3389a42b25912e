import BulkLoad.Library.Registry
import BulkLoad.Library.Source

/-! # Search for a usable library

The candidates of a source are tried in order. One that cannot be opened is recorded and passed
over. The first that opens, or that has a live table, ends the search, even if it lacks an entry
point.
-/
namespace BulkLoad

def firstUsableM {m : Type → Type} [Monad m] (load : Path → m (Except Fault Table)) :
    List Path → Registry → Sink → m (Option Handle × Registry × Sink)
  | [], registry, sink => pure (none, registry, sink)
  | path :: rest, registry, sink => do
    match ← registry.acquireM load path with
    | (.ok handle, registry) => pure (some handle, registry, sink)
    | (.error fault, registry) =>
      match fault with
      | .libraryNotOpened .. => firstUsableM load rest registry (sink ++ [fault])
      | _ => pure (none, registry, sink ++ [fault])

/-- Whatever offers candidates in an order of its own, with a summary of itself. -/
structure Provider where
  summary : String
  candidates : List Path

namespace Provider

/-- The fault of a provider without candidates. It names no path. -/
def noCandidates (provider : Provider) : Fault :=
  .libraryNotOpened ⟨""⟩ s!"no candidates from {provider.summary}"

def searchM {m : Type → Type} [Monad m] (provider : Provider)
    (load : Path → m (Except Fault Table)) (registry : Registry) (sink : Sink) :
    m (Option Handle × Registry × Sink) :=
  match provider.candidates with
  | [] => pure (none, registry, sink ++ [provider.noCandidates])
  | candidates => firstUsableM load candidates registry sink

def search (provider : Provider) (load : Path → Except Fault Table) (registry : Registry)
    (sink : Sink) : Option Handle × Registry × Sink :=
  Id.run (provider.searchM (fun path => pure (load path)) registry sink)

end Provider

namespace Source

def provider (source : Source) (directories : Directories) : Provider where
  summary := source.summary
  candidates := source.candidates directories

def search (source : Source) (directories : Directories) (load : Path → Except Fault Table)
    (registry : Registry) (sink : Sink) : Option Handle × Registry × Sink :=
  (source.provider directories).search load registry sink

end Source

end BulkLoad
