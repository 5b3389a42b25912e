import BulkLoad.FileTree
import BulkLoad.Library.Settings
import BulkLoad.Library.Search
import BulkLoad.Session.Load

/-! # Hosts

A host has files, holds handles on tables in numbered places, and collects faults in one sink. A
file is a library or something that cannot be opened as one; a library that is open keeps working
whatever happens to its file.
-/
namespace BulkLoad

structure Host where
  files : FileTree (Option Library)
  registry : Registry
  sink : Sink

namespace Host

def empty : Host := ⟨.empty, .empty, []⟩

inductive Action
  | write (path : Path) (node : FileNode (Option Library))
  | remove (path : Path)
  | load (path : Path) (place : Nat)
  | acquire (path : Path) (place : Nat)
  | search (source : Source) (place : Nat)
  | drop (place : Nat)
  | copy (place : Nat) (batch : Batch)

inductive Outcome
  | confirmed (done : Bool)
  | held (table : Table) (alsoAt : Option Nat)
  | notFound
  | fault (cause : Fault)
  | report (report : Report)
  | absent
  | trap

/-- Opens what a file holds at the moment; the detail says why it cannot be opened. -/
def opener (detail : String) (files : FileTree (Option Library)) (path : Path) :
    Except String Library :=
  match files.read? path with
  | some (some library) => .ok library
  | _ => .error detail

def load (detail : String) (host : Host) (path : Path) : Except Fault Table :=
  Table.load (opener detail host.files) path

def keep (host : Host) (place : Nat) (handle : Handle) : Outcome × Host :=
  (.held handle.table (host.registry.placeOf? handle),
    { host with registry := host.registry.hold place handle })

def copy (host : Host) (place : Nat) (batch : Batch) : Outcome :=
  match (host.registry.handles.get? place).bind (·.table.library) with
  | none => .absent
  | some library => (loadBatch library.server 1 batch []).1.elim .trap .report

def step (detail : String) (host : Host) : Action → Outcome × Host
  | .write path node => (.confirmed true, { host with files := host.files.write path node })
  | .remove path => (.confirmed true, { host with files := host.files.remove path })
  | .load path place =>
    match host.load detail path with
    | .error fault => (.fault fault, host)
    | .ok table =>
      let (handle, registry) := host.registry.issue table
      { host with registry }.keep place handle
  | .acquire path place =>
    match host.registry.acquire (host.load detail) path with
    | (.error fault, registry) => (.fault fault, { host with registry })
    | (.ok handle, registry) => { host with registry }.keep place handle
  | .search source place =>
    match source.search host.files.entries? (host.load detail) host.registry host.sink with
    | (none, registry, sink) => (.notFound, { host with registry, sink })
    | (some handle, registry, sink) => { host with registry, sink }.keep place handle
  | .drop place =>
    (.confirmed (host.registry.handles.get? place).isSome,
      { host with registry := host.registry.drop place })
  | .copy place batch => (host.copy place batch, host)

end Host

end BulkLoad
