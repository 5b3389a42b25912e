import BulkLoad.Session.Phases

/-! # Whole loads

Executing a session goes through all phases, stops as soon as one of them fails, and closes the
session. The report holds the rows that the server took and every fault.
-/
namespace BulkLoad

structure Report where
  acceptedRows : Nat
  faults : Sink
deriving DecidableEq

namespace Report

def isClean (report : Report) : Bool := report.faults.isEmpty

def ofFault (fault : Fault) : Report := ⟨0, [fault]⟩

end Report

namespace Run

def drive (server : Server) (run : Run) : Except Halt Nat × Run :=
  match run.init server with
  | (.error halt, run) => (.error halt, run)
  | (.ok _, run) =>
    if run.session.phase ≠ .initialized then (.ok 0, run)
    else
      match run.bind server with
      | (.error halt, run) => (.error halt, run)
      | (.ok _, run) =>
        if run.session.phase ≠ .bound then (.ok 0, run)
        else
          match run.insert server with
          | (.error halt, run) => (.error halt, run)
          | (.ok _, run) =>
            match run.done server with
            | (.error halt, run) => (.error halt, run)
            | (.ok (.accepted (some rows)), run) => (.ok rows, run)
            | (.ok _, run) => (.ok 0, run)

end Run

namespace Session

/-- Runs the session to its end with a sink of its own. There is no report only if a trap ended
the run. -/
def complete (server : Server) (session : Session) (log : Log) : Option Report × Log :=
  let (result, run) := Run.drive server ⟨session, log, []⟩
  match result with
  | .ok rows =>
    let closed := run.close server
    (some ⟨rows, closed.sink⟩, closed.log)
  | .error (.fault fault) =>
    let closed := (run.record fault).close server
    (some ⟨0, closed.sink⟩, closed.log)
  | .error .trap => (none, run.log)

end Session

/-- Loads a batch over a connection, from creating the session to closing it. -/
def loadBatch (server : Server) (connection : Nat) (batch : Batch) (log : Log) :
    Option Report × Log :=
  match Session.create connection batch with
  | .ok session => session.complete server log
  | .error fault => (some (.ofFault fault), log)

end BulkLoad
