import BulkLoad.Session.Basic

/-! # The phases of a session

Each operation is allowed in one phase only. In any other it is refused, makes no call and changes
nothing. What the server refuses goes into the sink: a refused init or bind finishes the load as
failed, a refused row ends the sending but leaves the load to be finished.
-/
namespace BulkLoad

inductive Operation
  | init
  | bind
  | insert
  | done
deriving DecidableEq

def Operation.name : Operation → String
  | init => "init"
  | bind => "bind"
  | insert => "insert"
  | done => "done"

inductive Reply
  | completed
  | sent (rows : Nat)
  | accepted (rows : Option Nat)
deriving DecidableEq

/-- A session together with the server's log and the sink of its caller. -/
structure Run where
  session : Session
  log : Log
  sink : Sink

namespace Run

def connection (run : Run) : Nat := run.session.connection

def answer (run : Run) (server : Server) (request : Request) : Int32 :=
  server.answer run.log run.connection request

def call (run : Run) (server : Server) (request : Request) : Run :=
  { run with log := run.log ++ [⟨run.connection, request, run.answer server request⟩] }

def enter (run : Run) (phase : Phase) : Run :=
  { run with session := { run.session with phase } }

def record (run : Run) (fault : Fault) : Run :=
  { run with sink := run.sink ++ [fault] }

def setOpen (run : Run) (isOpen : Bool) : Run :=
  { run with session := { run.session with isOpen } }

def setSlots (run : Run) (slots : List Slot) : Run :=
  { run with session := { run.session with slots } }

def setCursors (run : Run) (cursors : List Cursor) : Run :=
  { run with session := { run.session with cursors } }

def refuse (run : Run) (operation : Operation) : Except Halt Reply × Run :=
  (.error (.fault (.outOfOrder operation.name run.session.phase)), run)

def init (server : Server) (run : Run) : Except Halt Reply × Run :=
  if run.session.phase = .created then
    let request := .init run.session.table directionIn
    let status := run.answer server request
    let called := run.call server request
    if status = succeeded then (.ok .completed, (called.setOpen true).enter .initialized)
    else
      (.ok .completed,
        (called.record (.initRefused run.session.batch.table status)).enter (.finished .failed))
  else run.refuse .init

def bindColumns (server : Server) (position : Nat) : List (Column × Slot) → Run → Run
  | [], run => run.enter .bound
  | (column, slot) :: rest, run =>
    let request := .bind (slot.binding column position)
    let status := run.answer server request
    let called := run.call server request
    if status = succeeded then bindColumns server (position + 1) rest called
    else (called.record (.bindRefused position column.name status)).enter (.finished .failed)

def bind (server : Server) (run : Run) : Except Halt Reply × Run :=
  if run.session.phase = .initialized then
    (.ok .completed,
      bindColumns server 0 (run.session.batch.columns.zip run.session.slots) run)
  else run.refuse .bind

def abort (run : Run) (fault : Fault) : Run :=
  (run.record fault).enter (.sending true)

def sendRequest (run : Run) : Request :=
  .send (Session.rowAt run.session.slots (run.log.bound run.connection))

/-- Sends up to `left` more rows, of which the first has number `row`. Answers the number of rows
that were sent in all. -/
def sendRows (server : Server) : Nat → Nat → Run → Except Halt Nat × Run
  | 0, row, run => (.ok row, run)
  | left + 1, row, run =>
    match Session.stageAll run.session.cursors run.session.slots with
    | (.error .trap, slots) => (.error .trap, run.setSlots slots)
    | (.error (.fault fault), slots) => (.ok row, (run.setSlots slots).abort fault)
    | (.ok (), slots) =>
      let staged := run.setSlots slots
      let status := staged.answer server staged.sendRequest
      let called := staged.call server staged.sendRequest
      if status = succeeded then
        match Session.nextAll called.session.cursors with
        | (.error fault, cursors) => (.ok (row + 1), (called.setCursors cursors).abort fault)
        | (.ok (), cursors) => sendRows server left (row + 1) (called.setCursors cursors)
      else (.ok row, called.abort (.rowRefused row status))

def insert (server : Server) (run : Run) : Except Halt Reply × Run :=
  if run.session.phase = .bound then
    let (sent, sending) := sendRows server run.session.rows 0 (run.enter (.sending false))
    (sent.map .sent, sending)
  else run.refuse .insert

/-- Finishes the load. A negative answer means that it failed, any other is the number of rows
that the server took. -/
def done (server : Server) (run : Run) : Except Halt Reply × Run :=
  match run.session.phase with
  | .sending aborted =>
    let status := run.answer server .done
    let called := (run.call server .done).setOpen false
    if status.toInt < 0 then
      (.ok (.accepted none), (called.record (.notFinalized status)).enter (.finished .failed))
    else
      (.ok (.accepted (some status.toInt.toNat)),
        called.enter (.finished (if aborted then .failed else .succeeded)))
  | _ => run.refuse .done

def apply (server : Server) (operation : Operation) (run : Run) : Except Halt Reply × Run :=
  match operation with
  | .init => run.init server
  | .bind => run.bind server
  | .insert => run.insert server
  | .done => run.done server

/-- Ends the session's life. If the server still holds resources for it they are freed. -/
def close (server : Server) (run : Run) : Run :=
  if run.session.isOpen then (run.call server .done).setOpen false else run

end Run

end BulkLoad
