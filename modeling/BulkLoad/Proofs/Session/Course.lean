import BulkLoad.Proofs.Server.Attempt
import BulkLoad.Proofs.Session.Row

/-! # The course of a session

How far a session has come, with the answers that were not a plain success, determines its phase,
its cursors, its calls and its faults. A refused row keeps the session open for finishing, and so
does a refused column, though the load has failed then; only a refused init leaves nothing open.
-/
namespace BulkLoad

inductive Course (batch : Batch)
  | created
  | initRefused (status : Int32) (refused : status ≠ succeeded)
  | initialized
  | bindRefused (refusal : Refusal batch.bindRequests)
  | bound
  | sent (stop : Option (Refusal batch.sendRequests))
  | finished (stop : Option (Refusal batch.sendRequests)) (answer : Int32)

def Batch.refusedColumn (batch : Batch) (refusal : Refusal batch.bindRequests) : Column :=
  batch.columns.get (refusal.position.cast batch.length_bindRequests)

/-- The session of a batch at a row. Its slots may hold anything. -/
@[simps]
def Batch.sessionAt (batch : Batch) (connection : Nat) (phase : Phase) (isOpen : Bool) (row : Nat)
    (slots : List Slot) : Session where
  connection := connection
  batch := batch
  table := Session.tableUnits batch.table
  cursors := batch.columns.map (·.cursorAt row)
  slots := slots
  phase := phase
  rows := batch.rows
  isOpen := isOpen

def rowFaults (row : Nat) {requests : List Request} (stop : Option (Refusal requests)) : Sink :=
  (stop.map fun refusal => .rowRefused (row + refusal.position) refusal.status).toList

def finalFaults (answer : Int32) : Sink :=
  if answer.toInt < 0 then [.notFinalized answer] else []

theorem finalFaults_eq_nil {answer : Int32} : finalFaults answer = [] ↔ 0 ≤ answer.toInt := by
  by_cases h : answer.toInt < 0
  · simp [finalFaults, h]
  · simp [finalFaults, not_lt.mp h]

namespace Course

variable {batch : Batch}

def phase : Course batch → Phase
  | created => .created
  | initRefused .. => .finished .failed
  | initialized => .initialized
  | bindRefused _ => .finished .failed
  | bound => .bound
  | sent stop => .sending stop.isSome
  | finished stop answer =>
    if answer.toInt < 0 then .finished .failed
    else .finished (if stop.isSome then .failed else .succeeded)

def isOpen : Course batch → Bool
  | created | initRefused .. | finished .. => false
  | initialized | bindRefused _ | bound | sent _ => true

/-- The rows that were sent successfully, which is also where all cursors stand. -/
def rowsSent : Course batch → Nat
  | sent stop | finished stop _ => (grantedOf batch.sendRequests stop).length
  | _ => 0

def calls (connection : Nat) : Course batch → Log
  | created => []
  | initRefused status _ => [⟨connection, batch.initRequest, status⟩]
  | initialized => Log.granted connection [batch.initRequest]
  | bindRefused refusal =>
    Log.granted connection [batch.initRequest] ++
      attempted connection batch.bindRequests (some refusal)
  | bound => Log.granted connection (batch.initRequest :: batch.bindRequests)
  | sent stop =>
    Log.granted connection (batch.initRequest :: batch.bindRequests) ++
      attempted connection batch.sendRequests stop
  | finished stop answer =>
    Log.granted connection (batch.initRequest :: batch.bindRequests) ++
      attempted connection batch.sendRequests stop ++ [⟨connection, .done, answer⟩]

def faults : Course batch → Sink
  | initRefused status _ => [.initRefused batch.table status]
  | bindRefused refusal =>
    [.bindRefused refusal.position (batch.refusedColumn refusal).name refusal.status]
  | sent stop => rowFaults 0 stop
  | finished stop answer => rowFaults 0 stop ++ finalFaults answer
  | created | initialized | bound => []

def acceptedRows : Course batch → Option Nat
  | finished _ answer => if answer.toInt < 0 then none else some answer.toInt.toNat
  | _ => none

def session (course : Course batch) (connection : Nat) (slots : List Slot) : Session :=
  batch.sessionAt connection course.phase course.isOpen course.rowsSent slots

/-- Where an operation leads that is allowed now, with a server that answers after the log. -/
def next? (server : Server) (connection : Nat) (log : Log) :
    Operation → Course batch → Option (Course batch)
  | .init, created =>
    if h : server.answer log connection batch.initRequest = succeeded then some initialized
    else some (initRefused (server.answer log connection batch.initRequest) h)
  | .bind, initialized =>
    match server.attempt connection (log ++ (initialized : Course batch).calls connection)
        batch.bindRequests with
    | none => some bound
    | some refusal => some (bindRefused refusal)
  | .insert, bound =>
    some (sent (server.attempt connection (log ++ (bound : Course batch).calls connection)
      batch.sendRequests))
  | .done, sent stop =>
    some (finished stop (server.answer (log ++ (sent stop).calls connection) connection .done))
  | _, _ => none

def reply (course : Course batch) : Operation → Reply
  | .init | .bind => .completed
  | .insert => .sent course.rowsSent
  | .done => .accepted course.acceptedRows

theorem bound_calls (log : Log) (connection : Nat) :
    (log ++ (bound : Course batch).calls connection).bound connection = batch.bindings := by
  have hbinds (bindings : List Binding) (front : List Binding) :
      (Log.granted connection (bindings.map .bind)).foldl (Log.rebind connection) front =
        front ++ bindings := by
    induction bindings generalizing front with
    | nil => simp
    | cons binding rest ih => simp [Log.rebind, ih]
  simp [Log.bound, calls, Batch.bindRequests, Log.rebind, Batch.initRequest, hbinds]

end Course

end BulkLoad
