import BulkLoad.Cell

/-! # The server's side of a bulk load

A client makes four kinds of calls on a connection: it names the table, binds one location for
each column, sends the row that the locations hold, and finishes. The server answers each call
with a status that may depend on every call before it. All calls are kept in a log.
-/
namespace BulkLoad

def succeeded : Int32 := 1
def refused : Int32 := 0

def directionIn : Int32 := 1
def directionOut : Int32 := 2

/-- The data length of a column whose values travel behind an indicator. -/
def lengthFromIndicator : Int32 := -10

def nullIndicator : Int := -1

/-- The bytes of an indicator, a signed number with the length of the value behind it. -/
def indicatorBytes : Nat := 8

/-- What the server is told of the location of one column. -/
structure Binding where
  location : Nat
  indicatorLength : Int32
  dataLength : Int32
  terminator : Option Bytes
  terminatorLength : Int32
  type : Int32
  column : Int32
deriving DecidableEq

/-- Reads a location the way the binding says, if all of it lies inside the location's bytes. -/
def Binding.read? (binding : Binding) (location : Bytes) : Option Cell :=
  if binding.indicatorLength = 0 then
    (location.slice? 0 binding.dataLength.toInt.toNat).map .bytes
  else
    match location.slice? 0 indicatorBytes with
    | none => none
    | some head =>
      let length := head.signedValue
      if length = nullIndicator then some .null
      else if length < 0 then none
      else (location.slice? indicatorBytes (indicatorBytes + length.toNat)).map .bytes

inductive Request
  | init (table : List UInt16) (direction : Int32)
  | bind (binding : Binding)
  | send (row : List (Option Cell))
  | done
deriving DecidableEq

/-- The units of a name up to its terminating zero. -/
def unitsRead (table : List UInt16) : List UInt16 :=
  table.takeWhile (· != 0)

structure Call where
  connection : Nat
  request : Request
  status : Int32
deriving DecidableEq

abbrev Log := List Call

/-- Answers a request on a connection after the calls of the log. -/
structure Server where
  answer : Log → Nat → Request → Int32

namespace Log

def rebind (connection : Nat) (bound : List Binding) (call : Call) : List Binding :=
  if call.connection = connection then
    match call.request with
    | .init .. => []
    | .bind binding => if call.status = succeeded then bound ++ [binding] else bound
    | .send _ => bound
    | .done => []
  else bound

/-- The locations bound on a connection, in the order of the calls. -/
def bound (log : Log) (connection : Nat) : List Binding :=
  log.foldl (rebind connection) []

def recount (connection : Nat) (sent : Nat) (call : Call) : Nat :=
  if call.connection = connection then
    match call.request with
    | .init .. => 0
    | .send _ => if call.status = succeeded then sent + 1 else sent
    | _ => sent
  else sent

/-- The rows that were sent successfully on a connection since its table was last named. -/
def sent (log : Log) (connection : Nat) : Nat :=
  log.foldl (recount connection) 0

@[simp] theorem bound_append (log : Log) (call : Call) (connection : Nat) :
    bound (log ++ [call]) connection = rebind connection (bound log connection) call := by
  simp [bound]

@[simp] theorem sent_append (log : Log) (call : Call) (connection : Nat) :
    sent (log ++ [call]) connection = recount connection (sent log connection) call := by
  simp [sent]

end Log

end BulkLoad
