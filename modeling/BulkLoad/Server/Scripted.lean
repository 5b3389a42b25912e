import BulkLoad.Server.Basic

/-! # Scripted servers

A scripted server answers the calls of each kind, counted over all connections, by their number.
Calls that the script does not mention succeed, and finishing answers the rows sent.
-/
namespace BulkLoad

structure Script where
  init : Nat → Option Int32
  bind : Nat → Option Int32
  send : Nat → Option Int32
  done : Nat → Option Int32

namespace Call

def isInit (call : Call) : Bool := match call.request with | .init .. => true | _ => false
def isBind (call : Call) : Bool := match call.request with | .bind _ => true | _ => false
def isSend (call : Call) : Bool := match call.request with | .send _ => true | _ => false
def isDone (call : Call) : Bool := match call.request with | .done => true | _ => false

end Call

namespace Script

def accepting : Script := ⟨fun _ => none, fun _ => none, fun _ => none, fun _ => none⟩

def answer (script : Script) (log : Log) (connection : Nat) : Request → Int32
  | .init .. => (script.init (log.countP Call.isInit)).getD succeeded
  | .bind _ => (script.bind (log.countP Call.isBind)).getD succeeded
  | .send _ => (script.send (log.countP Call.isSend)).getD succeeded
  | .done => (script.done (log.countP Call.isDone)).getD (Int32.ofNat (log.sent connection))

def server (script : Script) : Server := ⟨script.answer⟩

end Script

end BulkLoad
