import BulkLoad.Buffer.Basic

/-! # Windows

A window is a binary column of a result: a range of a shared storage. Its bytes leave it only in a
buffer of their own, which a host may take over.
-/
namespace BulkLoad

structure Window where
  id : Nat
  storage : Bytes
  offset : Nat
  length : Nat
deriving DecidableEq

variable {Hook : Type}

namespace Window

def ofStart (id : Nat) (storage : Bytes) (length : Nat) : Window := ⟨id, storage, 0, length⟩

def copy (window : Window) (serial : Nat) : Except Fault (Buffer Hook) :=
  Buffer.ofRange serial window.storage window.offset window.length

/-- Hands the copy to a host, which turns it into a handle and may change its state. -/
def handTo {State Handle : Type} (window : Window) (serial : Nat)
    (host : Buffer Hook → State → Handle × State) (state : State) : Except Fault Handle × State :=
  match window.copy serial with
  | .error fault => (.error fault, state)
  | .ok buffer =>
    let (handle, after) := host buffer state
    (.ok handle, after)

variable {State Handle : Type} {window : Window} {serial : Nat}

theorem handTo_of_ok {buffer : Buffer Hook} (h : window.copy serial = .ok buffer)
    (host : Buffer Hook → State → Handle × State) (state : State) :
    window.handTo serial host state = (.ok (host buffer state).1, (host buffer state).2) := by
  simp only [handTo, h]

theorem handTo_of_error {fault : Fault}
    (h : (window.copy serial : Except Fault (Buffer Hook)) = .error fault)
    (host : Buffer Hook → State → Handle × State) (state : State) :
    window.handTo serial host state = (.error fault, state) := by
  simp only [handTo, h]

end Window

end BulkLoad
