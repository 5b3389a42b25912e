import BulkLoad.Buffer.Copy

/-! # Buffers

A buffer owns a copy of a byte range and may carry a hook, which runs once, with the length of the
bytes, when the buffer is freed. In its raw form a buffer can be handed over a boundary; whoever
holds the raw form frees the buffer by releasing it.
-/
namespace BulkLoad

/-- Buffers are told apart by the serial number of their allocation. -/
structure Buffer (Hook : Type) where
  serial : Nat
  bytes : Bytes
  hook : Option Hook
deriving DecidableEq

structure Release (Hook : Type) where
  serial : Nat
  hook : Hook
  length : Nat
deriving DecidableEq

/-- A raw form keeps the whole buffer alive; nothing of it is freed or run on the way. -/
structure RawForm (Hook : Type) where
  owner : Buffer Hook
deriving DecidableEq

variable {Hook : Type}

namespace Buffer

def ofRange (serial : Nat) (storage : Bytes) (offset length : Nat) :
    Except Fault (Buffer Hook) :=
  (copyOut storage offset length).map fun bytes => ⟨serial, bytes, none⟩

/-- Attaches a hook. A hook that was attached before is forgotten. -/
def withHook (buffer : Buffer Hook) (hook : Hook) : Buffer Hook := { buffer with hook := some hook }

/-- The hooks that run when the buffer is freed. -/
def free (buffer : Buffer Hook) : List (Release Hook) :=
  buffer.hook.toList.map fun hook => ⟨buffer.serial, hook, buffer.bytes.length⟩

def toRaw (buffer : Buffer Hook) : RawForm Hook := ⟨buffer⟩

def summary (buffer : Buffer Hook) : String :=
  let hooked := if buffer.hook.isSome then "true" else "false"
  s!"ColumnBuffer \x7b len: {buffer.bytes.length}, has_release_hook: {hooked} \x7d"

end Buffer

namespace RawForm

def data (raw : RawForm Hook) : Bytes := raw.owner.bytes
def length (raw : RawForm Hook) : Nat := raw.owner.bytes.length

end RawForm

/-- The release function of raw forms. It frees the buffer behind the hint, if there is one. -/
def freeHint (hint : Option (Buffer Hook)) : List (Release Hook) :=
  hint.elim [] Buffer.free

def RawForm.release (raw : RawForm Hook) : List (Release Hook) :=
  freeHint (some raw.owner)

end BulkLoad
