import BulkLoad.Buffer.Window
import BulkLoad.Places

/-! # Custody of buffers

Buffers, raw forms and windows are held in numbered places. Whatever takes the place of a buffer
frees it; a raw form that loses its place is never freed. Recipients choose the places of what they
are handed, but only empty ones. The runs of all hooks are recorded in order.
-/
namespace BulkLoad

structure Custody (Hook : Type) where
  storages : List Bytes
  buffers : Places (Buffer Hook)
  raws : Places (RawForm Hook)
  windows : Places Window
  allocated : Nat
  released : List (Release Hook)

variable {Hook : Type}

namespace Custody

def ofStorages (storages : List Bytes) : Custody Hook := ⟨storages, [], [], [], 0, []⟩

/-- Two ways of taking over a value: as a raw form, or as the buffer itself. -/
inductive Recipient
  | adopting
  | collecting
deriving DecidableEq

inductive Action (Hook : Type)
  | copy (storage offset length place : Nat)
  | hook (place : Nat) (id : Hook)
  | drop (place : Nat)
  | toRaw (place raw : Nat)
  | lose (raw : Nat)
  | release (raw : Nat)
  | freeHint (raw : Option Nat)
  | overwrite (storage : Nat) (byte : UInt8)
  | window (id storage : Nat) (offset : Option Nat) (length place : Nat)
  | copyWindow (window place : Nat)
  | handWindow (window : Nat) (recipient : Recipient) (wanted : Nat)

inductive Outcome (Hook : Type)
  | confirmed
  | copied (bytes : Bytes)
  | handed (raw : RawForm Hook)
  | opened (window : Window)
  | exposed (handle : Nat)
  | fault (cause : Fault)
  | absent

def log (custody : Custody Hook) (runs : List (Release Hook)) : Custody Hook :=
  { custody with released := custody.released ++ runs }

/-- Frees the buffer of a place, if there is one, and empties the place. -/
def freePlace (custody : Custody Hook) (place : Nat) : Custody Hook :=
  match custody.buffers.get? place with
  | none => custody
  | some buffer =>
    { custody with buffers := custody.buffers.clear place }.log buffer.free

def hold (custody : Custody Hook) (place : Nat) (buffer : Buffer Hook) : Custody Hook :=
  { custody with buffers := custody.buffers.put place buffer }

def keep (custody : Custody Hook) (place : Nat) (buffer : Buffer Hook) : Custody Hook :=
  (custody.freePlace place).hold place buffer

def keepRaw (custody : Custody Hook) (place : Nat) (raw : RawForm Hook) : Custody Hook :=
  { custody with raws := custody.raws.put place raw }

/-- A recipient gives out handles in an order of its own, but never one that it has given out and
still holds something for. -/
def expose (wanted : Nat) : Recipient → Buffer Hook → Custody Hook → Nat × Custody Hook
  | .adopting, buffer, custody =>
    let handle := custody.raws.vacant wanted
    (handle, custody.keepRaw handle buffer.toRaw)
  | .collecting, buffer, custody =>
    let handle := custody.buffers.vacant wanted
    (handle, custody.hold handle buffer)

def allocate (custody : Custody Hook) : Custody Hook :=
  { custody with allocated := custody.allocated + 1 }

def receive (custody : Custody Hook) (place : Nat) :
    Except Fault (Buffer Hook) → Outcome Hook × Custody Hook
  | .error fault => (.fault fault, custody)
  | .ok buffer => (.copied buffer.bytes, custody.allocate.keep place buffer)

/-- Takes the buffer of a place away without freeing it. -/
def take (custody : Custody Hook) (place : Nat) : Custody Hook :=
  { custody with buffers := custody.buffers.clear place }

def takeRaw (custody : Custody Hook) (raw : Nat) : Custody Hook :=
  { custody with raws := custody.raws.clear raw }

def giveBack (custody : Custody Hook) (place : Nat) (release : RawForm Hook → List (Release Hook)) :
    Outcome Hook × Custody Hook :=
  match custody.raws.get? place with
  | none => (.absent, custody)
  | some raw =>
    (.confirmed, (custody.takeRaw place).log (release raw))

def step (custody : Custody Hook) : Action Hook → Outcome Hook × Custody Hook
  | .copy storage offset length place =>
    match custody.storages[storage]? with
    | none => (.absent, custody)
    | some bytes =>
      custody.receive place (Buffer.ofRange custody.allocated bytes offset length)
  | .hook place id =>
    match custody.buffers.get? place with
    | none => (.absent, custody)
    | some buffer => (.confirmed, custody.hold place (buffer.withHook id))
  | .drop place =>
    if (custody.buffers.get? place).isSome then (.confirmed, custody.freePlace place)
    else (.absent, custody)
  | .toRaw place raw =>
    match custody.buffers.get? place with
    | none => (.absent, custody)
    | some buffer => (.handed buffer.toRaw, (custody.take place).keepRaw raw buffer.toRaw)
  | .lose raw =>
    if (custody.raws.get? raw).isSome then (.confirmed, custody.takeRaw raw)
    else (.absent, custody)
  | .release raw => custody.giveBack raw RawForm.release
  | .freeHint none => (.confirmed, custody.log (BulkLoad.freeHint none))
  | .freeHint (some raw) =>
    custody.giveBack raw fun form => BulkLoad.freeHint (some form.owner)
  | .overwrite storage byte =>
    match custody.storages[storage]? with
    | none => (.absent, custody)
    | some bytes =>
      (.confirmed,
        { custody with storages := custody.storages.set storage (bytes.map fun _ => byte) })
  | .window id storage offset length place =>
    match custody.storages[storage]? with
    | none => (.absent, custody)
    | some bytes =>
      let window : Window := match offset with
        | none => .ofStart id bytes length
        | some offset => ⟨id, bytes, offset, length⟩
      (.opened window, { custody with windows := custody.windows.put place window })
  | .copyWindow window place =>
    match custody.windows.get? window with
    | none => (.absent, custody)
    | some window => custody.receive place (window.copy custody.allocated)
  | .handWindow window recipient wanted =>
    match custody.windows.get? window with
    | none => (.absent, custody)
    | some window =>
      match window.handTo custody.allocated
          (fun buffer custody => expose wanted recipient buffer custody.allocate) custody with
      | (.error fault, custody) => (.fault fault, custody)
      | (.ok handle, custody) => (.exposed handle, custody)

/-- Frees what is left: the buffers in the order of their places, then the raw forms in theirs. -/
def freeAll (custody : Custody Hook) : Custody Hook :=
  let buffers := custody.buffers.items.flatMap Buffer.free
  let raws := custody.raws.items.flatMap RawForm.release
  { custody with buffers := [], raws := [] }.log (buffers ++ raws)

end Custody

end BulkLoad
