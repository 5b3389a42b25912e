import Mathlib
import BulkLoad.Buffer.Custody

/-! # A ledger of buffers

The ledger has one record for every buffer that was ever allocated, at the position of its serial
number: the bytes it was allocated with, the hook that was attached last, and what has become of
the buffer. No record is ever struck out, and a buffer that is freed or lost stays so.
-/
namespace BulkLoad

inductive Spot
  | held (place : Nat)
  | raw (place : Nat)
deriving DecidableEq

inductive Fate
  | alive (spot : Spot)
  | freed
  | lost
deriving DecidableEq

/-- What becomes of a buffer whose spot another one takes. -/
def Spot.displaced : Spot → Fate
  | held _ => .freed
  | raw _ => .lost

theorem Spot.displaced_ne (spot other : Spot) : spot.displaced ≠ .alive other := by
  cases spot with
  | held place => exact Fate.noConfusion
  | raw place => exact Fate.noConfusion

structure Record (Hook : Type) where
  bytes : Bytes
  hook : Option Hook
  fate : Fate

variable {Hook : Type}

/-- A buffer that is freed accounts for one run of the hook that was attached last. -/
def Record.runs (record : Record Hook) (serial : Nat) : List (Release Hook) :=
  if record.fate = .freed then
    record.hook.toList.map fun hook => ⟨serial, hook, record.bytes.length⟩
  else []

def Record.arrival (storage : Bytes) (offset length : Nat) (spot : Spot) : Record Hook :=
  ⟨(storage.drop offset).take length, none, .alive spot⟩

abbrev Ledger (Hook : Type) := List (Record Hook)

namespace Ledger

def change (ledger : Ledger Hook) (spot : Spot) (f : Record Hook → Record Hook) : Ledger Hook :=
  ledger.map fun record => if record.fate = .alive spot then f record else record

def settle (ledger : Ledger Hook) (spot : Spot) (fate : Fate) : Ledger Hook :=
  ledger.change spot fun record => { record with fate }

def attach (ledger : Ledger Hook) (place : Nat) (id : Hook) : Ledger Hook :=
  ledger.change (.held place) fun record => { record with hook := some id }

def displace (ledger : Ledger Hook) (spot : Spot) : Ledger Hook :=
  ledger.settle spot spot.displaced

/-- A new buffer with a range of the storage takes the spot, unless the range leaves the storage. -/
def enter (ledger : Ledger Hook) (storage : Bytes) (offset length : Nat) (spot : Spot) :
    Ledger Hook :=
  if offset + length ≤ storage.length then
    ledger.displace spot ++ [.arrival storage offset length spot]
  else ledger

/-- As `enter`, but the spot has to be empty: nothing is displaced. -/
def deliver (ledger : Ledger Hook) (storage : Bytes) (offset length : Nat) (spot : Spot) :
    Ledger Hook :=
  if offset + length ≤ storage.length then ledger ++ [.arrival storage offset length spot]
  else ledger

def pass (ledger : Ledger Hook) (place raw : Nat) : Ledger Hook :=
  if ∃ record ∈ ledger, record.fate = .alive (.held place) then
    (ledger.displace (.raw raw)).settle (.held place) (.alive (.raw raw))
  else ledger

def spotFor (custody : Custody Hook) (wanted : Nat) : Custody.Recipient → Spot
  | .adopting => .raw (custody.raws.vacant wanted)
  | .collecting => .held (custody.buffers.vacant wanted)

/-- What an action does to the buffers. Custody says only what the storages and windows hold and
which handles are free. -/
def step (custody : Custody Hook) (ledger : Ledger Hook) : Custody.Action Hook → Ledger Hook
  | .copy storage offset length place =>
    (custody.storages[storage]?).elim ledger fun bytes =>
      ledger.enter bytes offset length (.held place)
  | .hook place id => ledger.attach place id
  | .drop place => ledger.settle (.held place) .freed
  | .toRaw place raw => ledger.pass place raw
  | .lose raw => ledger.settle (.raw raw) .lost
  | .release raw => ledger.settle (.raw raw) .freed
  | .freeHint none => ledger
  | .freeHint (some raw) => ledger.settle (.raw raw) .freed
  | .overwrite .. => ledger
  | .window .. => ledger
  | .copyWindow window place =>
    (custody.windows.get? window).elim ledger fun window =>
      ledger.enter window.storage window.offset window.length (.held place)
  | .handWindow window recipient wanted =>
    (custody.windows.get? window).elim ledger fun window =>
      ledger.deliver window.storage window.offset window.length (spotFor custody wanted recipient)

/-- Every record stays: its bytes do not change, and nothing of it once the buffer is not alive. -/
def Outlives (later earlier : Ledger Hook) : Prop :=
  ∀ (serial : Nat) (record : Record Hook), earlier[serial]? = some record →
    ∃ successor : Record Hook, later[serial]? = some successor ∧
      successor.bytes = record.bytes ∧
      ((∀ spot, record.fate ≠ .alive spot) → successor = record)

namespace Outlives

variable {ledger earlier later latest : Ledger Hook}

theorem refl (ledger : Ledger Hook) : ledger.Outlives ledger := by
  intro serial record hrecord
  exact ⟨record, hrecord, rfl, fun _ => rfl⟩

theorem trans (hlate : latest.Outlives later) (hearly : later.Outlives earlier) :
    latest.Outlives earlier := by
  intro serial record hrecord
  obtain ⟨middle, hmiddle, hbytes, hfinal⟩ := hearly serial record hrecord
  obtain ⟨last, hlast, hbytes', hfinal'⟩ := hlate serial middle hmiddle
  refine ⟨last, hlast, hbytes'.trans hbytes, ?_⟩
  intro hdead
  have hsame := hfinal hdead
  rw [hsame] at hfinal'
  exact hfinal' hdead

theorem change (ledger : Ledger Hook) (spot : Spot) {f : Record Hook → Record Hook}
    (hf : ∀ record, (f record).bytes = record.bytes) : (ledger.change spot f).Outlives ledger := by
  intro serial record hrecord
  refine ⟨if record.fate = .alive spot then f record else record, ?_, ?_, ?_⟩
  · rw [Ledger.change, List.getElem?_map, hrecord]
    rfl
  · split
    · exact hf record
    · rfl
  · intro hdead
    exact if_neg (hdead spot)

theorem settle (ledger : Ledger Hook) (spot : Spot) (fate : Fate) :
    (ledger.settle spot fate).Outlives ledger :=
  change ledger spot fun _ => rfl

theorem append (ledger entered : Ledger Hook) : Outlives (ledger ++ entered) ledger := by
  intro serial record hrecord
  have hlt : serial < ledger.length := (List.getElem?_eq_some_iff.mp hrecord).1
  exact ⟨record, by rw [List.getElem?_append_left hlt, hrecord], rfl, fun _ => rfl⟩

theorem enter (ledger : Ledger Hook) (storage : Bytes) (offset length : Nat) (spot : Spot) :
    (ledger.enter storage offset length spot).Outlives ledger := by
  unfold Ledger.enter
  split
  · exact (append _ _).trans (settle ledger spot _)
  · exact refl ledger

theorem deliver (ledger : Ledger Hook) (storage : Bytes) (offset length : Nat) (spot : Spot) :
    (ledger.deliver storage offset length spot).Outlives ledger := by
  unfold Ledger.deliver
  split
  · exact append ledger _
  · exact refl ledger

theorem pass (ledger : Ledger Hook) (place raw : Nat) :
    (ledger.pass place raw).Outlives ledger := by
  unfold Ledger.pass
  split
  · exact (settle _ _ _).trans (settle ledger _ _)
  · exact refl ledger

theorem elim {α : Type} (found : Option α) {f : α → Ledger Hook}
    (hf : ∀ item, (f item).Outlives ledger) : Outlives (found.elim ledger f) ledger := by
  cases found with
  | none => exact refl ledger
  | some item => exact hf item

theorem step (custody : Custody Hook) (ledger : Ledger Hook) (action : Custody.Action Hook) :
    (ledger.step custody action).Outlives ledger := by
  cases action with
  | copy storage offset length place =>
    exact elim custody.storages[storage]? fun bytes => enter ledger bytes offset length _
  | hook place id => exact change ledger (.held place) fun _ => rfl
  | drop place => exact settle ledger _ _
  | toRaw place raw => exact pass ledger place raw
  | lose raw => exact settle ledger _ _
  | release raw => exact settle ledger _ _
  | freeHint hint =>
    cases hint with
    | none => exact refl ledger
    | some raw => exact settle ledger _ _
  | overwrite storage byte => exact refl ledger
  | window id storage offset length place => exact refl ledger
  | copyWindow window place =>
    exact elim (custody.windows.get? window) fun window => enter ledger window.storage _ _ _
  | handWindow window recipient wanted =>
    exact elim (custody.windows.get? window) fun window => deliver ledger window.storage _ _ _

end Outlives

end Ledger

end BulkLoad
