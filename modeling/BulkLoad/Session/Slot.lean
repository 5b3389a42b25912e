import BulkLoad.Column.Basic
import BulkLoad.Server.Basic

/-! # Row slots

A slot is the fixed location from which the server reads one column on every send. It consists of
whole words and holds the current value, behind an indicator if the column needs one.
-/
namespace BulkLoad

structure Slot where
  memory : Bytes
  length : Nat
  hasIndicator : Bool
deriving DecidableEq

namespace Slot

/-- Slots are made of words of this many bytes, and begin at a multiple of it. -/
def wordBytes : Nat := 8

def ofColumn (column : Column) : Slot :=
  let indicator := if column.needsIndicator then indicatorBytes else 0
  let length := indicator + column.storage.longestValue
  let words := (length + (wordBytes - 1)) / wordBytes
  ⟨List.replicate (wordBytes * words) 0, length, column.needsIndicator⟩

def bytes (slot : Slot) : Bytes := slot.memory.take slot.length

def write? (slot : Slot) (start : Nat) (patch : Bytes) : Option Slot :=
  (slot.bytes.overwrite? start patch).map fun bytes =>
    { slot with memory := bytes ++ slot.memory.drop slot.length }

def indicator (length : Int) : Bytes :=
  Bytes.littleEndian indicatorBytes (length % Bytes.span indicatorBytes).toNat

/-- Puts a value into the slot, if it fits. Without an indicator a null leaves the slot as it is. -/
def hold? (slot : Slot) (cell : Cell) : Option Slot :=
  match slot.hasIndicator, cell with
  | false, .null => some slot
  | false, .bytes content => slot.write? 0 content
  | true, .null => slot.write? 0 (indicator nullIndicator)
  | true, .bytes content =>
    (slot.write? 0 (indicator content.length)).bind (·.write? indicatorBytes content)

def binding (slot : Slot) (column : Column) (position : Nat) : Binding where
  location := position
  indicatorLength := if slot.hasIndicator then Int32.ofNat indicatorBytes else 0
  dataLength := if slot.hasIndicator then lengthFromIndicator else Int32.ofNat slot.length
  terminator := none
  terminatorLength := 0
  type := column.type.code
  column := Int32.ofNat (position + 1)

end Slot

/-- The address of a slot with an indicator has to be a multiple of the indicator's width. -/
def Binding.isAligned (binding : Binding) : Bool :=
  binding.indicatorLength == 0 || Slot.wordBytes % indicatorBytes == 0

end BulkLoad
