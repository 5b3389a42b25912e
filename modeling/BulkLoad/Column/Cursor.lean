import BulkLoad.Cell
import BulkLoad.Fault

/-! # Cursors

A cursor walks one column row by row. Its rows are equal cuts of the bytes, or cuts at given
offsets, and a layer of flags may hide rows as null. A cursor may be built from any parts: a width
of zero holds no rows, a layer ends where its flags end, and a row whose offsets are out of order
or leave the bytes traps when it is read. Reading and stepping are also given with numbers below a
limit, and then have no answer if a position comes to the limit.
-/
namespace BulkLoad

inductive Cursor
  | fixed (bytes : Bytes) (width index : Nat)
  | varying (bytes : Bytes) (offsets : List Nat) (index : Nat)
  | nullable (inner : Cursor) (nulls : List Bool)
deriving DecidableEq

namespace Cursor

def size : Cursor → Nat
  | fixed bytes width _ => bytes.length / width
  | varying _ offsets _ => offsets.length - 1
  | nullable inner nulls => min inner.size nulls.length

def index : Cursor → Nat
  | fixed _ _ index => index
  | varying _ _ index => index
  | nullable inner _ => inner.index

def cut (bytes : Bytes) (first last : Nat) : Except Halt Cell :=
  match bytes.slice? first last with
  | some content => .ok (.bytes content)
  | none => .error .trap

/-- The content of the current row; every layer of flags checks its own end first. -/
def current : Cursor → Except Halt Cell
  | fixed bytes width index =>
    if index < bytes.length / width then cut bytes (index * width) ((index + 1) * width)
    else .error (.fault (.cursorExhausted index (bytes.length / width)))
  | varying bytes offsets index =>
    if index < offsets.length - 1 then cut bytes (offsets.getD index 0) (offsets.getD (index + 1) 0)
    else .error (.fault (.cursorExhausted index (offsets.length - 1)))
  | nullable inner nulls =>
    if inner.index < min inner.size nulls.length then
      if nulls.getD inner.index false then .ok .null else inner.current
    else .error (.fault (.cursorExhausted inner.index (min inner.size nulls.length)))

def advance : Cursor → Cursor
  | fixed bytes width index => fixed bytes width (index + 1)
  | varying bytes offsets index => varying bytes offsets (index + 1)
  | nullable inner nulls => nullable inner.advance nulls

def next (cursor : Cursor) : Except Fault Cursor :=
  if cursor.index < cursor.size then .ok cursor.advance
  else .error (.cursorExhausted cursor.index cursor.size)

def below? (limit n : Nat) : Option Nat :=
  if n < limit then some n else none

def currentWithin (limit : Nat) : Cursor → Option (Except Halt Cell)
  | fixed bytes width index =>
    if index < bytes.length / width then do
      let first ← below? limit (index * width)
      let after ← below? limit (index + 1)
      let last ← below? limit (after * width)
      return cut bytes first last
    else some (.error (.fault (.cursorExhausted index (bytes.length / width))))
  | varying bytes offsets index =>
    if index < offsets.length - 1 then do
      let after ← below? limit (index + 1)
      return cut bytes (offsets.getD index 0) (offsets.getD after 0)
    else some (.error (.fault (.cursorExhausted index (offsets.length - 1))))
  | nullable inner nulls =>
    if inner.index < min inner.size nulls.length then
      if nulls.getD inner.index false then some (.ok .null) else inner.currentWithin limit
    else some (.error (.fault (.cursorExhausted inner.index (min inner.size nulls.length))))

/-- A step with numbers below a limit, in which every layer checks its own end first. -/
def nextWithin (limit : Nat) : Cursor → Option (Except Fault Cursor)
  | fixed bytes width index =>
    if index < bytes.length / width then do
      let row ← below? limit (index + 1)
      return .ok (fixed bytes width row)
    else some (.error (.cursorExhausted index (bytes.length / width)))
  | varying bytes offsets index =>
    if index < offsets.length - 1 then do
      let row ← below? limit (index + 1)
      return .ok (varying bytes offsets row)
    else some (.error (.cursorExhausted index (offsets.length - 1)))
  | nullable inner nulls =>
    if inner.index < min inner.size nulls.length then do
      let answer ← inner.nextWithin limit
      return answer.map fun further => nullable further nulls
    else some (.error (.cursorExhausted inner.index (min inner.size nulls.length)))

/-- At most `fuel` rows of a walk. -/
def walkFor : Nat → Cursor → List (Except Halt Cell) × Cursor
  | 0, cursor => ([], cursor)
  | fuel + 1, cursor =>
    match cursor.current with
    | .error halt => ([.error halt], cursor)
    | .ok cell =>
      match cursor.next with
      | .error fault => ([.ok cell, .error (.fault fault)], cursor)
      | .ok further =>
        let (rest, last) := walkFor fuel further
        (.ok cell :: rest, last)

/-- Reads and advances by turns until one of the two fails. The last answer is that failure. -/
def walk (cursor : Cursor) : List (Except Halt Cell) × Cursor :=
  cursor.walkFor (cursor.size - cursor.index + 1)

@[simp] theorem size_advance (cursor : Cursor) : cursor.advance.size = cursor.size := by
  induction cursor with
  | fixed => rfl
  | varying => rfl
  | nullable inner nulls ih => simp [advance, size, ih]

@[simp] theorem index_advance (cursor : Cursor) : cursor.advance.index = cursor.index + 1 := by
  induction cursor with
  | fixed => rfl
  | varying => rfl
  | nullable inner nulls ih => simpa [advance, index] using ih

theorem current_of_le {cursor : Cursor} (h : cursor.size ≤ cursor.index) :
    cursor.current = .error (.fault (.cursorExhausted cursor.index cursor.size)) := by
  cases cursor <;> exact if_neg (Nat.not_lt.mpr h)

end Cursor

end BulkLoad
