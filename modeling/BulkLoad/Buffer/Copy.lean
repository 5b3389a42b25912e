import BulkLoad.Bytes
import BulkLoad.Fault

/-! # Copies of a byte range

Bytes leave a storage only as a copy of a range that lies inside it. An offset or a length that
reaches past the end is refused, and so is their sum; an empty range may begin at the very end. The
same copy is given with words for the positions, whose sum may wrap around.
-/
namespace BulkLoad

def copyOut (storage : Bytes) (offset length : Nat) : Except Fault Bytes :=
  match storage.slice? offset (offset + length) with
  | some bytes => .ok bytes
  | none => .error (.outsideStorage offset length storage.length)

/-- The sum of two words, unless it wraps around: then it is smaller than the first of them. -/
def wordSum? (a b : UInt64) : Option UInt64 :=
  if a + b < a then none else some (a + b)

/-- A copy with words for its positions. Cutting out a range that is not there would be a trap. -/
def copyOutWords (storage : Bytes) (offset length : UInt64) : Except Halt Bytes :=
  match (wordSum? offset length).filter (· ≤ UInt64.ofNat storage.length) with
  | some last => (storage.slice? offset.toNat last.toNat).elim (.error .trap) .ok
  | none => .error (.fault (.outsideStorage offset.toNat length.toNat storage.length))

theorem copyOut_eq_ok_iff {storage bytes : Bytes} {offset length : Nat} :
    copyOut storage offset length = .ok bytes ↔
      storage.slice? offset (offset + length) = some bytes := by
  unfold copyOut
  cases storage.slice? offset (offset + length) <;> simp

theorem copyOut_eq_error_iff {storage : Bytes} {offset length : Nat} {fault : Fault} :
    copyOut storage offset length = .error fault ↔
      storage.slice? offset (offset + length) = none ∧
        fault = .outsideStorage offset length storage.length := by
  unfold copyOut
  cases storage.slice? offset (offset + length) <;> simp [eq_comm]

end BulkLoad
