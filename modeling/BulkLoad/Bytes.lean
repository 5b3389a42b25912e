/-! # Byte strings

A byte string is a list of bytes. Numbers are laid out least significant byte first. A range is
cut out of a string only if it lies inside the string.
-/
namespace BulkLoad

abbrev Bytes := List UInt8

namespace Bytes

/-- The `count` low bytes of a number, least significant first. -/
def littleEndian : Nat → Nat → Bytes
  | 0, _ => []
  | count + 1, value => UInt8.ofNat value :: littleEndian count (value / 256)

/-- The number whose digits to base 256 are the bytes, least significant first. -/
def value : Bytes → Nat
  | [] => 0
  | b :: rest => b.toNat + 256 * value rest

def span : Nat → Nat
  | 0 => 1
  | count + 1 => 256 * span count

/-- The bytes as a two's complement number of their own width. -/
def signedValue (bytes : Bytes) : Int :=
  Int.bmod bytes.value (span bytes.length)

/-- The bytes from `first` up to but not including `last`. -/
def slice? (bytes : Bytes) (first last : Nat) : Option Bytes :=
  if first ≤ last ∧ last ≤ bytes.length then some ((bytes.drop first).take (last - first))
  else none

/-- Replaces the bytes from `start` on by those of `patch`, if they lie inside the string. -/
def overwrite? (bytes : Bytes) (start : Nat) (patch : Bytes) : Option Bytes :=
  if start + patch.length ≤ bytes.length then
    some (bytes.take start ++ patch ++ bytes.drop (start + patch.length))
  else none

@[simp] theorem length_littleEndian (count n : Nat) : (littleEndian count n).length = count := by
  induction count generalizing n with
  | zero => rfl
  | succ count ih => simp [littleEndian, ih]

theorem span_pos (count : Nat) : 0 < span count := by
  induction count with
  | zero => decide
  | succ count ih => simp only [span]; omega

theorem value_littleEndian (count n : Nat) : (littleEndian count n).value = n % span count := by
  induction count generalizing n with
  | zero => simp [littleEndian, value, span, Nat.mod_one]
  | succ count ih =>
    have hb : (UInt8.ofNat n).toNat = n % 256 := UInt8.toNat_ofNat'
    rw [littleEndian, value, ih, hb, span, Nat.mod_mul]

theorem signedValue_littleEndian {count : Nat} {n : Int} (hlow : -(span count : Int) ≤ 2 * n)
    (hhigh : 2 * n < span count) :
    (littleEndian count (n % span count).toNat).signedValue = n := by
  have hpos : (0 : Int) < span count := by
    have := span_pos count
    omega
  have hmod := Int.emod_nonneg n (Int.ne_of_gt hpos)
  have hlt := Int.emod_lt_of_pos n hpos
  have hv : ((littleEndian count (n % span count).toNat).value : Int) = n % span count := by
    rw [value_littleEndian, Nat.mod_eq_of_lt (by omega)]
    omega
  rw [signedValue, hv, length_littleEndian, Int.emod_bmod]
  exact Int.bmod_eq_of_le_mul_two (by omega) (by omega)

theorem length_of_slice? {bytes part : Bytes} {first last : Nat}
    (h : bytes.slice? first last = some part) : part.length = last - first := by
  unfold slice? at h
  split at h
  · cases h
    simp only [List.length_take, List.length_drop]
    omega
  · cases h

theorem slice?_of_le {bytes : Bytes} {first last : Nat} (hlow : first ≤ last)
    (hhigh : last ≤ bytes.length) :
    bytes.slice? first last = some ((bytes.drop first).take (last - first)) :=
  if_pos ⟨hlow, hhigh⟩

theorem slice?_eq_some_iff {bytes part : Bytes} {first last : Nat} :
    bytes.slice? first last = some part ↔
      ∃ before after, bytes = before ++ part ++ after ∧ before.length = first ∧
        before.length + part.length = last := by
  constructor
  · intro h
    have hlength := length_of_slice? h
    unfold slice? at h
    split at h
    · next hrange =>
      obtain ⟨hlow, hhigh⟩ := hrange
      have hpart := Option.some.inj h
      refine ⟨bytes.take first, bytes.drop last, ?_, ?_, ?_⟩
      · have hrest : (bytes.drop first).drop (last - first) = bytes.drop last := by
          rw [List.drop_drop, Nat.add_sub_cancel' hlow]
        rw [← hpart, ← hrest, List.append_assoc, List.take_append_drop, List.take_append_drop]
      · rw [List.length_take]
        omega
      · rw [List.length_take, hlength]
        omega
    · cases h
  · rintro ⟨before, after, rfl, rfl, rfl⟩
    have hlast : before.length + part.length ≤ (before ++ part ++ after).length := by
      simp only [List.length_append]
      omega
    rw [slice?_of_le (Nat.le_add_right _ _) hlast, List.append_assoc, List.drop_left,
      Nat.add_sub_cancel_left, List.take_left]

theorem slice?_eq_none_iff {bytes : Bytes} {first last : Nat} :
    bytes.slice? first last = none ↔ last < first ∨ bytes.length < last := by
  unfold slice?
  split
  · next hrange =>
    simp only [reduceCtorEq, false_iff]
    omega
  · next hrange =>
    simp only [true_iff]
    omega

theorem overwrite?_of_le {bytes patch : Bytes} {start : Nat}
    (h : start + patch.length ≤ bytes.length) :
    bytes.overwrite? start patch =
      some (bytes.take start ++ patch ++ bytes.drop (start + patch.length)) :=
  if_pos h

theorem overwrite?_eq_some_iff {bytes patch result : Bytes} {start : Nat} :
    bytes.overwrite? start patch = some result ↔ start + patch.length ≤ bytes.length ∧
      bytes.take start ++ patch ++ bytes.drop (start + patch.length) = result := by
  simp only [overwrite?, Option.ite_none_right_eq_some, Option.some.injEq]

theorem length_of_overwrite? {bytes patch result : Bytes} {start : Nat}
    (h : bytes.overwrite? start patch = some result) : result.length = bytes.length := by
  obtain ⟨hfits, rfl⟩ := overwrite?_eq_some_iff.mp h
  simp only [List.length_append, List.length_take, List.length_drop]
  omega

theorem slice?_overwrite?_self {bytes patch result : Bytes} {start : Nat}
    (h : bytes.overwrite? start patch = some result) :
    result.slice? start (start + patch.length) = some patch := by
  have hlength := length_of_overwrite? h
  obtain ⟨hfits, rfl⟩ := overwrite?_eq_some_iff.mp h
  rw [slice?_of_le (by omega) (by omega), List.append_assoc, List.drop_append_of_le_length]
  · simp
  · simp only [List.length_take]
    omega

theorem slice?_overwrite?_before {bytes patch result : Bytes} {start first last : Nat}
    (h : bytes.overwrite? start patch = some result) (hlast : last ≤ start) :
    result.slice? first last = bytes.slice? first last := by
  have hlength := length_of_overwrite? h
  obtain ⟨hfits, rfl⟩ := overwrite?_eq_some_iff.mp h
  unfold slice?
  rw [hlength]
  split
  · next hrange =>
    rw [List.append_assoc, List.drop_append_of_le_length, List.take_append_of_le_length]
    · rw [List.drop_take, List.take_take, Nat.min_eq_left (by omega)]
    · simp only [List.length_drop, List.length_take]
      omega
    · simp only [List.length_take]
      omega
  · rfl

end Bytes

end BulkLoad
