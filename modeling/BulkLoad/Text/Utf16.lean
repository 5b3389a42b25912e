import BulkLoad.Bytes

/-! # UTF-16

A character below 0x10000 is one 16-bit unit, any other is a pair of surrogates. Decoding pairs
the surrogates up again and refuses one that stands alone.
-/
namespace BulkLoad.Text.Utf16

def units (c : Char) : List UInt16 :=
  if c.toNat < 0x10000 then [UInt16.ofNat c.toNat]
  else
    let rest := c.toNat - 0x10000
    [UInt16.ofNat (0xD800 + rest / 0x400), UInt16.ofNat (0xDC00 + rest % 0x400)]

def encode (text : List Char) : List UInt16 :=
  text.flatMap units

def isHigh (unit : UInt16) : Bool := 0xD800 ≤ unit && unit < 0xDC00
def isLow (unit : UInt16) : Bool := 0xDC00 ≤ unit && unit < 0xE000

def combine (high low : UInt16) : Char :=
  Char.ofNat (0x10000 + (high.toNat - 0xD800) * 0x400 + (low.toNat - 0xDC00))

def decode : List UInt16 → Option (List Char)
  | [] => some []
  | [unit] => if isHigh unit || isLow unit then none else some [Char.ofNat unit.toNat]
  | unit :: next :: rest =>
    if isHigh unit then
      if isLow next then (decode rest).map (combine unit next :: ·) else none
    else if isLow unit then none
    else (decode (next :: rest)).map (Char.ofNat unit.toNat :: ·)

/-- Each unit as two bytes, the low one first. -/
def toBytes (units : List UInt16) : Bytes :=
  units.flatMap fun unit => Bytes.littleEndian 2 unit.toNat

/-- Pairs bytes up into units; an odd byte is refused. -/
def ofBytes : Bytes → Option (List UInt16)
  | [] => some []
  | [_] => none
  | low :: high :: rest => (ofBytes rest).map (UInt16.ofNat (low.toNat + 256 * high.toNat) :: ·)

theorem units_of_lt {c : Char} (h : c.toNat < 0x10000) : units c = [UInt16.ofNat c.toNat] :=
  if_pos h

theorem toNat_cases (c : Char) : c.toNat < 0xD800 ∨ (0xDFFF < c.toNat ∧ c.toNat < 0x110000) := by
  rcases c.valid with h | h
  · exact Or.inl h
  · exact Or.inr h

theorem ofNat_toNat_unit {n : Nat} (h : n < 0x10000) : (UInt16.ofNat n).toNat = n :=
  UInt16.toNat_ofNat_of_lt' h

theorem isHigh_iff (u : UInt16) : isHigh u = true ↔ 0xD800 ≤ u.toNat ∧ u.toNat < 0xDC00 := by
  simp [isHigh, UInt16.le_iff_toNat_le, UInt16.lt_iff_toNat_lt]

theorem isLow_iff (u : UInt16) : isLow u = true ↔ 0xDC00 ≤ u.toNat ∧ u.toNat < 0xE000 := by
  simp [isLow, UInt16.le_iff_toNat_le, UInt16.lt_iff_toNat_lt]

theorem decode_single {c : Char} (h : c.toNat < 0x10000) (rest : List UInt16) :
    decode (UInt16.ofNat c.toNat :: rest) = (decode rest).map (c :: ·) := by
  have hu := ofNat_toNat_unit h
  have hhigh : isHigh (UInt16.ofNat c.toNat) = false := by
    rw [Bool.eq_false_iff, ne_eq, isHigh_iff, hu]
    rcases toNat_cases c with h | h <;> omega
  have hlow : isLow (UInt16.ofNat c.toNat) = false := by
    rw [Bool.eq_false_iff, ne_eq, isLow_iff, hu]
    rcases toNat_cases c with h | h <;> omega
  cases rest with
  | nil => simp [decode, hhigh, hlow, hu, Char.ofNat_toNat]
  | cons next rest => simp [decode, hhigh, hlow, hu, Char.ofNat_toNat]

/-- The two numbers of a pair are units, so they stay as they are. -/
theorem toNat_surrogates (c : Char) :
    (UInt16.ofNat (0xD800 + (c.toNat - 0x10000) / 0x400)).toNat =
        0xD800 + (c.toNat - 0x10000) / 0x400 ∧
      (UInt16.ofNat (0xDC00 + (c.toNat - 0x10000) % 0x400)).toNat =
        0xDC00 + (c.toNat - 0x10000) % 0x400 := by
  have hc : c.toNat < 0x110000 := by rcases toNat_cases c with h | h <;> omega
  exact ⟨ofNat_toNat_unit (by omega), ofNat_toNat_unit (by omega)⟩

theorem decode_pair {c : Char} (h : ¬ c.toNat < 0x10000) (rest : List UInt16) :
    decode (units c ++ rest) = (decode rest).map (c :: ·) := by
  have hc : c.toNat < 0x110000 := by rcases toNat_cases c with h | h <;> omega
  obtain ⟨hh, hl⟩ := toNat_surrogates c
  have high : isHigh (UInt16.ofNat (0xD800 + (c.toNat - 0x10000) / 0x400)) = true := by
    rw [isHigh_iff, hh]; omega
  have low : isLow (UInt16.ofNat (0xDC00 + (c.toNat - 0x10000) % 0x400)) = true := by
    rw [isLow_iff, hl]; omega
  have hcombine : combine (UInt16.ofNat (0xD800 + (c.toNat - 0x10000) / 0x400))
      (UInt16.ofNat (0xDC00 + (c.toNat - 0x10000) % 0x400)) = c := by
    have hn : 0x10000 + (0xD800 + (c.toNat - 0x10000) / 0x400 - 0xD800) * 0x400 +
        (0xDC00 + (c.toNat - 0x10000) % 0x400 - 0xDC00) = c.toNat := by omega
    rw [combine, hh, hl, hn, Char.ofNat_toNat]
  simp only [units, if_neg h, List.cons_append, List.nil_append, decode, high, low, hcombine,
    ↓reduceIte]

theorem decode_encode (text : List Char) : decode (encode text) = some text := by
  induction text with
  | nil => rfl
  | cons c rest ih =>
    have hcons : encode (c :: rest) = units c ++ encode rest := rfl
    rw [hcons]
    by_cases h : c.toNat < 0x10000
    · rw [units_of_lt h, List.singleton_append, decode_single h, ih]
      rfl
    · rw [decode_pair h, ih]
      rfl

theorem zero_mem_units_iff {c : Char} : 0 ∈ units c ↔ c = Char.ofNat 0 := by
  by_cases h : c.toNat < 0x10000
  · have hzero : (0 : UInt16) = UInt16.ofNat c.toNat ↔ c.toNat = 0 := by
      rw [← UInt16.toNat_inj, ofNat_toNat_unit h, eq_comm]
      rfl
    rw [units_of_lt h, List.mem_singleton, hzero]
    constructor
    · intro hc
      rw [← hc, Char.ofNat_toNat]
    · rintro rfl
      rfl
  · obtain ⟨hh, hl⟩ := toNat_surrogates c
    have hhigh : (0 : UInt16) ≠ UInt16.ofNat (0xD800 + (c.toNat - 0x10000) / 0x400) := by
      rw [ne_eq, ← UInt16.toNat_inj, hh, UInt16.toNat_zero]
      omega
    have hlow : (0 : UInt16) ≠ UInt16.ofNat (0xDC00 + (c.toNat - 0x10000) % 0x400) := by
      rw [ne_eq, ← UInt16.toNat_inj, hl, UInt16.toNat_zero]
      omega
    have hne : c ≠ Char.ofNat 0 := by
      rintro rfl
      exact h (by decide)
    simp only [units, if_neg h, List.mem_cons, hhigh, hlow, List.not_mem_nil, or_self, hne]

theorem zero_mem_encode_iff {text : List Char} : 0 ∈ encode text ↔ Char.ofNat 0 ∈ text := by
  simp only [encode, List.mem_flatMap, zero_mem_units_iff, exists_eq_right]

theorem length_toBytes (units : List UInt16) : (toBytes units).length = 2 * units.length := by
  induction units with
  | nil => rfl
  | cons unit rest ih =>
    have hcons : toBytes (unit :: rest) =
        Bytes.littleEndian 2 unit.toNat ++ toBytes rest := rfl
    rw [hcons, List.length_append, Bytes.length_littleEndian, ih, List.length_cons]
    omega

theorem ofBytes_toBytes (units : List UInt16) : ofBytes (toBytes units) = some units := by
  induction units with
  | nil => rfl
  | cons unit rest ih =>
    have hcons : toBytes (unit :: rest) =
        UInt8.ofNat unit.toNat :: UInt8.ofNat (unit.toNat / 256) :: toBytes rest := rfl
    have hlow : (UInt8.ofNat unit.toNat).toNat = unit.toNat % 256 := UInt8.toNat_ofNat'
    have hhigh : (UInt8.ofNat (unit.toNat / 256)).toNat = unit.toNat / 256 % 256 :=
      UInt8.toNat_ofNat'
    have hunit : unit.toNat % 256 + 256 * (unit.toNat / 256 % 256) = unit.toNat := by
      have := unit.toNat_lt
      omega
    rw [hcons, ofBytes, ih, hlow, hhigh, hunit, UInt16.ofNat_toNat]
    rfl

end BulkLoad.Text.Utf16
