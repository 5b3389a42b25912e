import BulkLoad.Proofs.Column.Copying

/-! # Columns of numbers

A column of numbers or flags can be made of any list of them, and it keeps them: every row has the
width of the type and its bytes say which number was given for the row, signed numbers in two's
complement and floating-point numbers by their bit patterns. So lists that differ are stored
differently.
-/
namespace BulkLoad

namespace Bytes

theorem signedValue_littleEndian_eq_bmod (count n : Nat) :
    (littleEndian count n).signedValue = Int.bmod n (span count) := by
  rw [signedValue, value_littleEndian, length_littleEndian, Int.natCast_mod, Int.emod_bmod]

theorem signedValue_int32 (number : Int32) :
    (littleEndian 4 number.toUInt32.toNat).signedValue = number.toInt := by
  rw [signedValue_littleEndian_eq_bmod]
  exact (BitVec.toInt_eq_toNat_bmod number.toBitVec).symm

theorem signedValue_int64 (number : Int64) :
    (littleEndian 8 number.toUInt64.toNat).signedValue = number.toInt := by
  rw [signedValue_littleEndian_eq_bmod]
  exact (BitVec.toInt_eq_toNat_bmod number.toBitVec).symm

theorem value_uint64 (pattern : UInt64) :
    (littleEndian 8 pattern.toNat).value = pattern.toNat := by
  rw [value_littleEndian]
  exact Nat.mod_eq_of_lt pattern.toNat_lt

theorem value_bool (flag : Bool) : value [flag.toUInt8] = flag.toNat := by
  cases flag <;> rfl

end Bytes

namespace Storage

variable {values : List Bytes} {width : Nat}

theorem length_flatten_of_width (h : ∀ value ∈ values, value.length = width) :
    values.flatten.length = values.length * width := by
  induction values with
  | nil => simp
  | cons value rest ih =>
    obtain ⟨hvalue, hrest⟩ := List.forall_mem_cons.mp h
    rw [List.flatten_cons, List.length_append, hvalue, ih hrest, List.length_cons, Nat.succ_mul,
      Nat.add_comm]

theorem rows_fixed_flatten (hwidth : 0 < width) (h : ∀ value ∈ values, value.length = width) :
    (fixed width values.flatten).rows = values.length := by
  rw [rows, length_flatten_of_width h, Nat.mul_div_cancel _ hwidth]

theorem value_fixed_flatten (h : ∀ value ∈ values, value.length = width) {row : Nat}
    (hrow : row < values.length) : (fixed width values.flatten).value row = values[row] := by
  have hfirst : (boundaries 0 values).getD row 0 = row * width := by
    have hfront : ∀ value ∈ values.take row, value.length = width := fun value hvalue =>
      h value (List.mem_of_mem_take hvalue)
    rw [getD_boundaries 0 values hrow.le, Nat.zero_add, length_flatten_of_width hfront,
      List.length_take_of_le hrow.le]
  have hlength : values[row].length = width := h _ (List.getElem_mem hrow)
  have hvalue := value_pack values hrow
  simp only [value, pack, getD_boundaries_succ values hrow, hfirst, hlength,
    Nat.add_sub_cancel_left] at hvalue
  exact hvalue

end Storage

namespace Column

section Values

variable {name : String} {type : ColumnType} {width : Nat} {values : List Bytes} {column : Column}

theorem eq_of_ofBytes {bytes : Bytes} (hwidth : type.width? = some width)
    (h : ofBytes name type bytes = .ok column) :
    column = ⟨name, type, .fixed width bytes, none⟩ := by
  obtain ⟨_, hsame, -, rfl⟩ := ofBytes_eq_ok_iff.mp h
  obtain rfl := Option.some.inj (hsame.symm.trans hwidth)
  rfl

theorem exists_ofBytes_flatten (hwidth : type.width? = some width)
    (hall : ∀ value ∈ values, value.length = width) :
    ∃ column, ofBytes name type values.flatten = .ok column := by
  refine exists_ofBytes_iff.mpr ⟨width, hwidth, ?_⟩
  rw [Storage.length_flatten_of_width hall]
  exact Nat.dvd_mul_left width values.length

theorem rows_ofBytes_flatten (hwidth : type.width? = some width)
    (hall : ∀ value ∈ values, value.length = width)
    (h : ofBytes name type values.flatten = .ok column) : column.rows = values.length := by
  rw [eq_of_ofBytes hwidth h]
  exact Storage.rows_fixed_flatten (ColumnType.width?_bounds hwidth).1 hall

theorem value_ofBytes_flatten (hwidth : type.width? = some width)
    (hall : ∀ value ∈ values, value.length = width)
    (h : ofBytes name type values.flatten = .ok column) {row : Nat} (hrow : row < values.length) :
    column.storage.value row = values[row] := by
  rw [eq_of_ofBytes hwidth h]
  exact Storage.value_fixed_flatten hall hrow

theorem copyRow_ofBytes_flatten (hwidth : type.width? = some width)
    (hall : ∀ value ∈ values, value.length = width)
    (h : ofBytes name type values.flatten = .ok column) {row : Nat} (hrow : row < values.length) :
    column.copyRow row = .ok (.bytes values[row]) := by
  have hrows : row < column.rows := by rwa [rows_ofBytes_flatten hwidth hall h]
  have hshown : column.isNullAt row = false := by
    rw [eq_of_ofBytes hwidth h]
    rfl
  have hvalue := value_ofBytes_flatten hwidth hall h hrow
  rw [(wellFormed_ofBytes h).copyRow_of_lt hrows, cell, hshown, hvalue]
  rfl

theorem eq_of_ofBytes_flatten {name' : String} {values' : List Bytes} {column' : Column}
    (hwidth : type.width? = some width) (hall : ∀ value ∈ values, value.length = width)
    (hall' : ∀ value ∈ values', value.length = width)
    (h : ofBytes name type values.flatten = .ok column)
    (h' : ofBytes name' type values'.flatten = .ok column')
    (hsame : column.storage = column'.storage) : values = values' := by
  have hcount : values.length = values'.length := by
    rw [← rows_ofBytes_flatten hwidth hall h, ← rows_ofBytes_flatten hwidth hall' h', rows, rows,
      hsame]
  refine List.ext_getElem hcount fun row hrow hrow' => ?_
  rw [← value_ofBytes_flatten hwidth hall h hrow, ← value_ofBytes_flatten hwidth hall' h' hrow',
    hsame]

end Values

/-- What it means that the columns of one kind keep their numbers. Every list of numbers has a
column with a row for each; the bytes of a copied row have the width of the type and are read as
what the number means; the rows end with the list; and another list is stored in another way. -/
structure KeepsNumbers {α δ : Type} (make : String → List α → Except Fault Column)
    (type : ColumnType) (read : Bytes → δ) (meaning : α → δ) : Prop where
  made : ∀ name numbers, ∃ column, make name numbers = .ok column ∧ column.type = type ∧
    column.rows = numbers.length
  kept : ∀ name numbers column, make name numbers = .ok column → ∀ row number,
    numbers[row]? = some number → ∃ content, column.copyRow row = .ok (.bytes content) ∧
      type.width? = some content.length ∧ read content = meaning number
  ended : ∀ name numbers column, make name numbers = .ok column → ∀ row, numbers.length ≤ row →
    column.copyRow row = .error (.cursorExhausted row numbers.length)
  distinct : Function.Injective meaning
  apart : ∀ name name' numbers numbers' column column', make name numbers = .ok column →
    make name' numbers' = .ok column' → column.storage = column'.storage → numbers = numbers'

/-- Any encoding of one width that can be read back keeps the numbers. -/
theorem keepsNumbers_ofBytes {α δ : Type} {type : ColumnType} {width : Nat} {encoding : α → Bytes}
    {read : Bytes → δ} {meaning : α → δ} (hwidth : type.width? = some width)
    (hlength : ∀ number, (encoding number).length = width)
    (hread : ∀ number, read (encoding number) = meaning number)
    (hmeaning : Function.Injective meaning) :
    KeepsNumbers (fun name (numbers : List α) => ofBytes name type (numbers.map encoding).flatten)
      type read meaning := by
  have hall : ∀ numbers : List α, ∀ value ∈ numbers.map encoding, value.length = width :=
    fun numbers => List.forall_mem_map.mpr fun number _ => hlength number
  refine ⟨fun name numbers => ?_, fun name numbers column hcolumn row number hnumber => ?_,
    fun name numbers column hcolumn row hrow => ?_, hmeaning,
    fun name name' numbers numbers' column column' hcolumn hcolumn' hsame => ?_⟩
  · have hmade : ∃ column, ofBytes name type (numbers.map encoding).flatten = .ok column :=
      exists_ofBytes_flatten hwidth (hall numbers)
    obtain ⟨column, hcolumn⟩ := hmade
    refine ⟨column, hcolumn, ?_, ?_⟩
    · rw [eq_of_ofBytes hwidth hcolumn]
    · rw [rows_ofBytes_flatten hwidth (hall numbers) hcolumn, List.length_map]
  · obtain ⟨hrow, rfl⟩ := List.getElem?_eq_some_iff.mp hnumber
    have hplace : row < (numbers.map encoding).length := by rwa [List.length_map]
    have hcopy := copyRow_ofBytes_flatten hwidth (hall numbers) hcolumn hplace
    rw [List.getElem_map] at hcopy
    exact ⟨_, hcopy, by rw [hwidth, hlength], hread _⟩
  · have hrows : column.rows = numbers.length := by
      rw [rows_ofBytes_flatten hwidth (hall numbers) hcolumn, List.length_map]
    rw [← hrows] at hrow ⊢
    exact (wellFormed_ofBytes hcolumn).copyRow_of_le hrow
  · have hencoding : Function.Injective encoding := fun number other hequal =>
      hmeaning (by rw [← hread, ← hread, hequal])
    have hbytes := eq_of_ofBytes_flatten hwidth (hall numbers) (hall numbers') hcolumn hcolumn'
      hsame
    exact List.map_injective_iff.mpr hencoding hbytes

theorem keepsNumbers_ofInt32s : KeepsNumbers ofInt32s .int Bytes.signedValue Int32.toInt :=
  keepsNumbers_ofBytes rfl (fun _ => Bytes.length_littleEndian 4 _) Bytes.signedValue_int32
    fun _ _ => Int32.toInt_inj.mp

theorem keepsNumbers_ofInt64s : KeepsNumbers ofInt64s .bigInt Bytes.signedValue Int64.toInt :=
  keepsNumbers_ofBytes rfl (fun _ => Bytes.length_littleEndian 8 _) Bytes.signedValue_int64
    fun _ _ => Int64.toInt_inj.mp

theorem keepsNumbers_ofFloat64s : KeepsNumbers ofFloat64s .float Bytes.value UInt64.toNat :=
  keepsNumbers_ofBytes rfl (fun _ => Bytes.length_littleEndian 8 _) Bytes.value_uint64
    fun _ _ => UInt64.toNat_inj.mp

theorem keepsNumbers_ofBools : KeepsNumbers ofBools .bit Bytes.value Bool.toNat := by
  have hmake : ofBools = fun name flags =>
      ofBytes name .bit (flags.map fun flag : Bool => [flag.toUInt8]).flatten := by
    funext name flags
    rw [ofBools, List.map_eq_flatMap, List.flatMap_def]
  have hdistinct : Function.Injective Bool.toNat := by decide
  rw [hmake]
  exact keepsNumbers_ofBytes rfl (fun _ => rfl) Bytes.value_bool hdistinct

/-- Integers, floating-point numbers of any bit pattern and flags are kept as they are. -/
theorem numbers_kept :
    KeepsNumbers ofInt32s .int Bytes.signedValue Int32.toInt ∧
    KeepsNumbers ofInt64s .bigInt Bytes.signedValue Int64.toInt ∧
    KeepsNumbers ofFloat64s .float Bytes.value UInt64.toNat ∧
    KeepsNumbers ofBools .bit Bytes.value Bool.toNat :=
  ⟨keepsNumbers_ofInt32s, keepsNumbers_ofInt64s, keepsNumbers_ofFloat64s, keepsNumbers_ofBools⟩

theorem numbers_kept_sample :
    let least : Column :=
      ⟨"a", .int, .fixed 4 [0x00, 0x00, 0x00, 0x80, 0xFF, 0xFF, 0xFF, 0xFF], none⟩
    let quiet : Column :=
      ⟨"b", .float, .fixed 8 [0x01, 0x00, 0x00, 0x00, 0x00, 0x00, 0xF8, 0x7F], none⟩
    ofInt32s "a" [-2147483648, -1] = .ok least ∧
      (∃ content, least.copyRow 0 = .ok (.bytes content) ∧ content.signedValue = -2147483648) ∧
      least.copyRow 2 = .error (.cursorExhausted 2 2) ∧
      ofFloat64s "b" [0x7FF8000000000001] = .ok quiet ∧
      ∃ content, quiet.copyRow 0 = .ok (.bytes content) ∧ content.value = 0x7FF8000000000001 := by
  intro least quiet
  have hleast : ofInt32s "a" [-2147483648, -1] = .ok least := rfl
  have hquiet : ofFloat64s "b" [0x7FF8000000000001] = .ok quiet := rfl
  obtain ⟨hint32, -, hfloat64, -⟩ := numbers_kept
  obtain ⟨content, hcopy, -, hread⟩ := hint32.kept _ _ _ hleast 0 _ rfl
  obtain ⟨pattern, hcopy', -, hread'⟩ := hfloat64.kept _ _ _ hquiet 0 _ rfl
  exact ⟨hleast, ⟨content, hcopy, hread⟩, hint32.ended _ _ _ hleast 2 (by decide), hquiet, pattern,
    hcopy', hread'⟩

end Column

end BulkLoad
