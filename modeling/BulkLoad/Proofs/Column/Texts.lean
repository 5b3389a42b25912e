import BulkLoad.Proofs.Column.Copying
import BulkLoad.Proofs.Column.Packing

/-! # Columns of text

A column of texts keeps them: the bytes of every row are read back as the text that was given for
the row. A text may be as long as its encoding fits into a value, so the limit counts units of the
encoding, not characters, and the first text above it is the one that is named.
-/
namespace BulkLoad

/-- The text whose UTF-16 units stand in the bytes, the low byte of each first. -/
def Text.Utf16.read (content : Bytes) : Option String :=
  ((Text.Utf16.ofBytes content).bind Text.Utf16.decode).map String.ofList

def Text.Utf8.read (content : Bytes) : Option String :=
  (ByteArray.mk content.toArray).utf8Decode?.map fun chars => String.ofList chars.toList

theorem Text.Utf16.read_encode (text : String) :
    Text.Utf16.read (Text.Utf16.toBytes (Text.Utf16.encode text.toList)) = some text := by
  rw [Text.Utf16.read, Text.Utf16.ofBytes_toBytes, Option.bind_some, Text.Utf16.decode_encode,
    Option.map_some, String.ofList_toList]

theorem Text.Utf8.read_toUTF8 (text : String) :
    Text.Utf8.read text.toUTF8.data.toList = some text := by
  have hbytes : ByteArray.mk text.toUTF8.data.toList.toArray = text.toList.utf8Encode := by
    rw [Array.toArray_toList, String.utf8Encode_toList]
    rfl
  rw [Text.Utf8.read, hbytes, List.utf8Decode?_utf8Encode, Option.map_some, List.toList_toArray,
    String.ofList_toList]

namespace Column

/-- What it means that the outcome of making a column keeps the texts. A text takes `width` bytes
for each of its units, and may have `limit` units. -/
structure Keeps (made : Except Fault Column) (name : String) (texts : List String)
    (read : Bytes → Option String) (units : String → Nat) (width limit : Nat) : Prop where
  accepted : (∃ column, made = .ok column) ↔ ∀ text ∈ texts, units text ≤ limit
  rows : ∀ column, made = .ok column → column.rows = texts.length
  kept : ∀ column, made = .ok column → ∀ row text, texts[row]? = some text →
    ∃ content, column.copyRow row = .ok (.bytes content) ∧ read content = some text
  refused : ∀ fault, made = .error fault ↔
    ∃ row text, FirstAt (fun text => limit < units text) texts row text ∧
      fault = .invalidColumn name (.valueTooLong row (width * units text))

section Encoding

variable {type : ColumnType} {encoding : String → Bytes} {read : Bytes → Option String}
  {units : String → Nat} {width limit : Nat}

theorem keeps_ofValues (htype : type.width? = none)
    (hread : ∀ text, read (encoding text) = some text)
    (hlength : ∀ text, (encoding text).length = width * units text) (hwidth : 0 < width)
    (hlimit : width * limit = maxValueBytes) (name : String) (texts : List String) :
    Keeps (ofValues name type (texts.map encoding)) name texts read units width limit := by
  have hshort : ∀ text, (encoding text).length ≤ maxValueBytes ↔ units text ≤ limit := by
    intro text
    rw [hlength, ← hlimit]
    exact Nat.mul_le_mul_left_iff hwidth
  have hlong : ∀ text, TooLong (encoding text) ↔ limit < units text := by
    intro text
    rw [TooLong, ← Nat.not_le, hshort, Nat.not_le]
  refine ⟨?_, fun column hcolumn => ?_, fun column hcolumn row text htext => ?_, fun fault => ?_⟩
  · rw [exists_ofValues_iff, List.forall_mem_map]
    simp only [htype, hshort, true_and]
  · rw [rows_ofValues hcolumn, List.length_map]
  · obtain ⟨hrow, rfl⟩ := List.getElem?_eq_some_iff.mp htext
    have hvalue : row < (texts.map encoding).length := by rwa [List.length_map]
    have hrows : row < column.rows := by rwa [rows_ofValues hcolumn]
    have hcopy := (wellFormed_ofValues hcolumn).copyRow_of_lt hrows
    rw [cell_ofValues hcolumn hvalue, List.getElem_map] at hcopy
    exact ⟨_, hcopy, hread _⟩
  · rw [ofValues_eq_error_iff]
    simp only [htype, ne_eq, not_true_eq_false, false_and, true_and, false_or, firstAt_map, hlong]
    constructor
    · rintro ⟨row, _, ⟨text, hfirst, rfl⟩, rfl⟩
      exact ⟨row, text, hfirst, by rw [hlength]⟩
    · rintro ⟨row, text, hfirst, rfl⟩
      exact ⟨row, _, ⟨text, hfirst, rfl⟩, by rw [hlength]⟩

end Encoding

/-- Texts of at most 4000 UTF-16 units, or of at most 8000 UTF-8 bytes, are kept as they are. -/
theorem texts_kept (name : String) (texts : List String) :
    Keeps (ofUtf16 name texts) name texts Text.Utf16.read
      (fun text => (Text.Utf16.encode text.toList).length) 2 4000 ∧
    Keeps (ofUtf8 name texts) name texts Text.Utf8.read String.utf8ByteSize 1 8000 := by
  constructor
  · refine keeps_ofValues rfl Text.Utf16.read_encode ?_ (by decide) rfl name texts
    exact fun text => Text.Utf16.length_toBytes _
  · refine keeps_ofValues rfl Text.Utf8.read_toUTF8 ?_ (by decide) rfl name texts
    intro text
    rw [Nat.one_mul, Array.length_toList]
    rfl

theorem texts_kept_sample :
    let column : Column :=
      ⟨"n", .nVarChar, .varying [0, 6] [0x68, 0x00, 0x3D, 0xD8, 0x00, 0xDE], none⟩
    ofUtf16 "n" ["h😀"] = .ok column ∧ ∃ content, column.copyRow 0 = .ok (.bytes content) ∧
      Text.Utf16.read content = some "h😀" := by
  intro column
  have hmake : ofUtf16 "n" ["h😀"] = .ok column := rfl
  exact ⟨hmake, (texts_kept "n" ["h😀"]).1.kept column hmake 0 "h😀" rfl⟩

end Column

end BulkLoad
