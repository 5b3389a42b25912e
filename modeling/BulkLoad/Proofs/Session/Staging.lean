import BulkLoad.Proofs.Column.Position
import BulkLoad.Session.Slot

/-! # Staging a value and reading it back

A slot keeps its size and its kind for the whole session, and its bytes may hold anything from
earlier rows. Every cell that its column can have fits into it, and after staging the server reads
exactly that cell: a shorter value does not expose the rest of a longer one, and a null hides it.
-/
namespace BulkLoad

/-- The cells that fit into a slot of the column. Without an indicator there is no null and only
one length. -/
def Column.Takes (column : Column) : Cell → Prop
  | .null => column.needsIndicator = true
  | .bytes content => content.length ≤ column.storage.longestValue ∧
      (column.needsIndicator = false → content.length = column.storage.longestValue)

theorem Column.WellFormed.takes_cell {column : Column} (h : column.WellFormed) {row : Nat}
    (hrow : row < column.rows) : column.Takes (column.cell row) := by
  cases hcell : column.cell row with
  | null => exact Column.needsIndicator_of_cell_null hcell
  | bytes content =>
    obtain rfl := Column.cell_eq_bytes hcell
    exact ⟨h.fits.length_value_le hrow, h.length_value hrow⟩

namespace Slot

def lead (column : Column) : Nat := if column.needsIndicator then indicatorBytes else 0

/-- A slot as it was made for the column, whatever it holds by now. -/
structure Suits (column : Column) (slot : Slot) : Prop where
  hasIndicator : slot.hasIndicator = column.needsIndicator
  length : slot.length = lead column + column.storage.longestValue
  room : slot.length ≤ slot.memory.length
  words : wordBytes ∣ slot.memory.length

/-- What the server reads from the slot is the cell. -/
def Shows (column : Column) (cell : Cell) (slot : Slot) : Prop :=
  ∀ position, ((ofColumn column).binding column position).read? slot.bytes = some cell

theorem suits_ofColumn (column : Column) : (ofColumn column).Suits column := by
  refine ⟨rfl, rfl, ?_, ?_⟩
  · simp only [ofColumn, List.length_replicate, wordBytes]
    omega
  · simp only [ofColumn, List.length_replicate]
    exact Nat.dvd_mul_right wordBytes _

theorem length_bytes {column : Column} {slot : Slot} (h : slot.Suits column) :
    slot.bytes.length = slot.length := by
  have := h.room
  simp only [bytes, List.length_take]
  omega

theorem bytes_written {slot : Slot} {patched : Bytes} (hlength : patched.length = slot.length) :
    ({ slot with memory := patched ++ slot.memory.drop slot.length } : Slot).bytes = patched := by
  simp only [bytes, ← hlength, List.take_left']

theorem length_written {slot : Slot} {patched : Bytes} (hlength : patched.length = slot.length)
    (hroom : slot.length ≤ slot.memory.length) :
    (patched ++ slot.memory.drop slot.length).length = slot.memory.length := by
  simp only [List.length_append, List.length_drop, hlength]
  omega

theorem Suits.write? {column : Column} {slot : Slot} (h : slot.Suits column) {start : Nat}
    {patch : Bytes} (hfits : start + patch.length ≤ slot.length) :
    ∃ written, slot.write? start patch = some written ∧ written.Suits column ∧
      slot.bytes.overwrite? start patch = some written.bytes := by
  have hbytes := Bytes.overwrite?_of_le (hfits.trans_eq (length_bytes h).symm)
  have hlength := (Bytes.length_of_overwrite? hbytes).trans (length_bytes h)
  refine ⟨_, by rw [Slot.write?, hbytes, Option.map_some], ?_, ?_⟩
  · have hmemory := length_written hlength h.room
    refine ⟨h.hasIndicator, h.length, h.room.trans_eq hmemory.symm, ?_⟩
    rw [hmemory]
    exact h.words
  · rw [bytes_written hlength, hbytes]

theorem length_indicator (n : Int) : (indicator n).length = indicatorBytes :=
  Bytes.length_littleEndian _ _

theorem signedValue_indicator {n : Int} (hlow : -1 ≤ n) (hhigh : n ≤ maxValueBytes) :
    (indicator n).signedValue = n := by
  have hspan : Bytes.span indicatorBytes = 18446744073709551616 := by decide
  have hmax : (maxValueBytes : Int) = 8000 := rfl
  apply Bytes.signedValue_littleEndian <;> rw [hspan] <;> omega

theorem read?_plain {column : Column} (hplain : column.needsIndicator = false) (position : Nat)
    (location : Bytes) (hshort : column.storage.longestValue ≤ maxValueBytes) :
    ((ofColumn column).binding column position).read? location =
      (location.slice? 0 column.storage.longestValue).map .bytes := by
  have hmax : maxValueBytes < 2 ^ 31 := by decide
  have hlength : (Int32.ofNat column.storage.longestValue).toInt.toNat =
      column.storage.longestValue := by
    rw [Int32.toInt_ofNat_of_lt (by omega), Int.toNat_natCast]
  simp only [Binding.read?, binding, ofColumn, hplain, Bool.false_eq_true, ↓reduceIte,
    Nat.zero_add, hlength]

theorem read?_indicated {column : Column} (hindicated : column.needsIndicator = true)
    (position : Nat) {location : Bytes} {n : Int} (hlow : -1 ≤ n) (hhigh : n ≤ maxValueBytes)
    (hhead : location.slice? 0 indicatorBytes = some (indicator n)) :
    ((ofColumn column).binding column position).read? location =
      if n = nullIndicator then some .null
      else (location.slice? indicatorBytes (indicatorBytes + n.toNat)).map .bytes := by
  have hlength : ¬Int32.ofNat indicatorBytes = 0 := by decide
  have hnull : nullIndicator = -1 := rfl
  simp only [Binding.read?, binding, ofColumn, hindicated, ↓reduceIte, hlength, hhead,
    signedValue_indicator hlow hhigh]
  split
  · rfl
  · rw [if_neg (by omega)]

section Hold

variable {column : Column} {slot : Slot} (h : slot.Suits column)

include h

theorem Suits.hold?_plain (hplain : column.needsIndicator = false) {content : Bytes}
    (hcontent : content.length = column.storage.longestValue)
    (hshort : column.storage.longestValue ≤ maxValueBytes) :
    ∃ staged, slot.hold? (.bytes content) = some staged ∧ staged.Suits column ∧
      staged.Shows column (.bytes content) := by
  have hlength : slot.length = column.storage.longestValue := by
    simpa [lead, hplain] using h.length
  have hfits : 0 + content.length ≤ slot.length := by omega
  obtain ⟨staged, hwrite, hsuits, hbytes⟩ := h.write? hfits
  refine ⟨staged, ?_, hsuits, ?_⟩
  · simp only [Slot.hold?, h.hasIndicator, hplain, hwrite]
  · intro position
    have hslice := Bytes.slice?_overwrite?_self hbytes
    rw [Nat.zero_add, hcontent] at hslice
    rw [read?_plain hplain position _ hshort, hslice, Option.map_some]

/-- A null leaves the bytes of older values behind its indicator, and they are not read. -/
theorem Suits.hold?_null (hindicated : column.needsIndicator = true) :
    ∃ staged, slot.hold? .null = some staged ∧ staged.Suits column ∧
      staged.Shows column .null := by
  have hlength : slot.length = indicatorBytes + column.storage.longestValue := by
    simpa [lead, hindicated] using h.length
  have hfits : 0 + (indicator nullIndicator).length ≤ slot.length := by
    rw [length_indicator]
    omega
  obtain ⟨staged, hwrite, hsuits, hbytes⟩ := h.write? hfits
  refine ⟨staged, ?_, hsuits, ?_⟩
  · simp only [Slot.hold?, h.hasIndicator, hindicated, hwrite]
  · intro position
    have hhead := Bytes.slice?_overwrite?_self hbytes
    rw [Nat.zero_add, length_indicator] at hhead
    rw [read?_indicated hindicated position (by decide) (by decide) hhead, if_pos rfl]

/-- The indicator ends the value before the bytes of an older and longer one. -/
theorem Suits.hold?_indicated (hindicated : column.needsIndicator = true) {content : Bytes}
    (hcontent : content.length ≤ column.storage.longestValue)
    (hshort : column.storage.longestValue ≤ maxValueBytes) :
    ∃ staged, slot.hold? (.bytes content) = some staged ∧ staged.Suits column ∧
      staged.Shows column (.bytes content) := by
  have hlength : slot.length = indicatorBytes + column.storage.longestValue := by
    simpa [lead, hindicated] using h.length
  have hleadFits : 0 + (indicator content.length).length ≤ slot.length := by
    rw [length_indicator]
    omega
  obtain ⟨led, hlead, hled, hleadBytes⟩ := h.write? hleadFits
  have hledLength : led.length = slot.length := hled.length.trans h.length.symm
  have hfits : indicatorBytes + content.length ≤ led.length := by omega
  obtain ⟨staged, hwrite, hsuits, hbytes⟩ := hled.write? hfits
  refine ⟨staged, ?_, hsuits, ?_⟩
  · simp only [Slot.hold?, h.hasIndicator, hindicated, hlead, Option.bind_some, hwrite]
  · intro position
    have hhead : staged.bytes.slice? 0 indicatorBytes = some (indicator content.length) := by
      rw [Bytes.slice?_overwrite?_before hbytes le_rfl]
      simpa [length_indicator] using Bytes.slice?_overwrite?_self hleadBytes
    have hlong : (content.length : Int) ≤ maxValueBytes := by
      exact_mod_cast hcontent.trans hshort
    have hnull : ¬(content.length : Int) = nullIndicator := by
      have : nullIndicator = -1 := rfl
      omega
    rw [read?_indicated hindicated position (by omega) hlong hhead, if_neg hnull,
      Int.toNat_natCast, Bytes.slice?_overwrite?_self hbytes, Option.map_some]

/-- Every cell of the column can be staged, and is read back as it is. -/
theorem Suits.hold? {cell : Cell} (hcell : column.Takes cell)
    (hshort : column.storage.longestValue ≤ maxValueBytes) :
    ∃ staged, slot.hold? cell = some staged ∧ staged.Suits column ∧ staged.Shows column cell := by
  cases cell with
  | null => exact h.hold?_null hcell
  | bytes content =>
    obtain ⟨hfits, hfills⟩ := hcell
    cases hindicator : column.needsIndicator with
    | false => exact h.hold?_plain hindicator (hfills hindicator) hshort
    | true => exact h.hold?_indicated hindicator hfits hshort

end Hold

end Slot

end BulkLoad
