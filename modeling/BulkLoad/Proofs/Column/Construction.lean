import BulkLoad.Proofs.Column.Position

/-! # How columns come about

A column starts from data of one of nine kinds, and may be marked with a bitmap any number of
times. Whatever was done, its layout is the one that its type asks for, and the bitmap given last
covers all rows. So its cursors yield one value for each row and never trap.
-/
namespace BulkLoad

namespace Storage

theorem head?_boundaries (start : Nat) (values : List Bytes) :
    (boundaries start values).head? = some start := by
  cases values <;> rfl

theorem getLast?_boundaries (start : Nat) (values : List Bytes) :
    (boundaries start values).getLast? = some (start + values.flatten.length) := by
  induction values generalizing start with
  | nil => rfl
  | cons value rest ih =>
    rw [boundaries, List.getLast?_cons, ih, Option.getD_some, List.flatten_cons,
      List.length_append, Nat.add_assoc]

theorem isChain_boundaries (start : Nat) {values : List Bytes}
    (hshort : ∀ value ∈ values, value.length ≤ maxValueBytes) :
    (boundaries start values).IsChain fun first last =>
      first ≤ last ∧ last - first ≤ maxValueBytes := by
  induction values generalizing start with
  | nil => exact List.isChain_singleton start
  | cons value rest ih =>
    refine List.isChain_cons.mpr ⟨?_, ih _ fun other hother =>
      hshort other (List.mem_cons_of_mem value hother)⟩
    rw [head?_boundaries]
    rintro _ ⟨⟩
    have hvalue := hshort value List.mem_cons_self
    omega

end Storage

namespace Column

/-- What a column is made from. -/
inductive Origin
  | bytes (type : ColumnType) (bytes : Bytes)
  | values (type : ColumnType) (values : List Bytes)
  | int32s (values : List Int32)
  | int64s (values : List Int64)
  | float64s (patterns : List UInt64)
  | bools (values : List Bool)
  | binaries (values : List Bytes)
  | utf8 (texts : List String)
  | utf16 (texts : List String)

def Origin.make (name : String) : Origin → Except Fault Column
  | bytes type content => ofBytes name type content
  | values type items => ofValues name type items
  | int32s numbers => ofInt32s name numbers
  | int64s numbers => ofInt64s name numbers
  | float64s patterns => ofFloat64s name patterns
  | bools flags => ofBools name flags
  | binaries items => ofBinaries name items
  | utf8 texts => ofUtf8 name texts
  | utf16 texts => ofUtf16 name texts

theorem Origin.of_make {origin : Origin} {name : String} {column : Column}
    (h : origin.make name = .ok column) :
    (∃ type bytes, ofBytes name type bytes = .ok column) ∨
      ∃ type values, ofValues name type values = .ok column := by
  cases origin with
  | bytes | int32s | int64s | float64s | bools =>
    simp only [make, ofInt32s, ofInt64s, ofFloat64s, ofBools] at h
    exact .inl ⟨_, _, h⟩
  | values | binaries | utf8 | utf16 =>
    simp only [make, ofBinaries, ofUtf8, ofUtf16] at h
    exact .inr ⟨_, _, h⟩

theorem Origin.wellFormed_make {origin : Origin} {name : String} {column : Column}
    (h : origin.make name = .ok column) : column.WellFormed := by
  rcases of_make h with ⟨type, bytes, hbytes⟩ | ⟨type, values, hvalues⟩
  · exact wellFormed_ofBytes hbytes
  · exact wellFormed_ofValues hvalues

theorem Origin.nulls_make {origin : Origin} {name : String} {column : Column}
    (h : origin.make name = .ok column) : column.nulls = none := by
  rcases of_make h with ⟨type, bytes, hbytes⟩ | ⟨type, values, hvalues⟩
  · obtain ⟨width, -, -, rfl⟩ := ofBytes_eq_ok_iff.mp hbytes
    rfl
  · obtain ⟨-, -, rfl⟩ := ofValues_eq_ok_iff.mp hvalues
    rfl

def markAll (column : Column) (bitmaps : List (List Bool)) : Except Fault Column :=
  bitmaps.foldlM markNulls column

/-- Every bitmap must have a flag for each row, and only the last one stays. -/
theorem markAll_eq_ok_iff {column marked : Column} {bitmaps : List (List Bool)} :
    column.markAll bitmaps = .ok marked ↔
      (∀ nulls ∈ bitmaps, nulls.length = column.rows) ∧
        marked = { column with nulls := bitmaps.getLast?.or column.nulls } := by
  induction bitmaps generalizing column with
  | nil =>
    have hsame : column.markAll [] = .ok column := rfl
    simp [hsame, eq_comm]
  | cons first rest ih =>
    by_cases hfirst : first.length = column.rows
    · have hmarked := markNulls_eq_ok_iff.mpr ⟨hfirst, rfl⟩
      have hstep : column.markAll (first :: rest) =
          ({ column with nulls := some first } : Column).markAll rest := by
        simp only [markAll, List.foldlM_cons, hmarked]
        rfl
      rw [hstep, ih, List.forall_mem_cons, List.getLast?_cons, Option.or_some, Option.some_or]
      exact ⟨fun h => ⟨⟨hfirst, h.1⟩, h.2⟩, fun h => ⟨h.1.2, h.2⟩⟩
    · have hstep : column.markAll (first :: rest) =
          .error (.invalidColumn column.name (.bitmapLength first.length column.rows)) := by
        simp only [markAll, List.foldlM_cons, markNulls, if_neg hfirst]
        rfl
      simp [hstep, hfirst]

/-- A type of fixed width has cuts of that width without a rest. Any other type has boundaries of
short values, from the first byte to the end. A bitmap has a flag for each row. -/
structure Sound (column : Column) : Prop where
  fixed : ∀ width, column.type.width? = some width →
    0 < width ∧ ∃ bytes, column.storage = .fixed width bytes ∧ width ∣ bytes.length
  varying : column.type.width? = none →
    ∃ offsets bytes, column.storage = .varying offsets bytes ∧
      offsets.length = column.rows + 1 ∧ offsets.head? = some 0 ∧
      (offsets.IsChain fun first last => first ≤ last ∧ last - first ≤ maxValueBytes) ∧
      offsets.getLast? = some bytes.length
  flags : ∀ nulls, column.nulls = some nulls → nulls.length = column.rows

theorem WellFormed.sound {column : Column} (h : column.WellFormed) : column.Sound := by
  refine ⟨fun width hwidth => ?_, fun hwidth => ?_, h.flags⟩
  · obtain ⟨name, type, storage, nulls⟩ := column
    cases h.fits with
    | @fixed _ bytes hsame hcut =>
      obtain rfl := Option.some.inj (hsame.symm.trans hwidth)
      exact ⟨(ColumnType.width?_bounds hwidth).1, bytes, rfl, Nat.dvd_of_mod_eq_zero hcut⟩
    | packed hnone =>
      rw [hnone] at hwidth
      cases hwidth
  · obtain ⟨name, type, storage, nulls⟩ := column
    cases h.fits with
    | fixed hsome =>
      rw [hsome] at hwidth
      cases hwidth
    | @packed values _ hshort =>
      refine ⟨Storage.boundaries 0 values, values.flatten, rfl, ?_,
        Storage.head?_boundaries 0 values, Storage.isChain_boundaries 0 hshort, ?_⟩
      · simp [rows, Storage.rows]
      · rw [Storage.getLast?_boundaries, Nat.zero_add]

theorem WellFormed.markAll {column marked : Column} {bitmaps : List (List Bool)}
    (hcolumn : column.WellFormed) (h : column.markAll bitmaps = .ok marked) :
    marked.WellFormed := by
  obtain ⟨hlengths, rfl⟩ := markAll_eq_ok_iff.mp h
  refine ⟨hcolumn.fits, fun nulls hnulls => ?_⟩
  rcases Option.or_eq_some_iff.mp hnulls with hlast | ⟨-, hbefore⟩
  · exact hlengths nulls (List.mem_of_getLast? hlast)
  · exact hcolumn.flags nulls hbefore

/-- A column made from any data and marked any number of times is sound, its bitmap is the one
given last, and its cursor goes through its rows without a trap. -/
theorem sound_of_make {origin : Origin} {name : String} {plain : Column}
    (h : origin.make name = .ok plain) (bitmaps : List (List Bool)) :
    ((∃ column, plain.markAll bitmaps = .ok column) ↔
      ∀ nulls ∈ bitmaps, nulls.length = plain.storage.rows) ∧
    ∀ column, plain.markAll bitmaps = .ok column →
      column.Sound ∧ column.nulls = bitmaps.getLast? ∧
      (∀ nulls, (∃ marked, column.markNulls nulls = .ok marked) ↔
        nulls.length = column.storage.rows) ∧
      column.cursor.size = column.rows ∧
      column.cursor.walk.1 = (List.range column.rows).map (fun row => .ok (column.cell row)) ++
        [.error (.fault (.cursorExhausted column.rows column.rows))] ∧
      column.cursor.walk.1.countP Except.isOk = column.rows ∧
      ∀ reached, Relation.ReflTransGen (fun earlier later => earlier.next = .ok later)
          column.cursor reached →
        reached.current ≠ .error .trap ∧ reached.size = column.rows := by
  refine ⟨⟨fun ⟨column, hcolumn⟩ => (markAll_eq_ok_iff.mp hcolumn).1,
    fun hlengths => ⟨_, markAll_eq_ok_iff.mpr ⟨hlengths, rfl⟩⟩⟩, fun column hcolumn => ?_⟩
  have hwell := (Origin.wellFormed_make h).markAll hcolumn
  have hnulls : column.nulls = bitmaps.getLast? := by
    obtain ⟨-, rfl⟩ := markAll_eq_ok_iff.mp hcolumn
    simp [Origin.nulls_make h]
  refine ⟨hwell.sound, hnulls, fun nulls => ?_, hwell.size_cursor,
    congrArg Prod.fst hwell.walk_cursor, hwell.countP_walk_cursor, fun reached hreached => ?_⟩
  · exact ⟨fun ⟨marked, hmarked⟩ => (markNulls_eq_ok_iff.mp hmarked).1,
      fun hlength => ⟨_, markNulls_eq_ok_iff.mpr ⟨hlength, rfl⟩⟩⟩
  · obtain ⟨row, -, rfl⟩ := hwell.exists_row_of_advances hreached
    exact ⟨hwell.current_cursorAt_ne_trap row, hwell.size_cursorAt row⟩

theorem sound_of_make_sample :
    let plain : Column := ⟨"n", .int, .fixed 4 [1, 0, 0, 0, 2, 0, 0, 0], none⟩
    Origin.make "n" (.int32s [1, 2]) = .ok plain ∧
      ∃ column, plain.markAll [[true, true], [true, false]] = .ok column ∧ column.Sound ∧
        column.cursor.walk.1 = [.ok .null, .ok (.bytes [2, 0, 0, 0]),
          .error (.fault (.cursorExhausted 2 2))] := by
  intro plain
  have hmake : Origin.make "n" (.int32s [1, 2]) = .ok plain := rfl
  obtain ⟨⟨-, hall⟩, hsound⟩ := sound_of_make hmake [[true, true], [true, false]]
  obtain ⟨column, hcolumn⟩ := hall (by decide)
  obtain ⟨hcolumn', -, -, -, hwalk, -⟩ := hsound column hcolumn
  refine ⟨hmake, column, hcolumn, hcolumn', hwalk.trans ?_⟩
  obtain ⟨-, rfl⟩ := markAll_eq_ok_iff.mp hcolumn
  rfl

end Column

end BulkLoad
