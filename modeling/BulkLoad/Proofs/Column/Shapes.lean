import BulkLoad.Proofs.Column.Position

/-! # Cursors of any shape

A cursor may be put together from any parts: a width of zero, offsets that run back or leave the
bytes, layers of flags that are longer or shorter than the rows beneath them, a row behind the end.
Below its layers lies a storage. The size is the least of the storage's rows and the lengths of
the layers, and what is read is decided by the layers and by the storage's own cut.
-/
namespace BulkLoad

namespace Storage

/-- A row begins at `first` and ends before `last`. -/
def Spans (storage : Storage) (row first last : Nat) : Prop :=
  match storage with
  | fixed width _ => first = row * width ∧ last = (row + 1) * width
  | varying offsets _ => offsets[row]? = some first ∧ offsets[row + 1]? = some last

/-- The content stands in the storage between the two ends of the row. -/
def Holds (storage : Storage) (row : Nat) (content : Bytes) : Prop :=
  ∃ before after, storage.bytes = before ++ content ++ after ∧
    storage.Spans row before.length (before.length + content.length)

theorem exists_spans {storage : Storage} {row : Nat} (h : row < storage.rows) :
    ∃ first last, storage.Spans row first last ∧
      (storage.cursorAt row).current = Cursor.cut storage.bytes first last := by
  cases storage with
  | fixed width bytes => exact ⟨_, _, ⟨rfl, rfl⟩, if_pos h⟩
  | varying offsets bytes =>
    have hrow : row < offsets.length - 1 := h
    have hfirst : row < offsets.length := by omega
    have hlast : row + 1 < offsets.length := by omega
    refine ⟨offsets[row], offsets[row + 1], ⟨?_, ?_⟩, ?_⟩
    · exact List.getElem?_eq_getElem hfirst
    · exact List.getElem?_eq_getElem hlast
    · simp only [cursorAt, Cursor.current, hrow, ↓reduceIte, Storage.bytes,
        List.getD_eq_getElem _ _ hfirst, List.getD_eq_getElem _ _ hlast]

theorem Spans.unique {storage : Storage} {row first last first' last' : Nat}
    (h : storage.Spans row first last) (h' : storage.Spans row first' last') :
    first = first' ∧ last = last' := by
  cases storage with
  | fixed width bytes => exact ⟨h.1.trans h'.1.symm, h.2.trans h'.2.symm⟩
  | varying offsets bytes =>
    exact ⟨Option.some.inj (h.1.symm.trans h'.1), Option.some.inj (h.2.symm.trans h'.2)⟩

end Storage

namespace Cursor

theorem cut_eq_bytes_iff {bytes content : Bytes} {first last : Nat} :
    cut bytes first last = .ok (.bytes content) ↔ bytes.slice? first last = some content := by
  unfold cut
  cases bytes.slice? first last <;> simp

theorem cut_eq_trap_iff {bytes : Bytes} {first last : Nat} :
    cut bytes first last = .error .trap ↔ bytes.slice? first last = none := by
  unfold cut
  cases bytes.slice? first last <;> simp

theorem cut_ne_null {bytes : Bytes} {first last : Nat} : cut bytes first last ≠ .ok .null := by
  unfold cut
  cases bytes.slice? first last <;> simp

theorem cut_ne_fault {bytes : Bytes} {first last : Nat} {fault : Fault} :
    cut bytes first last ≠ .error (.fault fault) := by
  unfold cut
  cases bytes.slice? first last <;> simp

/-- The storage below all layers. -/
def source : Cursor → Storage
  | fixed bytes width _ => .fixed width bytes
  | varying bytes offsets _ => .varying offsets bytes
  | nullable inner _ => inner.source

/-- The layers of flags, the outermost first. -/
def layers : Cursor → List (List Bool)
  | fixed .. => []
  | varying .. => []
  | nullable inner nulls => nulls :: inner.layers

/-- The same cursor at another row. -/
def moveTo (row : Nat) : Cursor → Cursor
  | fixed bytes width _ => fixed bytes width row
  | varying bytes offsets _ => varying bytes offsets row
  | nullable inner nulls => nullable (inner.moveTo row) nulls

def Hidden (cursor : Cursor) : Prop :=
  ∃ nulls ∈ cursor.layers, nulls[cursor.index]? = some true

@[simp] theorem index_moveTo (cursor : Cursor) (row : Nat) : (cursor.moveTo row).index = row := by
  induction cursor with
  | fixed => rfl
  | varying => rfl
  | nullable inner nulls ih => exact ih

@[simp] theorem size_moveTo (cursor : Cursor) (row : Nat) :
    (cursor.moveTo row).size = cursor.size := by
  induction cursor with
  | fixed => rfl
  | varying => rfl
  | nullable inner nulls ih => simp only [moveTo, size, ih]

@[simp] theorem moveTo_index (cursor : Cursor) : cursor.moveTo cursor.index = cursor := by
  induction cursor with
  | fixed => rfl
  | varying => rfl
  | nullable inner nulls ih => simp only [moveTo, index, ih]

@[simp] theorem moveTo_moveTo (cursor : Cursor) (row later : Nat) :
    (cursor.moveTo row).moveTo later = cursor.moveTo later := by
  induction cursor with
  | fixed => rfl
  | varying => rfl
  | nullable inner nulls ih => simp only [moveTo, ih]

theorem advance_eq_moveTo (cursor : Cursor) :
    cursor.advance = cursor.moveTo (cursor.index + 1) := by
  induction cursor with
  | fixed => rfl
  | varying => rfl
  | nullable inner nulls ih => simp only [advance, moveTo, index, ih]

theorem lt_size_iff {cursor : Cursor} {row : Nat} :
    row < cursor.size ↔ row < cursor.source.rows ∧ ∀ nulls ∈ cursor.layers, row < nulls.length := by
  induction cursor with
  | fixed => simp [size, source, layers, Storage.rows]
  | varying => simp [size, source, layers, Storage.rows]
  | nullable inner nulls ih =>
    simp only [size, source, layers, lt_min_iff, ih, List.forall_mem_cons]
    tauto

theorem isLeast_size (cursor : Cursor) :
    IsLeast {n | n = cursor.source.rows ∨ ∃ nulls ∈ cursor.layers, n = nulls.length}
      cursor.size := by
  constructor
  · induction cursor with
    | fixed => exact .inl rfl
    | varying => exact .inl rfl
    | nullable inner nulls ih =>
      rcases min_choice inner.size nulls.length with hmin | hmin
      · rcases ih with hrows | ⟨below, hbelow, hlength⟩
        · exact .inl (hmin.trans hrows)
        · exact .inr ⟨below, List.mem_cons_of_mem _ hbelow, hmin.trans hlength⟩
      · exact .inr ⟨nulls, List.mem_cons_self, hmin⟩
  · rintro n hn
    by_contra hlt
    obtain ⟨hrows, hlayers⟩ := lt_size_iff.mp (not_le.mp hlt)
    rcases hn with rfl | ⟨nulls, hnulls, rfl⟩
    · exact lt_irrefl _ hrows
    · exact lt_irrefl _ (hlayers nulls hnulls)

theorem current_of_hidden {cursor : Cursor} (hrow : cursor.index < cursor.size)
    (h : cursor.Hidden) : cursor.current = .ok .null := by
  induction cursor with
  | fixed =>
    obtain ⟨nulls, hnulls, -⟩ := h
    cases hnulls
  | varying =>
    obtain ⟨nulls, hnulls, -⟩ := h
    cases hnulls
  | nullable inner nulls ih =>
    have hrow' : inner.index < min inner.size nulls.length := hrow
    obtain ⟨hinner, hnulls⟩ := lt_min_iff.mp hrow'
    simp only [current, hrow', ↓reduceIte]
    split
    · rfl
    · next hshown =>
      obtain ⟨layer, hlayer, hflag⟩ := h
      rcases List.mem_cons.mp hlayer with rfl | hbelow
      · have hflag' : layer[inner.index]? = some true := hflag
        rw [List.getD_eq_getElem?_getD, hflag'] at hshown
        exact absurd rfl hshown
      · exact ih hinner ⟨layer, hbelow, hflag⟩

theorem current_of_not_hidden {cursor : Cursor} (hrow : cursor.index < cursor.size)
    (h : ¬ cursor.Hidden) :
    cursor.current = (cursor.source.cursorAt cursor.index).current := by
  induction cursor with
  | fixed => rfl
  | varying => rfl
  | nullable inner nulls ih =>
    have hrow' : inner.index < min inner.size nulls.length := hrow
    obtain ⟨hinner, hnulls⟩ := lt_min_iff.mp hrow'
    have hflag : nulls.getD inner.index false = false := by
      by_contra htrue
      refine h ⟨nulls, List.mem_cons_self, ?_⟩
      rw [Bool.not_eq_false, List.getD_eq_getElem _ _ hnulls] at htrue
      exact (List.getElem?_eq_getElem hnulls).trans (congrArg some htrue)
    have hbelow : ¬ inner.Hidden := fun ⟨layer, hlayer, hset⟩ =>
      h ⟨layer, List.mem_cons_of_mem _ hlayer, hset⟩
    simp only [current, hrow', ↓reduceIte, hflag, Bool.false_eq_true]
    exact ih hinner hbelow

/-- All that reading can come to. -/
theorem current_cases (cursor : Cursor) :
    (cursor.size ≤ cursor.index ∧
      cursor.current = .error (.fault (.cursorExhausted cursor.index cursor.size))) ∨
    (cursor.index < cursor.size ∧ cursor.Hidden ∧ cursor.current = .ok .null) ∨
    (cursor.index < cursor.size ∧ ¬ cursor.Hidden ∧
      ∃ first last, cursor.source.Spans cursor.index first last ∧
        cursor.current = cut cursor.source.bytes first last) := by
  rcases Nat.lt_or_ge cursor.index cursor.size with hrow | hrow
  · by_cases hhidden : cursor.Hidden
    · exact .inr (.inl ⟨hrow, hhidden, current_of_hidden hrow hhidden⟩)
    · obtain ⟨first, last, hspans, hcut⟩ := Storage.exists_spans (lt_size_iff.mp hrow).1
      exact .inr (.inr ⟨hrow, hhidden, first, last, hspans,
        (current_of_not_hidden hrow hhidden).trans hcut⟩)
  · exact .inl ⟨hrow, current_of_le hrow⟩

theorem current_eq_fault_iff {cursor : Cursor} {fault : Fault} :
    cursor.current = .error (.fault fault) ↔
      cursor.size ≤ cursor.index ∧ fault = .cursorExhausted cursor.index cursor.size := by
  rcases current_cases cursor with ⟨hrow, h⟩ | ⟨hrow, -, h⟩ | ⟨hrow, -, first, last, -, h⟩
  · simp [h, hrow, eq_comm]
  · simp [h, Nat.not_le.mpr hrow]
  · simp [h, cut_ne_fault, Nat.not_le.mpr hrow]

theorem current_eq_null_iff {cursor : Cursor} :
    cursor.current = .ok .null ↔ cursor.index < cursor.size ∧ cursor.Hidden := by
  rcases current_cases cursor with ⟨hrow, h⟩ | ⟨hrow, hhidden, h⟩ |
    ⟨hrow, hshown, first, last, -, h⟩
  · simp [h, Nat.not_lt.mpr hrow]
  · simp [h, hrow, hhidden]
  · simp [h, cut_ne_null, hshown]

theorem current_eq_bytes_iff {cursor : Cursor} {content : Bytes} :
    cursor.current = .ok (.bytes content) ↔ cursor.index < cursor.size ∧ ¬ cursor.Hidden ∧
      cursor.source.Holds cursor.index content := by
  rcases current_cases cursor with ⟨hrow, h⟩ | ⟨hrow, hhidden, h⟩ |
    ⟨hrow, hshown, first, last, hspans, h⟩
  · simp [h, Nat.not_lt.mpr hrow]
  · simp [h, hhidden]
  · rw [h, cut_eq_bytes_iff, Bytes.slice?_eq_some_iff]
    constructor
    · rintro ⟨before, after, hbytes, rfl, rfl⟩
      exact ⟨hrow, hshown, before, after, hbytes, hspans⟩
    · rintro ⟨-, -, before, after, hbytes, hends⟩
      obtain ⟨hfirst, hlast⟩ := hends.unique hspans
      exact ⟨before, after, hbytes, hfirst, hlast⟩

/-- Equal cuts lie inside the bytes, so only offsets can lead to a trap. -/
theorem current_eq_trap_iff {cursor : Cursor} :
    cursor.current = .error .trap ↔ cursor.index < cursor.size ∧ ¬ cursor.Hidden ∧
      ∃ offsets bytes first last, cursor.source = .varying offsets bytes ∧
        offsets[cursor.index]? = some first ∧ offsets[cursor.index + 1]? = some last ∧
        (last < first ∨ bytes.length < last) := by
  rcases current_cases cursor with ⟨hrow, h⟩ | ⟨hrow, hhidden, h⟩ |
    ⟨hrow, hshown, first, last, hspans, h⟩
  · simp [h, Nat.not_lt.mpr hrow]
  · simp [h, hhidden]
  · rw [h, cut_eq_trap_iff, Bytes.slice?_eq_none_iff]
    have hrows := (lt_size_iff.mp hrow).1
    cases hsource : cursor.source with
    | fixed width bytes =>
      rw [hsource] at hspans hrows
      obtain ⟨rfl, rfl⟩ := hspans
      have hend := Storage.mul_le_length hrows
      have hstart : cursor.index * width ≤ (cursor.index + 1) * width :=
        Nat.mul_le_mul_right width (Nat.le_succ _)
      simp only [Storage.bytes, reduceCtorEq, false_and, exists_false, and_false, iff_false]
      omega
    | varying offsets bytes =>
      rw [hsource] at hspans
      constructor
      · intro houtside
        exact ⟨hrow, hshown, offsets, bytes, first, last, rfl, hspans.1, hspans.2, houtside⟩
      · rintro ⟨-, -, _, _, first', last', ⟨⟩, hfirst, hlast, houtside⟩
        have hspans' : (Storage.varying offsets bytes).Spans cursor.index first' last' :=
          ⟨hfirst, hlast⟩
        obtain ⟨rfl, rfl⟩ := hspans.unique hspans'
        exact houtside

end Cursor

end BulkLoad
