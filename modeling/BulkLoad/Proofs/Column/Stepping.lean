import BulkLoad.Proofs.Column.Shapes

/-! # Steps of a cursor

A call of `next` leads one row further as long as a row is left. From then on every call fails in
the same way and the cursor stays where it is. No position that is computed on the way is larger
than the storage is long, so numbers that can hold its length are enough for reading and for
stepping.
-/
namespace BulkLoad

namespace Storage

/-- The lengths are numbers below the limit. -/
def Within (limit : Nat) : Storage → Prop
  | fixed _ bytes => bytes.length < limit
  | varying offsets _ => offsets.length < limit

theorem Within.succ_lt {limit : Nat} {storage : Storage} (h : storage.Within limit) {row : Nat}
    (hrow : row < storage.rows) : row + 1 < limit := by
  cases storage with
  | fixed width bytes =>
    have hlength : bytes.length < limit := h
    have hlast : row + 1 ≤ bytes.length := hrow.trans_le (Nat.div_le_self _ _)
    omega
  | varying offsets bytes =>
    have hlength : offsets.length < limit := h
    have hlast : row < offsets.length - 1 := hrow
    omega

end Storage

namespace Cursor

/-- One call of `next`: its answer, and the cursor after it. A call that fails leaves it. -/
def call (cursor : Cursor) : Except Fault Unit × Cursor :=
  match cursor.next with
  | .ok further => (.ok (), further)
  | .error fault => (.error fault, cursor)

def calls : Nat → Cursor → List (Except Fault Unit) × Cursor
  | 0, cursor => ([], cursor)
  | count + 1, cursor =>
    let (answer, further) := cursor.call
    let (answers, last) := further.calls count
    (answer :: answers, last)

theorem call_of_lt {cursor : Cursor} (h : cursor.index < cursor.size) :
    cursor.call = (.ok (), cursor.moveTo (cursor.index + 1)) := by
  simp only [call, next, h, ↓reduceIte, advance_eq_moveTo]

theorem call_of_le {cursor : Cursor} (h : cursor.size ≤ cursor.index) :
    cursor.call = (.error (.cursorExhausted cursor.index cursor.size), cursor) := by
  simp only [call, next, Nat.not_lt.mpr h, ↓reduceIte]

theorem calls_of_le {cursor : Cursor} (h : cursor.size ≤ cursor.index) (count : Nat) :
    cursor.calls count =
      (List.replicate count (.error (.cursorExhausted cursor.index cursor.size)), cursor) := by
  induction count with
  | zero => rfl
  | succ count ih => simp only [calls, call_of_le h, ih, List.replicate_succ]

theorem calls_eq (cursor : Cursor) (count : Nat) :
    cursor.calls count =
      (List.replicate (min count (cursor.size - cursor.index)) (.ok ()) ++
        List.replicate (count - (cursor.size - cursor.index))
          (.error (.cursorExhausted (max cursor.index cursor.size) cursor.size)),
        cursor.moveTo (cursor.index + min count (cursor.size - cursor.index))) := by
  induction count generalizing cursor with
  | zero => simp [calls]
  | succ count ih =>
    rcases Nat.lt_or_ge cursor.index cursor.size with hrow | hrow
    · have hleft : cursor.size - cursor.index = cursor.size - (cursor.index + 1) + 1 := by omega
      have hend : max (cursor.index + 1) cursor.size = max cursor.index cursor.size := by omega
      have hrest := ih (cursor.moveTo (cursor.index + 1))
      simp only [index_moveTo, size_moveTo, moveTo_moveTo, hend] at hrest
      simp only [calls, call_of_lt hrow, hrest, hleft, Nat.succ_min_succ, Nat.add_sub_add_right,
        List.replicate_succ, List.cons_append]
      congr 2
      omega
    · have hnone : cursor.size - cursor.index = 0 := Nat.sub_eq_zero_of_le hrow
      rw [calls_of_le hrow, hnone, Nat.min_zero, max_eq_left hrow]
      simp

theorem below?_of_lt {limit n : Nat} (h : n < limit) : below? limit n = some n :=
  if_pos h

theorem currentWithin_eq {cursor : Cursor} {limit : Nat} (h : cursor.source.Within limit) :
    cursor.currentWithin limit = some cursor.current := by
  induction cursor with
  | fixed bytes width index =>
    by_cases hrow : index < bytes.length / width
    · have hlength : bytes.length < limit := h
      have hend := Storage.mul_le_length hrow
      have hstart : index * width ≤ (index + 1) * width :=
        Nat.mul_le_mul_right width (Nat.le_succ index)
      have hfirst : below? limit (index * width) = some (index * width) :=
        below?_of_lt (by omega)
      have hafter : below? limit (index + 1) = some (index + 1) := below?_of_lt (h.succ_lt hrow)
      have hlast : below? limit ((index + 1) * width) = some ((index + 1) * width) :=
        below?_of_lt (by omega)
      simp only [currentWithin, current, hrow, ↓reduceIte, hfirst, hafter, Option.bind_eq_bind,
        Option.bind_some, hlast]
      rfl
    · simp only [currentWithin, current, hrow, ↓reduceIte]
  | varying bytes offsets index =>
    by_cases hrow : index < offsets.length - 1
    · have hafter : below? limit (index + 1) = some (index + 1) := below?_of_lt (h.succ_lt hrow)
      simp only [currentWithin, current, hrow, ↓reduceIte, hafter]
      rfl
    · simp only [currentWithin, current, hrow, ↓reduceIte]
  | nullable inner nulls ih =>
    simp only [currentWithin, current, ih h]
    split
    · split <;> rfl
    · rfl

/-- Checking the end in every layer comes to the same as checking it once: a row before the end
of the whole is before the end of everything below. -/
theorem nextWithin_eq {cursor : Cursor} {limit : Nat} (h : cursor.source.Within limit) :
    cursor.nextWithin limit = some cursor.next := by
  induction cursor with
  | fixed bytes width index =>
    by_cases hrow : index < bytes.length / width
    · have hafter : below? limit (index + 1) = some (index + 1) := below?_of_lt (h.succ_lt hrow)
      simp only [nextWithin, next, Cursor.index, size, hrow, ↓reduceIte, hafter]
      rfl
    · simp only [nextWithin, next, Cursor.index, size, hrow, ↓reduceIte]
  | varying bytes offsets index =>
    by_cases hrow : index < offsets.length - 1
    · have hafter : below? limit (index + 1) = some (index + 1) := below?_of_lt (h.succ_lt hrow)
      simp only [nextWithin, next, Cursor.index, size, hrow, ↓reduceIte, hafter]
      rfl
    · simp only [nextWithin, next, Cursor.index, size, hrow, ↓reduceIte]
  | nullable inner nulls ih =>
    by_cases hrow : inner.index < min inner.size nulls.length
    · have hinner : inner.index < inner.size := (lt_min_iff.mp hrow).1
      simp only [nextWithin, next, Cursor.index, size, hrow, ↓reduceIte, ih h, hinner]
      rfl
    · simp only [nextWithin, next, Cursor.index, size, hrow, ↓reduceIte]

/-- What a cursor of any shape reads, and where any number of steps takes it. -/
theorem reads_and_steps (cursor : Cursor) :
    IsLeast {n | n = cursor.source.rows ∨ ∃ nulls ∈ cursor.layers, n = nulls.length}
      cursor.size ∧
    (∀ row, (cursor.moveTo row).index = row ∧ (cursor.moveTo row).size = cursor.size) ∧
    (∀ fault, cursor.current = .error (.fault fault) ↔
      cursor.size ≤ cursor.index ∧ fault = .cursorExhausted cursor.index cursor.size) ∧
    (cursor.current = .ok .null ↔ cursor.index < cursor.size ∧ cursor.Hidden) ∧
    (∀ content, cursor.current = .ok (.bytes content) ↔ cursor.index < cursor.size ∧
      ¬ cursor.Hidden ∧ cursor.source.Holds cursor.index content) ∧
    (cursor.current = .error .trap ↔ cursor.index < cursor.size ∧ ¬ cursor.Hidden ∧
      ∃ offsets bytes first last, cursor.source = .varying offsets bytes ∧
        offsets[cursor.index]? = some first ∧ offsets[cursor.index + 1]? = some last ∧
        (last < first ∨ bytes.length < last)) ∧
    (∀ count, cursor.calls count =
      (List.replicate (min count (cursor.size - cursor.index)) (.ok ()) ++
        List.replicate (count - (cursor.size - cursor.index))
          (.error (.cursorExhausted (max cursor.index cursor.size) cursor.size)),
        cursor.moveTo (cursor.index + min count (cursor.size - cursor.index)))) ∧
    (cursor.source.Within UInt64.size →
      cursor.currentWithin UInt64.size = some cursor.current ∧
      cursor.nextWithin UInt64.size = some cursor.next) := by
  refine ⟨isLeast_size cursor, fun row => ⟨index_moveTo cursor row, size_moveTo cursor row⟩,
    fun fault => current_eq_fault_iff, current_eq_null_iff, fun content => current_eq_bytes_iff,
    current_eq_trap_iff, calls_eq cursor, fun hwithin => ?_⟩
  exact ⟨currentWithin_eq hwithin, nextWithin_eq hwithin⟩

theorem reads_and_steps_sample :
    let cursor : Cursor :=
      .nullable (.nullable (.varying [1, 2, 3] [0, 2, 1, 3] 1) [true, false, false]) [false, false]
    cursor.source.Within UInt64.size ∧ cursor.currentWithin UInt64.size = some cursor.current ∧
      cursor.current = .error .trap ∧
      (cursor.calls 2).1 = [.ok (), .error (.cursorExhausted 2 2)] := by
  intro cursor
  obtain ⟨-, -, -, -, -, htrap, hcalls, hwithin⟩ := reads_and_steps cursor
  have hsource : cursor.source.Within UInt64.size := show 4 < UInt64.size by decide
  have hshown : ¬ cursor.Hidden := by
    rintro ⟨nulls, hnulls, hflag⟩
    fin_cases hnulls <;> cases hflag
  refine ⟨hsource, (hwithin hsource).1, htrap.mpr ⟨by decide, hshown, ?_⟩,
    congrArg Prod.fst (hcalls 2)⟩
  exact ⟨[0, 2, 1, 3], [1, 2, 3], 2, 1, rfl, rfl, rfl, by decide⟩

end Cursor

end BulkLoad
