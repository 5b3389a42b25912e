/-! # Numbered places

A row of places, each under its own number and each empty or holding one item. The items are kept
in the order of their numbers.
-/
namespace BulkLoad

abbrev Places (α : Type) := List (Nat × α)

namespace Places

variable {α : Type}

def get? (places : Places α) (number : Nat) : Option α :=
  match places with
  | [] => none
  | (first, held) :: rest => if number = first then some held else get? rest number

def put (places : Places α) (number : Nat) (item : α) : Places α :=
  match places with
  | [] => [(number, item)]
  | (first, held) :: rest =>
    if number < first then (number, item) :: (first, held) :: rest
    else if number = first then (number, item) :: rest
    else (first, held) :: put rest number item

def clear (places : Places α) (number : Nat) : Places α :=
  places.filter (·.1 != number)

def items (places : Places α) : List α := places.map (·.2)

def bound (places : Places α) : Nat := places.foldr (fun place bound => max (place.1 + 1) bound) 0

/-- The number of an empty place: the one that is wanted, unless that place is taken. -/
def vacant (places : Places α) (wanted : Nat) : Nat :=
  if (places.get? wanted).isSome then places.bound else wanted

@[simp] theorem get?_put_self (places : Places α) (number : Nat) (item : α) :
    (places.put number item).get? number = some item := by
  induction places with
  | nil => simp [put, get?]
  | cons place rest ih =>
    obtain ⟨first, held⟩ := place
    by_cases hlt : number < first
    · simp [put, get?, hlt]
    · by_cases heq : number = first
      · simp [put, get?, heq]
      · simpa [put, get?, hlt, heq] using ih

theorem get?_put_of_ne (places : Places α) {number other : Nat} (item : α) (h : other ≠ number) :
    (places.put number item).get? other = places.get? other := by
  induction places with
  | nil => simp [put, get?, h]
  | cons place rest ih =>
    obtain ⟨first, held⟩ := place
    by_cases hlt : number < first
    · simp [put, get?, hlt, h]
    · by_cases heq : number = first
      · subst heq
        simp [put, get?, h]
      · simp only [put, hlt, heq, ↓reduceIte, get?, ih]

@[simp] theorem get?_clear_self (places : Places α) (number : Nat) :
    (places.clear number).get? number = none := by
  induction places with
  | nil => rfl
  | cons place rest ih =>
    obtain ⟨first, held⟩ := place
    by_cases h : first = number
    · simpa [clear, h] using ih
    · have hne : number ≠ first := Ne.symm h
      simpa [get?, clear, h, hne] using ih

theorem get?_clear_of_ne (places : Places α) {number other : Nat} (h : other ≠ number) :
    (places.clear number).get? other = places.get? other := by
  induction places with
  | nil => rfl
  | cons place rest ih =>
    obtain ⟨first, held⟩ := place
    simp only [clear] at ih ⊢
    by_cases hf : first = number
    · subst hf
      simpa [get?, h] using ih
    · simp only [List.filter_cons, bne_iff_ne, ne_eq, hf, not_false_eq_true, ↓reduceIte, get?, ih]

theorem get?_put (places : Places α) (number other : Nat) (item : α) :
    (places.put number item).get? other =
      if other = number then some item else places.get? other := by
  split
  · next h => rw [h, get?_put_self]
  · next h => exact get?_put_of_ne places item h

theorem get?_clear (places : Places α) (number other : Nat) :
    (places.clear number).get? other = if other = number then none else places.get? other := by
  split
  · next h => rw [h, get?_clear_self]
  · next h => exact get?_clear_of_ne places h

theorem get?_of_bound_le {places : Places α} {number : Nat} (h : places.bound ≤ number) :
    places.get? number = none := by
  induction places with
  | nil => rfl
  | cons place rest ih =>
    have hle : max (place.1 + 1) (bound rest) ≤ number := h
    have hne : number ≠ place.1 := by omega
    rw [get?, if_neg hne]
    exact ih (by omega)

@[simp] theorem get?_vacant (places : Places α) (wanted : Nat) :
    places.get? (places.vacant wanted) = none := by
  unfold vacant
  split
  · exact get?_of_bound_le (Nat.le_refl _)
  · next h => simpa using h

theorem of_mem_items_put {places : Places α} {number : Nat} {item other : α}
    (h : other ∈ (places.put number item).items) : other = item ∨ other ∈ places.items := by
  induction places with
  | nil => exact .inl (by simpa [put, items] using h)
  | cons place rest ih =>
    obtain ⟨first, held⟩ := place
    unfold put at h
    split at h
    · exact List.mem_cons.mp h
    · split at h
      · rcases List.mem_cons.mp h with h | h
        · exact .inl h
        · exact .inr (List.mem_cons_of_mem held h)
      · rcases List.mem_cons.mp h with rfl | h
        · exact .inr List.mem_cons_self
        · rcases ih h with h | h
          · exact .inl h
          · exact .inr (List.mem_cons_of_mem held h)

theorem of_mem_items_clear {places : Places α} {number : Nat} {item : α}
    (h : item ∈ (places.clear number).items) : item ∈ places.items := by
  obtain ⟨place, hplace, rfl⟩ := List.mem_map.mp h
  exact List.mem_map_of_mem (List.mem_filter.mp hplace).1

theorem map_put {β : Type} (f : α → β) (places : Places α) (number : Nat) (item : α) :
    List.map (Prod.map id f) (places.put number item) =
      put (List.map (Prod.map id f) places) number (f item) := by
  induction places with
  | nil => rfl
  | cons place rest ih =>
    obtain ⟨first, held⟩ := place
    simp only [put, List.map_cons, Prod.map_apply, id]
    split
    · rfl
    · split
      · rfl
      · simp only [List.map_cons, Prod.map_apply, id, ih]

theorem map_clear {β : Type} (f : α → β) (places : Places α) (number : Nat) :
    List.map (Prod.map id f) (places.clear number) =
      clear (List.map (Prod.map id f) places) number := by
  simp only [clear, List.filter_map]
  rfl

end Places

end BulkLoad
