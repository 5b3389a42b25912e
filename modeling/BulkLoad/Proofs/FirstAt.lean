import Mathlib

/-! # First items

Checks of a list name the first item that fails and its place. A search from item to item that
counts the items it passes over answers for this item, and has no answer only if there is none.
-/
namespace BulkLoad

variable {α β : Type} {p : α → Prop} {first item : α} {rest : List α} {row : Nat}

/-- The first item of the list with the property, and its place. -/
def FirstAt (p : α → Prop) (items : List α) (row : Nat) (item : α) : Prop :=
  ∃ before after, items = before ++ item :: after ∧ before.length = row ∧
    (∀ earlier ∈ before, ¬ p earlier) ∧ p item

theorem not_firstAt_nil : ¬ FirstAt p [] row item := by
  rintro ⟨before, after, hsplit, -⟩
  simp at hsplit

theorem firstAt_cons_of_pos (h : p first) :
    FirstAt p (first :: rest) row item ↔ row = 0 ∧ item = first := by
  constructor
  · rintro ⟨before, after, hsplit, rfl, hbefore, -⟩
    cases before with
    | nil => exact ⟨rfl, (List.cons.inj hsplit).1.symm⟩
    | cons earlier before =>
      obtain ⟨rfl, -⟩ := List.cons.inj hsplit
      exact absurd h (hbefore _ List.mem_cons_self)
  · rintro ⟨rfl, rfl⟩
    exact ⟨[], rest, rfl, rfl, by simp, h⟩

theorem firstAt_cons_of_neg (h : ¬ p first) :
    FirstAt p (first :: rest) row item ↔ ∃ place, row = place + 1 ∧ FirstAt p rest place item := by
  constructor
  · rintro ⟨before, after, hsplit, rfl, hbefore, hitem⟩
    cases before with
    | nil =>
      obtain ⟨rfl, -⟩ := List.cons.inj hsplit
      exact absurd hitem h
    | cons earlier before =>
      obtain ⟨rfl, rfl⟩ := List.cons.inj hsplit
      exact ⟨before.length, rfl, before, after, rfl, rfl, (List.forall_mem_cons.mp hbefore).2,
        hitem⟩
  · rintro ⟨place, rfl, before, after, rfl, rfl, hbefore, hitem⟩
    exact ⟨first :: before, after, rfl, rfl, List.forall_mem_cons.mpr ⟨h, hbefore⟩, hitem⟩

theorem firstAt_map {f : β → α} {items : List β} :
    FirstAt p (items.map f) row item ↔
      ∃ source, FirstAt (fun other => p (f other)) items row source ∧ f source = item := by
  constructor
  · rintro ⟨before, after, hsplit, rfl, hbefore, hitem⟩
    obtain ⟨front, back, rfl, rfl, hback⟩ := List.map_eq_append_iff.mp hsplit
    obtain ⟨source, later, rfl, rfl, rfl⟩ := List.map_eq_cons_iff.mp hback
    refine ⟨source, ⟨front, later, rfl, by simp, ?_, hitem⟩, rfl⟩
    exact fun earlier hearlier => hbefore _ (List.mem_map_of_mem hearlier)
  · rintro ⟨source, ⟨front, later, rfl, rfl, hfront, hsource⟩, rfl⟩
    refine ⟨front.map f, later.map f, by simp, by simp, ?_, hsource⟩
    exact List.forall_mem_map.mpr hfront

theorem FirstAt.mem {items : List α} (h : FirstAt p items row item) : item ∈ items := by
  obtain ⟨before, after, rfl, -⟩ := h
  exact List.mem_append_right before List.mem_cons_self

theorem firstAt_congr {q : α → Prop} {items : List α} (h : ∀ item ∈ items, (p item ↔ q item)) :
    FirstAt p items row item ↔ FirstAt q items row item := by
  refine exists_congr fun before => exists_congr fun after => and_congr_right fun hitems => ?_
  subst hitems
  have hbefore : ∀ earlier ∈ before, (p earlier ↔ q earlier) :=
    fun earlier hearlier => h earlier (List.mem_append_left _ hearlier)
  have hitem := h item (List.mem_append_right before List.mem_cons_self)
  refine and_congr_right fun _ => and_congr (forall₂_congr fun earlier hearlier => ?_) hitem
  exact not_congr (hbefore earlier hearlier)

theorem exists_firstAt {items : List α} (h : ∃ item ∈ items, p item) :
    ∃ row item, FirstAt p items row item := by
  induction items with
  | nil => simp at h
  | cons first rest ih =>
    by_cases hfirst : p first
    · exact ⟨0, first, (firstAt_cons_of_pos hfirst).mpr ⟨rfl, rfl⟩⟩
    · simp only [List.mem_cons, exists_eq_or_imp, hfirst, false_or] at h
      obtain ⟨row, item, hitem⟩ := ih h
      exact ⟨row + 1, item, (firstAt_cons_of_neg hfirst).mpr ⟨row, rfl, hitem⟩⟩

/-- The search counts the items from a start on and answers for the first one with the property. -/
structure Searches (p : α → Prop) (found : Nat → α → β) (search : Nat → List α → Option β) :
    Prop where
  nil : ∀ start, search start [] = none
  cons_of_pos : ∀ start first rest, p first →
    search start (first :: rest) = some (found start first)
  cons_of_neg : ∀ start first rest, ¬ p first →
    search start (first :: rest) = search (start + 1) rest

namespace Searches

variable {found : Nat → α → β} {search : Nat → List α → Option β} {items : List α} {start : Nat}

theorem eq_none_iff (h : Searches p found search) :
    search start items = none ↔ ∀ item ∈ items, ¬ p item := by
  induction items generalizing start with
  | nil => simp [h.nil]
  | cons first rest ih =>
    by_cases hfirst : p first
    · simp [h.cons_of_pos start first rest hfirst, hfirst]
    · simp [h.cons_of_neg start first rest hfirst, hfirst, ih]

theorem eq_some_iff (h : Searches p found search) {answer : β} :
    search start items = some answer ↔
      ∃ place item, FirstAt p items place item ∧ answer = found (start + place) item := by
  induction items generalizing start with
  | nil => simp [h.nil, not_firstAt_nil]
  | cons first rest ih =>
    by_cases hfirst : p first
    · simp only [h.cons_of_pos start first rest hfirst, firstAt_cons_of_pos hfirst,
        Option.some.injEq]
      constructor
      · rintro rfl
        exact ⟨0, first, ⟨rfl, rfl⟩, rfl⟩
      · rintro ⟨_, _, ⟨rfl, rfl⟩, rfl⟩
        rfl
    · simp only [h.cons_of_neg start first rest hfirst, ih, firstAt_cons_of_neg hfirst]
      constructor
      · rintro ⟨place, item, hitem, rfl⟩
        exact ⟨place + 1, item, ⟨place, rfl, hitem⟩, by rw [Nat.add_right_comm, Nat.add_assoc]⟩
      · rintro ⟨_, item, ⟨place, rfl, hitem⟩, rfl⟩
        exact ⟨place, item, hitem, by rw [Nat.add_right_comm, Nat.add_assoc]⟩

end Searches

end BulkLoad
