/-! # Separated text

A text falls into segments at each separator, so there is one segment more than separators, and
writing the separator between the segments gives the text back.
-/
namespace BulkLoad.Text

/-- The pieces of a text between its separators, empty ones included. -/
def segments (sep : Char) : List Char → List (List Char)
  | [] => [[]]
  | c :: rest =>
    if c = sep then [] :: segments sep rest
    else (segments sep rest).modifyHead (c :: ·)

def join (sep : Char) : List (List Char) → List Char
  | [] => []
  | [piece] => piece
  | piece :: rest => piece ++ sep :: join sep rest

theorem segments_ne_nil (sep : Char) (text : List Char) : segments sep text ≠ [] := by
  induction text with
  | nil => simp [segments]
  | cons c rest ih => unfold segments; split <;> simp_all

theorem join_modifyHead (sep c : Char) {pieces : List (List Char)} (h : pieces ≠ []) :
    join sep (pieces.modifyHead (c :: ·)) = c :: join sep pieces := by
  match pieces, h with
  | [_], _ => rfl
  | _ :: _ :: _, _ => rfl

theorem join_segments (sep : Char) (text : List Char) : join sep (segments sep text) = text := by
  induction text with
  | nil => rfl
  | cons c rest ih =>
    unfold segments
    split
    · next h =>
      subst h
      match hs : segments c rest, segments_ne_nil c rest with
      | piece :: pieces, _ => rw [hs] at ih; simp [join, ih]
    · rw [join_modifyHead sep c (segments_ne_nil sep rest), ih]

theorem segments_append (sep : Char) {piece : List Char} (h : sep ∉ piece) (rest : List Char) :
    segments sep (piece ++ sep :: rest) = piece :: segments sep rest := by
  induction piece with
  | nil => simp [segments]
  | cons c piece ih =>
    have hc : c ≠ sep := fun e => h (e ▸ List.mem_cons_self)
    have hp : sep ∉ piece := fun m => h (List.mem_cons_of_mem _ m)
    simp [segments, hc, ih hp]

theorem segments_of_not_mem (sep : Char) {piece : List Char} (h : sep ∉ piece) :
    segments sep piece = [piece] := by
  induction piece with
  | nil => rfl
  | cons c piece ih =>
    have hc : c ≠ sep := fun e => h (e ▸ List.mem_cons_self)
    have hp : sep ∉ piece := fun m => h (List.mem_cons_of_mem _ m)
    simp [segments, hc, ih hp]

theorem segments_join (sep : Char) {pieces : List (List Char)} (hne : pieces ≠ [])
    (h : ∀ piece ∈ pieces, sep ∉ piece) : segments sep (join sep pieces) = pieces := by
  induction pieces with
  | nil => exact absurd rfl hne
  | cons piece rest ih =>
    cases rest with
    | nil => exact segments_of_not_mem sep (h piece List.mem_cons_self)
    | cons next rest =>
      have hjoin : join sep (piece :: next :: rest) = piece ++ sep :: join sep (next :: rest) := rfl
      rw [hjoin, segments_append sep (h piece List.mem_cons_self),
        ih (List.cons_ne_nil _ _) fun p hp => h p (List.mem_cons_of_mem _ hp)]

theorem segments_append_cons (sep : Char) (text rest : List Char) :
    segments sep (text ++ sep :: rest) = segments sep text ++ segments sep rest := by
  induction text with
  | nil => simp [segments]
  | cons c text ih =>
    obtain ⟨piece, pieces, hpieces⟩ := List.exists_cons_of_ne_nil (segments_ne_nil sep text)
    by_cases hc : c = sep
    · simp only [List.cons_append, segments, hc, if_true, ih]
    · simp only [List.cons_append, segments, hc, if_false, ih, hpieces, List.modifyHead_cons]

theorem not_mem_of_mem_segments {sep : Char} {text piece : List Char}
    (h : piece ∈ segments sep text) : sep ∉ piece := by
  induction text generalizing piece with
  | nil =>
    obtain rfl := List.mem_singleton.mp h
    exact List.not_mem_nil
  | cons c rest ih =>
    unfold segments at h
    split at h
    · rcases List.mem_cons.mp h with rfl | hrest
      · exact List.not_mem_nil
      · exact ih hrest
    · next hc =>
      obtain ⟨first, pieces, hpieces⟩ := List.exists_cons_of_ne_nil (segments_ne_nil sep rest)
      rw [hpieces, List.modifyHead_cons] at h
      rw [hpieces] at ih
      rcases List.mem_cons.mp h with rfl | hrest
      · rw [List.mem_cons, not_or]
        exact ⟨Ne.symm hc, ih List.mem_cons_self⟩
      · exact ih (List.mem_cons_of_mem first hrest)

theorem mem_iff_exists_segment {sep c : Char} {text : List Char} (hc : c ≠ sep) :
    c ∈ text ↔ ∃ piece ∈ segments sep text, c ∈ piece := by
  induction text with
  | nil => simp [segments]
  | cons first rest ih =>
    unfold segments
    split
    · next hfirst =>
      have hne : c ≠ first := hfirst ▸ hc
      simp only [List.mem_cons, hne, false_or, ih, exists_eq_or_imp, List.not_mem_nil]
    · obtain ⟨piece, pieces, hpieces⟩ := List.exists_cons_of_ne_nil (segments_ne_nil sep rest)
      rw [hpieces] at ih ⊢
      simp only [List.modifyHead_cons, List.mem_cons, exists_eq_or_imp, ih, or_assoc]

end BulkLoad.Text
