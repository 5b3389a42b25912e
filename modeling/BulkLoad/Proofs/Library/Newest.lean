import BulkLoad.Proofs.Library.Scan

/-! # The newest version comes first

A file name spells a version if the stem is followed by separators and then by pieces between dots,
some of which are decimal numerals. The version of the file is then what the numerals say, in
order. Versions are compared part by part as numbers, whatever their digits, and one that goes on
where another ends is newer. In a scan the newer of two files comes first.
-/
namespace BulkLoad

namespace Version

def IsSignedNumeral (chars : List Char) : Prop :=
  ∃ sign digits, chars = sign ++ digits ∧ (sign = [] ∨ sign = ['+']) ∧ digits ≠ [] ∧
    ∀ c ∈ digits, c.isDigit

/-- A piece of a name between dots, with the number that it stands for: a decimal numeral of 64
bits, which may begin with zeros, or a text that could not be taken for a numeral. -/
inductive Piece : List Char → Option Nat → Prop
  | numeral {digits : List Char} (nonempty : digits ≠ []) (decimal : ∀ c ∈ digits, c.isDigit)
      (bound : Nat.ofDigitChars 10 digits 0 < UInt64.size) :
      Piece digits (some (Nat.ofDigitChars 10 digits 0))
  | text {chars : List Char} (plain : '.' ∉ chars) (other : ¬ IsSignedNumeral chars) :
      Piece chars none

/-- A file name that spells a version. -/
inductive Spells : List Char → List Nat → Prop
  | intro {separators first : List Char} {rest : List (List Char)} {values : List (Option Nat)}
      (separating : ∀ c ∈ separators, c = '-' ∨ c = '.') (nonempty : first ≠ [])
      (start : first.head? ≠ some '-') (pieces : List.Forall₂ Piece (first :: rest) values) :
      Spells (stem ++ separators ++ Text.join '.' (first :: rest)) values.reduceOption

section Names

variable {piece name : List Char} {value : Option Nat} {version : List Nat}

theorem unsigned_of_head (h : piece.head? ≠ some '+') : unsigned piece = piece := by
  unfold unsigned
  split
  · exact absurd rfl h
  · rfl

theorem unsigned_of_digits (h : ∀ c ∈ piece, c.isDigit) : unsigned piece = piece :=
  unsigned_of_head fun hhead => absurd (h '+' (List.mem_of_head? hhead)) (by decide)

theorem isSignedNumeral_iff :
    IsSignedNumeral piece ↔ unsigned piece ≠ [] ∧ ∀ c ∈ unsigned piece, c.isDigit := by
  constructor
  · rintro ⟨sign, digits, rfl, rfl | rfl, hnonempty, hdecimal⟩
    · rw [List.nil_append, unsigned_of_digits hdecimal]
      exact ⟨hnonempty, hdecimal⟩
    · exact ⟨hnonempty, hdecimal⟩
  · rintro ⟨hnonempty, hdecimal⟩
    by_cases hsign : piece.head? = some '+'
    · obtain ⟨digits, rfl⟩ := List.head?_eq_some_iff.mp hsign
      exact ⟨['+'], digits, rfl, .inr rfl, hnonempty, hdecimal⟩
    · rw [unsigned_of_head hsign] at hnonempty hdecimal
      exact ⟨[], piece, rfl, .inl rfl, hnonempty, hdecimal⟩

theorem numeral?_of_digits (hnonempty : piece ≠ []) (hdecimal : ∀ c ∈ piece, c.isDigit)
    (hbound : Nat.ofDigitChars 10 piece 0 < UInt64.size) :
    numeral? piece = some (Nat.ofDigitChars 10 piece 0) := by
  unfold numeral?
  rw [unsigned_of_digits hdecimal]
  exact if_pos ⟨hnonempty, List.all_eq_true.mpr hdecimal, hbound⟩

theorem numeral?_of_other (h : ¬ IsSignedNumeral piece) : numeral? piece = none := by
  refine if_neg fun ⟨hnonempty, hdecimal, _⟩ => h ?_
  exact isSignedNumeral_iff.mpr ⟨hnonempty, List.all_eq_true.mp hdecimal⟩

theorem Piece.numeral?_eq (h : Piece piece value) : numeral? piece = value := by
  cases h with
  | numeral nonempty decimal bound => exact numeral?_of_digits nonempty decimal bound
  | text _ other => exact numeral?_of_other other

theorem Piece.plain (h : Piece piece value) : '.' ∉ piece := by
  cases h with
  | numeral _ decimal _ => exact fun hdot => absurd (decimal '.' hdot) (by decide)
  | text plain _ => exact plain

theorem filterMap_numeral? {pieces : List (List Char)} {values : List (Option Nat)}
    (h : List.Forall₂ Piece pieces values) : pieces.filterMap numeral? = values.reduceOption := by
  induction h with
  | nil => rfl
  | cons hpiece _ ih =>
    rw [List.filterMap_cons, hpiece.numeral?_eq, ih]
    rfl

theorem plain_of_pieces {pieces : List (List Char)} {values : List (Option Nat)}
    (h : List.Forall₂ Piece pieces values) : ∀ piece ∈ pieces, '.' ∉ piece := by
  induction h with
  | nil => exact fun _ => nofun
  | cons hpiece _ ih => exact List.forall_mem_cons.mpr ⟨hpiece.plain, ih⟩

theorem exists_join_cons (sep c : Char) (chars : List Char) (rest : List (List Char)) :
    ∃ tail, Text.join sep ((c :: chars) :: rest) = c :: tail := by
  cases rest with
  | nil => exact ⟨_, rfl⟩
  | cons next rest => exact ⟨_, rfl⟩

theorem isSeparator_iff {c : Char} : isSeparator c = true ↔ c = '-' ∨ c = '.' := by
  simp only [isSeparator, Bool.or_eq_true, beq_iff_eq]

theorem dropWhile_separators {separators first : List Char} {rest : List (List Char)}
    (hseparating : ∀ c ∈ separators, c = '-' ∨ c = '.') (hnonempty : first ≠ [])
    (hstart : first.head? ≠ some '-') (hplain : '.' ∉ first) :
    (separators ++ Text.join '.' (first :: rest)).dropWhile isSeparator =
      Text.join '.' (first :: rest) := by
  have hseparators : ∀ c ∈ separators, isSeparator c := fun c hc =>
    isSeparator_iff.mpr (hseparating c hc)
  obtain ⟨c, chars, rfl⟩ := List.exists_cons_of_ne_nil hnonempty
  obtain ⟨tail, htail⟩ := exists_join_cons '.' c chars rest
  rw [List.dropWhile_append_of_pos hseparators, htail, List.dropWhile_cons_of_neg]
  intro hc
  rcases isSeparator_iff.mp hc with rfl | rfl
  · exact hstart rfl
  · exact hplain List.mem_cons_self

theorem afterStem?_append (rest : List Char) : afterStem? (stem ++ rest) = some rest := by
  rw [afterStem?, if_pos (List.isPrefixOf_iff_prefix.mpr (List.prefix_append ..)),
    List.drop_left]

theorem ofName_of_spells (h : Spells name version) : ofName name = version := by
  obtain ⟨hseparating, hnonempty, hstart, hpieces⟩ := h
  have hplain := plain_of_pieces hpieces
  have hfirst := hplain _ List.mem_cons_self
  rw [ofName, List.append_assoc, afterStem?_append]
  dsimp only
  rw [dropWhile_separators hseparating hnonempty hstart hfirst,
    Text.segments_join '.' (List.cons_ne_nil _ _) hplain, filterMap_numeral? hpieces]

theorem Spells.stem_prefix (h : Spells name version) : stem <+: name := by
  obtain ⟨-, -, -, -⟩ := h
  rw [List.append_assoc]
  exact List.prefix_append ..

theorem ofPath_of_spells {path : Path} (hname : path.fileName? = some name)
    (h : Spells name version) : ofPath path = version := by
  rw [ofPath, hname]
  exact ofName_of_spells h

end Names

/-- A version is newer if it is greater in the first part in which the two differ, or if it has
further parts where the other has ended. -/
def Newer (version other : List Nat) : Prop :=
  (∃ common part rest part' rest', version = common ++ part :: rest ∧
    other = common ++ part' :: rest' ∧ part' < part) ∨
  ∃ further, further ≠ [] ∧ version = other ++ further

theorem compare_append_left (common a b : List Nat) :
    compare (common ++ a) (common ++ b) = compare a b := by
  induction common with
  | nil => rfl
  | cons part common ih =>
    rw [List.cons_append, List.cons_append, List.compare_cons_cons, Std.compare_self]
    exact ih

theorem compare_of_newer {version other : List Nat} (h : Newer version other) :
    compare other version = .lt := by
  rcases h with ⟨common, part, rest, part', rest', rfl, rfl, hlt⟩ | ⟨further, hne, rfl⟩
  · rw [compare_append_left, List.compare_cons_cons, Nat.compare_eq_lt.mpr hlt]
    rfl
  · obtain ⟨part, rest, rfl⟩ := List.exists_cons_of_ne_nil hne
    have happend := compare_append_left other [] (part :: rest)
    rwa [List.append_nil, List.compare_nil_cons] at happend

theorem order_lt_of_newer {a b : Path} (h : Newer (ofPath a) (ofPath b)) : order a b = .lt := by
  rw [order, compare_of_newer h]
  rfl

end Version

/-- Both paths are in the list, and the first is before the second wherever they stand. -/
def Precedes (files : List Path) (a b : Path) : Prop :=
  a ∈ files ∧ b ∈ files ∧ ∀ i j : Nat, files[i]? = some a → files[j]? = some b → i < j

theorem precedes_of_order_lt {directories : Directories} {dir a b : Path}
    (ha : a ∈ libraryFiles directories dir) (hb : b ∈ libraryFiles directories dir)
    (h : Version.order a b = .lt) : Precedes (libraryFiles directories dir) a b := by
  refine ⟨ha, hb, fun i j hi hj => ?_⟩
  obtain ⟨hilt, rfl⟩ := List.getElem?_eq_some_iff.mp hi
  obtain ⟨hjlt, rfl⟩ := List.getElem?_eq_some_iff.mp hj
  rcases Nat.lt_trichotomy i j with hlt | rfl | hlt
  · exact hlt
  · exact absurd h (Std.OrientedCmp.not_lt_of_lt h)
  · -- The other one would stand before it although it is older.
    have hsorted := pairwise_isLE_libraryFiles directories dir
    have hle := List.pairwise_iff_getElem.mp hsorted j i hjlt hilt hlt
    rw [Version.order_swap, h] at hle
    exact absurd hle (by decide)

/-- A file name that spells a version is read as that version, and in the scan of a directory the
newer of two such files comes first. -/
theorem newest_first :
    (∀ (name : List Char) (version : List Nat), Version.Spells name version →
      ∀ path : Path, path.fileName? = some name → Version.ofPath path = version) ∧
    ∀ (directories : Directories) (dir : Path) (listing : Listing) (newer older : String)
      (version other : List Nat),
      directories dir = some listing → listing.Named →
      some newer ∈ listing → some older ∈ listing →
      Version.Spells newer.toList version → Version.Spells older.toList other →
      Version.Newer version other →
        Precedes (libraryFiles directories dir) (dir.entry newer) (dir.entry older) := by
  refine ⟨fun name version h path hname => Version.ofPath_of_spells hname h, ?_⟩
  intro directories dir listing newer older version other hread hnamed hnewer holder hspells
    hspells' hlt
  have hmem {name : String} (hname : some name ∈ listing) (h : Version.stem <+: name.toList) :
      dir.entry name ∈ libraryFiles directories dir :=
    (mem_libraryFiles hread hnamed).mpr ⟨name, hname, h, rfl⟩
  refine precedes_of_order_lt (hmem hnewer hspells.stem_prefix) (hmem holder hspells'.stem_prefix)
    (Version.order_lt_of_newer ?_)
  rwa [Version.ofPath_of_spells (Path.fileName?_entry dir (hnamed newer hnewer)) hspells,
    Version.ofPath_of_spells (Path.fileName?_entry dir (hnamed older holder)) hspells']

theorem newest_first_sample :
    let listing : Listing := [some "libmsodbcsql-17.9.so", none, some "odbc.ini",
      some "libmsodbcsql-17.10.so"]
    Precedes (libraryFiles (fun _ => some listing) ⟨"/lib"⟩)
      ⟨"/lib/libmsodbcsql-17.10.so"⟩ ⟨"/lib/libmsodbcsql-17.9.so"⟩ := by
  intro listing
  have hnamed : listing.Named := by decide
  have hdash : ∀ c ∈ ['-'], c = '-' ∨ c = '.' := by simp
  have h17 : Version.Piece ['1', '7'] (some 17) :=
    .numeral (by decide) (List.all_eq_true.mp rfl) (by decide)
  have h10 : Version.Piece ['1', '0'] (some 10) :=
    .numeral (by decide) (List.all_eq_true.mp rfl) (by decide)
  have h9 : Version.Piece ['9'] (some 9) :=
    .numeral (by decide) (List.all_eq_true.mp rfl) (by decide)
  have hso : Version.Piece ['s', 'o'] none :=
    .text (by decide) fun h => absurd ((Version.isSignedNumeral_iff.mp h).2 's') (by decide)
  have hnewer : Version.Spells "libmsodbcsql-17.10.so".toList [17, 10] :=
    .intro hdash (by decide) (by decide) (.cons h17 (.cons h10 (.cons hso .nil)))
  have holder : Version.Spells "libmsodbcsql-17.9.so".toList [17, 9] :=
    .intro hdash (by decide) (by decide) (.cons h17 (.cons h9 (.cons hso .nil)))
  have hlt : Version.Newer [17, 10] [17, 9] :=
    .inl ⟨[17], 10, [], 9, [], rfl, rfl, by decide⟩
  exact newest_first.2 (fun _ => some listing) ⟨"/lib"⟩ listing _ _ _ _ rfl hnamed
    (by decide) (by decide) hnewer holder hlt

end BulkLoad
