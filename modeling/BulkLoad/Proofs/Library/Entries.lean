import Mathlib
import BulkLoad.Library.Source

/-! # Entries of directories

The path of an entry has the components of its directory and then the entry's name. So the entries
of one directory have different paths, and an entry has the same path in every spelling of its
directory. An entry is a library file if its name begins with the stem.
-/
namespace BulkLoad

/-- What can be the name of an entry: a text without slashes, neither empty nor one of the names
for the directory itself and the one above it. -/
def IsEntryName (name : List Char) : Prop :=
  name ≠ [] ∧ name ≠ ['.'] ∧ name ≠ ['.', '.'] ∧ '/' ∉ name

instance (name : List Char) : Decidable (IsEntryName name) :=
  inferInstanceAs (Decidable (_ ∧ _ ∧ _ ∧ _))

namespace Path

theorem length_le_size (path : Path) : path.text.toList.length ≤ path.size := by
  have hsize : path.size = String.utf8Len path.text.toList := by
    rw [size, ← String.utf8ByteSize_ofList, String.ofList_toList]
  rw [hsize]
  induction path.text.toList with
  | nil => exact Nat.le_refl 0
  | cons c rest ih => exact Nat.add_le_add ih c.utf8Size_pos

theorem component?_eq_normal_iff {atStart : Bool} {piece name : List Char} :
    component? atStart piece = some (.normal name) ↔
      name = piece ∧ piece ≠ [] ∧ piece ≠ ['.'] ∧ piece ≠ ['.', '.'] := by
  unfold component?
  split
  · simp [*]
  · split
    · cases atStart <;> simp [*]
    · split
      · simp [*]
      · simp [*, eq_comm]

theorem isEntryName_of_component? {atStart : Bool} {piece name : List Char} (hplain : '/' ∉ piece)
    (h : component? atStart piece = some (.normal name)) : IsEntryName name := by
  obtain ⟨rfl, hempty, hhere, hparent⟩ := component?_eq_normal_iff.mp h
  exact ⟨hempty, hhere, hparent, hplain⟩

theorem component?_of_isEntryName {name : List Char} (h : IsEntryName name) (atStart : Bool) :
    component? atStart name = some (.normal name) :=
  component?_eq_normal_iff.mpr ⟨rfl, h.1, h.2.1, h.2.2.1⟩

theorem componentsOf_relative {text first : List Char} {pieces : List (List Char)}
    (htext : text.head? ≠ some '/') (hpieces : Text.segments '/' text = first :: pieces) :
    componentsOf text =
      (component? true first).toList ++ pieces.filterMap (component? false) := by
  unfold componentsOf
  split
  · exact absurd rfl htext
  · rw [hpieces]

theorem component?_ne_root (atStart : Bool) (piece : List Char) :
    component? atStart piece ≠ some .root := by
  unfold component?
  split
  · exact nofun
  · split
    · split <;> exact nofun
    · split <;> exact nofun

theorem exists_of_root_mem {text : List Char} (h : .root ∈ componentsOf text) :
    ∃ below, text = '/' :: below := by
  by_contra hnone
  have hrelative : text.head? ≠ some '/' := fun hhead =>
    hnone (List.head?_eq_some_iff.mp hhead)
  obtain ⟨first, pieces, hpieces⟩ := List.exists_cons_of_ne_nil (Text.segments_ne_nil '/' text)
  rw [componentsOf_relative hrelative hpieces] at h
  rcases List.mem_append.mp h with hfirst | hrest
  · exact component?_ne_root true first (Option.mem_toList.mp hfirst)
  · obtain ⟨piece, -, hpiece⟩ := List.mem_filterMap.mp hrest
    exact component?_ne_root false piece hpiece

theorem componentsOf_append_cons {text : List Char} (htext : text ≠ []) (rest : List Char) :
    componentsOf (text ++ '/' :: rest) =
      componentsOf text ++ (Text.segments '/' rest).filterMap (component? false) := by
  by_cases hroot : text.head? = some '/'
  · obtain ⟨below, rfl⟩ := List.head?_eq_some_iff.mp hroot
    simp only [List.cons_append, componentsOf, Text.segments_append_cons, List.filterMap_append]
  · obtain ⟨first, pieces, hpieces⟩ := List.exists_cons_of_ne_nil (Text.segments_ne_nil '/' text)
    have hroot' : (text ++ '/' :: rest).head? ≠ some '/' := by
      rwa [List.head?_append_of_ne_nil _ htext]
    have hpieces' : Text.segments '/' (text ++ '/' :: rest) =
        first :: (pieces ++ Text.segments '/' rest) := by
      rw [Text.segments_append_cons, hpieces, List.cons_append]
    rw [componentsOf_relative hroot hpieces, componentsOf_relative hroot' hpieces',
      List.filterMap_append, List.append_assoc]

theorem componentsOf_concat {text : List Char} (htext : text ≠ []) :
    componentsOf (text ++ ['/']) = componentsOf text := by
  rw [componentsOf_append_cons htext]
  exact List.append_nil _

theorem componentsOf_append_replicate {text : List Char} (htext : text ≠ []) (count : Nat) :
    componentsOf (text ++ List.replicate count '/') = componentsOf text := by
  induction count with
  | zero => rw [List.replicate_zero, List.append_nil]
  | succ count ih =>
    have hfront : text ++ List.replicate count '/' ≠ [] := List.append_ne_nil_of_left_ne_nil htext _
    rw [List.replicate_succ', ← List.append_assoc, componentsOf_concat hfront, ih]

theorem componentsOf_append_name {text name : List Char} (htext : text ≠ [])
    (hname : IsEntryName name) :
    componentsOf (text ++ '/' :: name) = componentsOf text ++ [.normal name] := by
  rw [componentsOf_append_cons htext, Text.segments_of_not_mem '/' hname.2.2.2]
  simp only [List.filterMap_cons, component?_of_isEntryName hname, List.filterMap_nil]

theorem componentsOf_name {name : List Char} (hname : IsEntryName name) :
    componentsOf name = [.normal name] := by
  have hhead : name.head? ≠ some '/' := fun h => hname.2.2.2 (List.mem_of_head? h)
  rw [componentsOf_relative hhead (Text.segments_of_not_mem '/' hname.2.2.2),
    component?_of_isEntryName hname]
  rfl

theorem componentsOf_concat_append_name {text name : List Char} (hname : IsEntryName name) :
    componentsOf (text ++ ['/'] ++ name) = componentsOf (text ++ ['/']) ++ [.normal name] := by
  rw [List.append_assoc, List.singleton_append]
  by_cases htext : text = []
  · have hpiece := component?_of_isEntryName hname false
    subst htext
    simp only [List.nil_append, componentsOf, Text.segments_of_not_mem '/' hname.2.2.2,
      List.filterMap_cons, hpiece, List.filterMap_nil]
    rfl
  · rw [componentsOf_append_name htext hname, componentsOf_concat htext]

/-- An entry lies one component below its directory. -/
theorem components_entry (dir : Path) {name : String} (hname : IsEntryName name.toList) :
    (dir.entry name).components = dir.components ++ [.normal name.toList] := by
  obtain ⟨text⟩ := dir
  unfold components entry
  by_cases hempty : text = ""
  · subst hempty
    simp only [true_or, if_true, String.toList_append]
    exact componentsOf_name hname
  · have htext : text.toList ≠ [] := mt String.toList_eq_nil_iff.mp hempty
    by_cases hslash : text.toList.getLast? = some '/'
    · obtain ⟨front, hfront⟩ := List.getLast?_eq_some_iff.mp hslash
      rw [if_pos (.inr hslash)]
      simp only [String.toList_append, hfront]
      exact componentsOf_concat_append_name hname
    · simp only [hempty, hslash, or_self, if_false, String.toList_append, List.append_assoc]
      exact componentsOf_append_name htext hname

theorem fileName?_entry (dir : Path) {name : String} (hname : IsEntryName name.toList) :
    (dir.entry name).fileName? = some name.toList := by
  simp only [fileName?, components_entry dir hname, List.getLast?_concat]

/-- Entries are the same path if they have the same name and their directories are the same. -/
theorem same_entry_iff {dir dir' : Path} {name name' : String} (hname : IsEntryName name.toList)
    (hname' : IsEntryName name'.toList) :
    (dir.entry name).Same (dir'.entry name') ↔ dir.Same dir' ∧ name = name' := by
  unfold Same
  rw [components_entry dir hname, components_entry dir' hname', List.append_singleton_inj,
    Component.normal.injEq, String.toList_inj]

theorem isLibraryFile_iff {path : Path} :
    path.isLibraryFile = true ↔ ∃ name, path.fileName? = some name ∧ Version.stem <+: name := by
  unfold isLibraryFile
  cases path.fileName? with
  | none => simp
  | some name => simp [Version.afterStem?]

end Path

namespace Listing

def Named (listing : Listing) : Prop :=
  ∀ name, some name ∈ listing → IsEntryName name.toList

instance (listing : Listing) : Decidable listing.Named :=
  decidable_of_iff (∀ name? ∈ listing, ∀ name ∈ name?, IsEntryName name.toList)
    ⟨fun h name hname => h (some name) hname name rfl,
      fun h _ hlisted name hname => h name (hname ▸ hlisted)⟩

def Offers (listing : Listing) (dir path : Path) : Prop :=
  ∃ name, some name ∈ listing ∧ Version.stem <+: name.toList ∧ path = dir.entry name

theorem mem_libraryPaths_iff {listing : Listing} (h : listing.Named) {dir path : Path} :
    path ∈ listing.libraryPaths dir ↔ listing.Offers dir path := by
  unfold libraryPaths
  rw [List.mem_filter, List.mem_filterMap, Path.isLibraryFile_iff]
  constructor
  · rintro ⟨⟨_, hlisted, hpath⟩, found, hfound, hstem⟩
    obtain ⟨name, rfl, rfl⟩ := Option.map_eq_some_iff.mp hpath
    rw [Path.fileName?_entry dir (h name hlisted)] at hfound
    obtain rfl := Option.some.inj hfound
    exact ⟨name, hlisted, hstem, rfl⟩
  · rintro ⟨name, hlisted, hstem, rfl⟩
    exact ⟨⟨some name, hlisted, rfl⟩, name.toList, Path.fileName?_entry dir (h name hlisted), hstem⟩

end Listing

theorem mem_libraryFiles {directories : Directories} {dir : Path} {listing : Listing}
    (hread : directories dir = some listing) (h : listing.Named) {path : Path} :
    path ∈ libraryFiles directories dir ↔ listing.Offers dir path := by
  rw [libraryFiles, List.mem_mergeSort, hread]
  exact Listing.mem_libraryPaths_iff h

theorem libraryFiles_of_unreadable {directories : Directories} {dir : Path}
    (h : directories dir = none) : libraryFiles directories dir = [] := by
  rw [libraryFiles, h]
  exact List.mergeSort_nil

end BulkLoad
