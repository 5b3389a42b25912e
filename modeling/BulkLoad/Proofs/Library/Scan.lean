import BulkLoad.Proofs.Library.Entries

/-! # Scans do not depend on the order of reading

A system may list the entries of a directory in any order. Files are compared by their versions
and then by their paths, which orders all paths totally: only spellings of one path are equal. So
there is one arrangement in which every file comes before the next, and that is the scan.
-/
namespace BulkLoad

namespace Version

variable {a b c : Path}

theorem order_eq_compareLex :
    order = compareLex (fun a b => compareOn ofPath b a) (fun a b => compareOn Path.key b a) :=
  rfl

instance : Std.TransCmp order := by
  have : Std.TransCmp fun a b => compareOn ofPath b a := Std.TransCmp.opposite
  have : Std.TransCmp fun a b => compareOn Path.key b a := Std.TransCmp.opposite
  rw [order_eq_compareLex]
  infer_instance

theorem ofPath_eq_of_same (h : a.Same b) : ofPath a = ofPath b := by
  have hcomponents : a.components = b.components := h
  simp only [ofPath, Path.fileName?, hcomponents]

theorem order_swap (a b : Path) : order b a = (order a b).swap :=
  Std.OrientedCmp.eq_swap

theorem isLE_order_or (a b : Path) : (order a b).isLE = true ∨ (order b a).isLE = true := by
  rw [order_swap a b]
  cases order a b <;> simp

theorem order_eq_iff : order a b = .eq ↔ a.Same b := by
  rw [order, Ordering.then_eq_eq, Path.order_eq_iff, Std.compare_eq_iff_eq]
  constructor
  · exact fun h => h.2.symm
  · exact fun h => ⟨(ofPath_eq_of_same h).symm, h.symm⟩

theorem order_lt_of_isLE (h : (order a b).isLE = true) (hother : ¬ a.Same b) :
    order a b = .lt := by
  rcases Ordering.isLE_iff_eq_lt_or_eq_eq.mp h with hlt | heq
  · exact hlt
  · exact absurd (order_eq_iff.mp heq) hother

/-- Only one arrangement of the same paths is strictly descending. -/
theorem arrangement_unique {files files' : List Path}
    (h : files.Pairwise fun a b => order a b = .lt)
    (h' : files'.Pairwise fun a b => order a b = .lt)
    (hsame : ∀ path, path ∈ files ↔ path ∈ files') : files = files' := by
  have hne : ∀ {a b : Path}, order a b = .lt → a ≠ b := by
    rintro a _ hlt rfl
    exact Std.OrientedCmp.not_lt_of_lt hlt hlt
  have hperm : files.Perm files' :=
    (List.perm_ext_iff_of_nodup (h.imp hne) (h'.imp hne)).mpr hsame
  refine hperm.eq_of_pairwise (fun a b _ _ hab hba => ?_) h h'
  exact absurd hba (Std.OrientedCmp.not_lt_of_lt hab)

end Version

/-- What a directory can list: names of entries, and none of them twice. -/
structure Listing.Proper (listing : Listing) : Prop where
  named : listing.Named
  distinct : listing.reduceOption.Nodup

theorem Listing.Proper.pairwise_libraryPaths {listing : Listing} (h : listing.Proper) (dir : Path) :
    (listing.libraryPaths dir).Pairwise fun a b => ¬ a.Same b := by
  have hpaths : (listing.filterMap fun name? => name?.map dir.entry) =
      listing.reduceOption.map dir.entry := by
    rw [List.reduceOption, List.map_filterMap]
    rfl
  rw [libraryPaths, hpaths]
  refine List.Pairwise.filter _ (List.pairwise_map.mpr ?_)
  refine h.distinct.imp_of_mem fun {name name'} hname hname' hne hsame => hne ?_
  have hlisted := h.named name (List.reduceOption_mem_iff.mp hname)
  have hlisted' := h.named name' (List.reduceOption_mem_iff.mp hname')
  exact ((Path.same_entry_iff hlisted hlisted').mp hsame).2

section Scan

variable {directories : Directories} {dir : Path} {listing : Listing}

theorem pairwise_isLE_libraryFiles (directories : Directories) (dir : Path) :
    (libraryFiles directories dir).Pairwise fun a b => (Version.order a b).isLE = true := by
  refine List.pairwise_mergeSort (fun a b c => Std.TransCmp.isLE_trans) (fun a b => ?_) _
  rw [Bool.or_eq_true]
  exact Version.isLE_order_or a b

theorem pairwise_libraryFiles (hread : directories dir = some listing) (h : listing.Proper) :
    (libraryFiles directories dir).Pairwise fun a b => Version.order a b = .lt := by
  have hperm : (libraryFiles directories dir).Perm (listing.libraryPaths dir) := by
    rw [libraryFiles, hread]
    exact List.mergeSort_perm _ _
  have hdistinct : (libraryFiles directories dir).Pairwise fun a b => ¬ a.Same b :=
    (hperm.pairwise_iff fun hne hsame => hne hsame.symm).mpr (h.pairwise_libraryPaths dir)
  exact (pairwise_isLE_libraryFiles directories dir).imp₂ (fun _ _ => Version.order_lt_of_isLE)
    hdistinct

theorem eq_libraryFiles_iff (hread : directories dir = some listing) (h : listing.Proper)
    {files : List Path} :
    files = libraryFiles directories dir ↔
      (files.Pairwise fun a b => Version.order a b = .lt) ∧
        ∀ path, path ∈ files ↔ listing.Offers dir path := by
  have hscan := pairwise_libraryFiles hread h
  constructor
  · rintro rfl
    exact ⟨hscan, fun path => mem_libraryFiles hread h.named⟩
  · rintro ⟨hfiles, hmem⟩
    refine Version.arrangement_unique hfiles hscan fun path => ?_
    rw [hmem path, mem_libraryFiles hread h.named]

theorem Listing.Proper.of_perm {listing' : Listing} (h : listing.Proper)
    (hperm : listing'.Perm listing) : listing'.Proper where
  named name hname := h.named name (hperm.mem_iff.mp hname)
  distinct := (hperm.filterMap id).nodup_iff.mpr h.distinct

theorem libraryFiles_eq_of_perm {directories' : Directories} {listing' : Listing}
    (hread : directories dir = some listing) (h : listing.Proper)
    (hread' : directories' dir = some listing') (hperm : listing'.Perm listing) :
    libraryFiles directories' dir = libraryFiles directories dir := by
  refine (eq_libraryFiles_iff hread h).mpr ?_
  obtain ⟨hscan, hmem⟩ := (eq_libraryFiles_iff hread' (h.of_perm hperm)).mp rfl
  refine ⟨hscan, fun path => (hmem path).trans ?_⟩
  simp only [Listing.Offers, hperm.mem_iff]

end Scan

/-- The order of the files is total and tells all paths apart, and the scan of a directory is the
one arrangement of the library files in that order, whatever order they are listed in. -/
theorem scan_is_arrangement :
    (∀ a b, Version.order a b = .eq ↔ a.Same b) ∧
    (∀ a b, Version.order b a = (Version.order a b).swap) ∧
    (∀ a b c, (Version.order a b).isLE → (Version.order b c).isLE → (Version.order a c).isLE) ∧
    ∀ (directories : Directories) (dir : Path) (listing : Listing),
      directories dir = some listing → listing.Proper →
        (∀ files, files = libraryFiles directories dir ↔
          (files.Pairwise fun a b => Version.order a b = .lt) ∧
            ∀ path, path ∈ files ↔ listing.Offers dir path) ∧
        ∀ (directories' : Directories) (listing' : Listing),
          directories' dir = some listing' → listing'.Perm listing →
            libraryFiles directories' dir = libraryFiles directories dir := by
  refine ⟨fun a b => Version.order_eq_iff, Version.order_swap,
    fun a b c => Std.TransCmp.isLE_trans, fun directories dir listing hread h => ⟨?_, ?_⟩⟩
  · exact fun files => eq_libraryFiles_iff hread h
  · exact fun directories' listing' => libraryFiles_eq_of_perm hread h

theorem scan_is_arrangement_sample :
    let listing : Listing := [some "README", some "libmsodbcsql-17.9.so", none,
      some "libmsodbcsql-17.10.so", some "libmsodbcsql.so", some "libmsodbcsql-17.09.so"]
    let scan := libraryFiles (fun _ => some listing) ⟨"/lib"⟩
    listing.Proper ∧ listing.reverse.Perm listing ∧
      libraryFiles (fun _ => some listing.reverse) ⟨"/lib"⟩ = scan ∧
      (scan.Pairwise fun a b => Version.order a b = .lt) ∧
      ⟨"/lib/libmsodbcsql-17.09.so"⟩ ∈ scan := by
  intro listing scan
  have hproper : listing.Proper := ⟨by decide, by decide⟩
  have hperm := listing.reverse_perm
  obtain ⟨-, -, -, hscan⟩ := scan_is_arrangement
  obtain ⟨hunique, hsame⟩ := hscan (fun _ => some listing) ⟨"/lib"⟩ listing rfl hproper
  obtain ⟨hdescending, hmem⟩ := (hunique scan).mp rfl
  refine ⟨hproper, hperm, hsame _ _ rfl hperm, hdescending, (hmem _).mpr ?_⟩
  exact ⟨"libmsodbcsql-17.09.so", by decide, by decide, by decide⟩

end BulkLoad
