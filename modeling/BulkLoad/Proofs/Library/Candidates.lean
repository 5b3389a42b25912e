import BulkLoad.Proofs.Library.Entries

/-! # What a probing source offers

The candidates are the configured names as they are, and then the scans of the directories one
after the other without the paths that repeat a name or a path scanned before. No file is lost: a
path that is left out is offered in another spelling. A directory that cannot be read adds nothing,
and neither does one that was read before, in whatever spelling.
-/
namespace BulkLoad

/-- One of these paths is the same path. -/
def Repeats (paths : List Path) (path : Path) : Prop :=
  ∃ other ∈ paths, other.Same path

instance (paths : List Path) (path : Path) : Decidable (Repeats paths path) :=
  inferInstanceAs (Decidable (∃ other ∈ paths, other.Same path))

/-- The scanned paths that repeat neither a name nor a path scanned before them. -/
def unrepeated (names scanned : List Path) : List Path :=
  (scanned.zipIdx.filter fun place =>
    ¬ Repeats (names ++ scanned.take place.2) place.1).map Prod.fst

section Unrepeated

variable {names scanned : List Path} {path : Path}

theorem repeats_append {front back : List Path} :
    Repeats (front ++ back) path ↔ Repeats front path ∨ Repeats back path := by
  simp only [Repeats, List.mem_append, or_and_right, exists_or]

theorem Repeats.of_same {paths : List Path} {other : Path} (h : Repeats paths path)
    (hsame : path.Same other) : Repeats paths other := by
  obtain ⟨earlier, hearlier, hpath⟩ := h
  exact ⟨earlier, hearlier, hpath.trans hsame⟩

theorem Repeats.of_mem {paths : List Path} (h : path ∈ paths) : Repeats paths path :=
  ⟨path, h, path.same_refl⟩

theorem addCandidate_eq (candidates : List Path) (path : Path) :
    addCandidate candidates path =
      if Repeats candidates path then candidates else candidates ++ [path] := by
  refine if_congr ?_ rfl rfl
  simp only [Repeats, List.any_eq_true, decide_eq_true_eq]

theorem unrepeated_concat (names scanned : List Path) (path : Path) :
    unrepeated names (scanned ++ [path]) =
      unrepeated names scanned ++ if Repeats (names ++ scanned) path then [] else [path] := by
  have hfront : ∀ place ∈ scanned.zipIdx,
      (scanned ++ [path]).take place.2 = scanned.take place.2 := by
    intro place hplace
    have hlt : place.2 < scanned.length := List.snd_lt_of_mem_zipIdx hplace
    exact List.take_append_of_le_length hlt.le
  have hlast : (scanned ++ [path]).take (0 + scanned.length) = scanned := by
    rw [Nat.zero_add, List.take_left]
  unfold unrepeated
  rw [List.zipIdx_append, List.filter_append, List.map_append]
  congr 1
  · refine congrArg (List.map Prod.fst) (List.filter_congr fun place hplace => ?_)
    rw [hfront place hplace]
  · simp only [List.zipIdx_singleton, List.filter_cons, List.filter_nil, hlast]
    by_cases h : Repeats (names ++ scanned) path
    · simp only [h, not_true_eq_false, decide_false, Bool.false_eq_true, if_false, if_true,
        List.map_nil]
    · simp only [h, not_false_eq_true, decide_true, if_true, if_false, List.map_cons, List.map_nil]

/-- What is left out is repeated by what is kept. -/
theorem repeats_unrepeated :
    Repeats (names ++ unrepeated names scanned) path ↔ Repeats (names ++ scanned) path := by
  induction scanned using List.reverseRecOn generalizing path with
  | nil => rfl
  | append_singleton scanned last ih =>
    have hright : Repeats (names ++ (scanned ++ [last])) path ↔
        Repeats (names ++ scanned) path ∨ Repeats [last] path := by
      rw [← List.append_assoc, repeats_append]
    rw [unrepeated_concat, ← List.append_assoc, repeats_append, ih, hright]
    split
    · next hlast =>
      have hsingle : Repeats [last] path → Repeats (names ++ scanned) path := by
        rintro ⟨other, hother, hsame⟩
        obtain rfl := List.mem_singleton.mp hother
        exact hlast.of_same hsame
      have hnone : ¬ Repeats [] path := by
        rintro ⟨other, hother, -⟩
        cases hother
      tauto
    · rfl

theorem foldl_addCandidate (names scanned : List Path) :
    scanned.foldl addCandidate names = names ++ unrepeated names scanned := by
  induction scanned using List.reverseRecOn with
  | nil => exact (List.append_nil names).symm
  | append_singleton scanned last ih =>
    rw [List.foldl_concat, ih, addCandidate_eq, unrepeated_concat]
    simp only [repeats_unrepeated]
    split
    · rw [List.append_nil]
    · rw [List.append_assoc]

theorem mem_of_mem_unrepeated (h : path ∈ unrepeated names scanned) : path ∈ scanned := by
  obtain ⟨place, hplace, rfl⟩ := List.mem_map.mp h
  exact List.fst_mem_of_mem_zipIdx (List.mem_filter.mp hplace).1

theorem not_repeats_of_mem_unrepeated (h : path ∈ unrepeated names scanned) :
    ¬ Repeats names path := by
  obtain ⟨place, hplace, rfl⟩ := List.mem_map.mp h
  have hnot := of_decide_eq_true (List.mem_filter.mp hplace).2
  exact fun hnames => hnot (repeats_append.mpr (.inl hnames))

theorem pairwise_unrepeated (names scanned : List Path) :
    (unrepeated names scanned).Pairwise fun a b => ¬ a.Same b := by
  induction scanned using List.reverseRecOn with
  | nil => exact List.Pairwise.nil
  | append_singleton scanned last ih =>
    rw [unrepeated_concat]
    split
    · rwa [List.append_nil]
    · next hlast =>
      refine List.pairwise_append.mpr ⟨ih, List.pairwise_singleton _ _, ?_⟩
      intro kept hkept other hother hsame
      obtain rfl := List.mem_singleton.mp hother
      exact hlast (repeats_append.mpr (.inr ⟨kept, mem_of_mem_unrepeated hkept, hsame⟩))

theorem foldl_addCandidate_of_repeats {found paths : List Path}
    (h : ∀ path ∈ paths, Repeats found path) : paths.foldl addCandidate found = found := by
  induction paths with
  | nil => rfl
  | cons path rest ih =>
    rw [List.foldl_cons, addCandidate_eq, if_pos (h path List.mem_cons_self)]
    exact ih fun other hother => h other (List.mem_cons_of_mem path hother)

end Unrepeated

/-- All entries that are listed have names that are possible. -/
def Directories.Named (directories : Directories) : Prop :=
  ∀ dir listing, directories dir = some listing → listing.Named

/-- A directory lists whatever another path lists, in an order of its own. Systems list a directory
alike in all spellings that they can read, but there are spellings that they cannot read. -/
def Directories.Covers (directories : Directories) (dir again : Path) : Prop :=
  ∀ listing', directories again = some listing' →
    ∃ listing, directories dir = some listing ∧ listing' ⊆ listing

/-- A directory that can be read has a library file at this path. -/
def Directories.Offers (directories : Directories) (dir path : Path) : Prop :=
  ∃ listing, directories dir = some listing ∧ listing.Offers dir path

namespace Directories

variable {directories : Directories}

theorem Named.mem_libraryFiles_iff (h : directories.Named) {dir path : Path} :
    path ∈ libraryFiles directories dir ↔ directories.Offers dir path := by
  unfold Offers
  cases hread : directories dir with
  | none => simp [libraryFiles_of_unreadable hread]
  | some listing =>
    rw [mem_libraryFiles hread (h dir listing hread)]
    simp

theorem Named.offers_of_same (h : directories.Named) {dir again path : Path}
    (hsame : dir.Same again) (hcovers : directories.Covers dir again)
    (hoffers : directories.Offers again path) :
    ∃ path', directories.Offers dir path' ∧ path'.Same path := by
  obtain ⟨listing', hread', name, hname, hstem, rfl⟩ := hoffers
  obtain ⟨listing, hread, hlisted⟩ := hcovers listing' hread'
  have hentry := h again listing' hread' name hname
  refine ⟨dir.entry name, ⟨listing, hread, name, hlisted hname, hstem, rfl⟩, ?_⟩
  exact (Path.same_entry_iff hentry hentry).mpr ⟨hsame, rfl⟩

end Directories

namespace Source

variable {directories : Directories} {names dirs : List Path}

theorem candidates_probing (directories : Directories) (names dirs : List Path) :
    (probing names dirs).candidates directories =
      (dirs.flatMap (libraryFiles directories)).foldl addCandidate names := by
  rw [List.foldl_flatMap]
  rfl

theorem candidates_eq_append (directories : Directories) (names dirs : List Path) :
    (probing names dirs).candidates directories =
      names ++ unrepeated names (dirs.flatMap (libraryFiles directories)) := by
  rw [candidates_probing, foldl_addCandidate]

/-- Every file of a directory is a candidate in some spelling. -/
theorem repeats_candidates (h : directories.Named) {dir path : Path} (hdir : dir ∈ dirs)
    (hoffers : directories.Offers dir path) :
    Repeats ((probing names dirs).candidates directories) path := by
  rw [candidates_eq_append, repeats_unrepeated]
  refine Repeats.of_mem (List.mem_append_right names (List.mem_flatMap.mpr ⟨dir, hdir, ?_⟩))
  exact h.mem_libraryFiles_iff.mpr hoffers

theorem candidates_of_unreadable {front back : List Path} {dir : Path}
    (h : directories dir = none) :
    (probing names (front ++ dir :: back)).candidates directories =
      (probing names (front ++ back)).candidates directories := by
  rw [candidates_probing, candidates_probing, List.flatMap_append, List.flatMap_append,
    List.flatMap_cons, libraryFiles_of_unreadable h, List.nil_append]

theorem candidates_concat_of_same (h : directories.Named) {dir again : Path} (hdir : dir ∈ dirs)
    (hsame : dir.Same again) (hcovers : directories.Covers dir again) :
    (probing names (dirs ++ [again])).candidates directories =
      (probing names dirs).candidates directories := by
  have hfold : (probing names (dirs ++ [again])).candidates directories =
      (libraryFiles directories again).foldl addCandidate
        ((probing names dirs).candidates directories) := by
    rw [candidates_probing, candidates_probing, List.flatMap_append, List.foldl_append,
      List.flatMap_singleton]
  rw [hfold]
  refine foldl_addCandidate_of_repeats fun path hpath => ?_
  obtain ⟨path', hoffers, hpath'⟩ :=
    h.offers_of_same hsame hcovers (h.mem_libraryFiles_iff.mp hpath)
  exact (repeats_candidates h hdir hoffers).of_same hpath'

/-- How the candidates behind the names come about: they are what was scanned and is not repeated.
All of them are files of the directories, and no file of the directories is missing. -/
structure Gathered (directories : Directories) (names dirs kept : List Path) : Prop where
  kept_eq : kept = unrepeated names (dirs.flatMap (libraryFiles directories))
  distinct : kept.Pairwise fun a b => ¬ a.Same b
  new : ∀ path ∈ kept, ¬ Repeats names path
  offered : ∀ path ∈ kept, ∃ dir ∈ dirs, directories.Offers dir path
  complete : ∀ dir ∈ dirs, ∀ path, directories.Offers dir path → Repeats (names ++ kept) path

theorem exists_gathered {directories : Directories} (h : directories.Named)
    (names dirs : List Path) :
    ∃ kept, (probing names dirs).candidates directories = names ++ kept ∧
      Gathered directories names dirs kept := by
  refine ⟨_, candidates_eq_append directories names dirs, rfl, pairwise_unrepeated _ _,
    fun path => not_repeats_of_mem_unrepeated, ?_, ?_⟩
  · intro path hpath
    obtain ⟨dir, hdir, hfile⟩ := List.mem_flatMap.mp (mem_of_mem_unrepeated hpath)
    exact ⟨dir, hdir, h.mem_libraryFiles_iff.mp hfile⟩
  · intro dir hdir path hoffers
    rw [← candidates_eq_append]
    exact repeats_candidates h hdir hoffers

end Source

end BulkLoad
