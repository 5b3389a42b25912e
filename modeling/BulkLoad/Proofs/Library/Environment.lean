import BulkLoad.Proofs.Library.Configuration

/-! # What the environment changes

A path in the environment is the source. Without one, or with an empty one, the default source also
searches the directories of the environment: a list with colons between them, of which the empty
pieces do not count and every other is taken as it is.
-/
namespace BulkLoad

theorem Text.join_eq_intercalate (sep : Char) (pieces : List (List Char)) :
    Text.join sep pieces = [sep].intercalate pieces := by
  induction pieces with
  | nil => rfl
  | cons piece rest ih =>
    cases rest with
    | nil => simp [Text.join]
    | cons next rest => simp [Text.join, ih]

namespace Source

/-- The text is these pieces with a colon between neighbours. -/
structure ColonList (text : String) (pieces : List String) : Prop where
  text_eq : text = ":".intercalate pieces
  plain : ∀ piece ∈ pieces, ':' ∉ piece.toList

theorem exists_colonList (text : String) : ∃ pieces, ColonList text pieces := by
  refine ⟨(Text.segments ':' text.toList).map String.ofList, ?_, ?_⟩
  · apply String.toList_inj.mp
    rw [String.toList_intercalate, List.map_map]
    simp only [Function.comp_def, String.toList_ofList, List.map_id']
    exact (Text.join_segments ':' text.toList).symm.trans (Text.join_eq_intercalate ':' _)
  · intro piece hpiece
    obtain ⟨segment, hsegment, rfl⟩ := List.mem_map.mp hpiece
    rw [String.toList_ofList]
    exact Text.not_mem_of_mem_segments hsegment

/-- Behind a colon a list begins anew. -/
theorem directoryList_append (front back : String) :
    directoryList (front ++ ":" ++ back) = directoryList front ++ directoryList back := by
  have htext : (front ++ ":" ++ back).toList = front.toList ++ ':' :: back.toList := by
    simp
  unfold directoryList
  rw [htext, Text.segments_append_cons, List.filter_append, List.map_append]

theorem directoryList_of_plain {piece : String} (h : ':' ∉ piece.toList) :
    directoryList piece = if piece = "" then [] else [⟨piece⟩] := by
  unfold directoryList
  rw [Text.segments_of_not_mem ':' h]
  by_cases hempty : piece = ""
  · subst hempty
    rfl
  · have hne : piece.toList ≠ [] := mt String.toList_eq_nil_iff.mp hempty
    simp [hne, hempty]

theorem ColonList.directoryList_eq {text : String} {pieces : List String}
    (h : ColonList text pieces) :
    directoryList text = (pieces.filter (· ≠ "")).map Path.mk := by
  obtain ⟨rfl, hplain⟩ := h
  induction pieces with
  | nil => rfl
  | cons piece rest ih =>
    obtain ⟨hpiece, hrest⟩ := List.forall_mem_cons.mp hplain
    have hfirst : directoryList piece = ([piece].filter (· ≠ "")).map Path.mk := by
      rw [directoryList_of_plain hpiece]
      by_cases hempty : piece = "" <;> simp [hempty]
    by_cases hlast : rest = []
    · rw [hlast, String.intercalate_singleton, hfirst]
    · rw [String.intercalate_cons_of_ne_nil hlast, directoryList_append, hfirst, ih hrest,
        ← List.map_append, ← List.filter_append, List.singleton_append]

theorem changeAll_searchDirs (names dirs added : List Path) :
    (probing names dirs).changeAll (added.map .searchDir) = probing names (dirs ++ added) := by
  have hnothing : FixNothing (added.map .searchDir) := List.forall_mem_map.mpr fun _ _ => rfl
  have hnames : lastNames? (added.map .searchDir) = none := by
    simp [lastNames?, Change.names?]
  have hdirs : addedDirs (added.map .searchDir) = added := by
    rw [addedDirs, List.filterMap_map]
    exact List.filterMap_some
  rw [changeAll_probing hnothing, hnames, hdirs, Option.getD_none]

section Environment

variable {environment : String → Option String}

theorem ofEnvironment_of_path {path : String} (h : environment libraryVariable = some path)
    (hne : path ≠ "") : ofEnvironment environment = fixed ⟨path⟩ := by
  simp only [ofEnvironment, h, if_neg hne]
  rfl

theorem ofEnvironment_of_no_path
    (h : ∀ path, environment libraryVariable = some path → path = "") :
    ofEnvironment environment = default.changeAll
      ((((environment directoriesVariable).map directoryList).getD []).map .searchDir) := by
  have hsearching : ofEnvironment environment =
      (((environment directoriesVariable).map directoryList).getD []).foldl
        (fun source dir => source.addDirectory dir) default := by
    unfold ofEnvironment
    cases hpath : environment libraryVariable with
    | none => cases environment directoriesVariable <;> rfl
    | some path =>
      obtain rfl := h path hpath
      cases environment directoriesVariable <;> rfl
  rw [hsearching, changeAll, List.foldl_map]
  rfl

end Environment

/-- A path in the environment overrides everything. Without one the directories in the environment
come behind the default ones, whatever their list looks like. -/
theorem environment_overrides (environment : String → Option String) :
    (∀ path, environment libraryVariable = some path → path ≠ "" →
      ofEnvironment environment = fixed ⟨path⟩) ∧
    ((∀ path, environment libraryVariable = some path → path = "") →
      ∃ names dirs, default = probing names dirs ∧
        (environment directoriesVariable = none →
          ofEnvironment environment = probing names dirs) ∧
        (∀ text, environment directoriesVariable = some text →
          (∃ pieces, ColonList text pieces) ∧ ∀ pieces, ColonList text pieces →
            ofEnvironment environment =
              probing names (dirs ++ (pieces.filter (· ≠ "")).map Path.mk)) ∧
        ∀ added : List String, (∀ dir ∈ added, dir ≠ "" ∧ ':' ∉ dir.toList) →
          environment directoriesVariable = some (":".intercalate added) →
            ofEnvironment environment = probing names (dirs ++ added.map Path.mk)) := by
  refine ⟨fun path => ofEnvironment_of_path, fun hnone => ?_⟩
  obtain ⟨names, dirs, hdefault⟩ : ∃ names dirs, default = probing names dirs := ⟨_, _, rfl⟩
  have hsource : ofEnvironment environment = probing names
      (dirs ++ ((environment directoriesVariable).map directoryList).getD []) := by
    rw [ofEnvironment_of_no_path hnone, hdefault, changeAll_searchDirs]
  have hlisted {text : String} {pieces : List String} (hpieces : ColonList text pieces)
      (htext : environment directoriesVariable = some text) : ofEnvironment environment =
        probing names (dirs ++ (pieces.filter (· ≠ "")).map Path.mk) := by
    rw [hsource, htext, Option.map_some, Option.getD_some, hpieces.directoryList_eq]
  refine ⟨names, dirs, hdefault, fun hno => ?_, fun text htext => ?_, fun added hadded htext => ?_⟩
  · rw [hsource, hno, Option.map_none, Option.getD_none, List.append_nil]
  · exact ⟨exists_colonList text, fun pieces hpieces => hlisted hpieces htext⟩
  · have hpieces : ColonList (":".intercalate added) added :=
      ⟨rfl, fun dir hdir => (hadded dir hdir).2⟩
    have hall : added.filter (· ≠ "") = added :=
      List.filter_eq_self.mpr fun dir hdir => decide_eq_true (hadded dir hdir).1
    rw [hlisted hpieces htext, hall]

end Source

end BulkLoad
