import BulkLoad.Library.Settings
import BulkLoad.Proofs.Library.Candidates

/-! # Sources that are changed call by call

The path that was fixed last makes every call before it void. The calls behind it, or all calls if
no path is fixed at any time, turn the source into a probing one: of the names only those given
last stay, while every directory is added to the ones before it.
-/
namespace BulkLoad.Source

namespace Change

def path? : Change → Option Path
  | library path => some path
  | _ => none

def names? : Change → Option (List Path)
  | candidates names => some names
  | _ => none

def dir? : Change → Option Path
  | searchDir dir => some dir
  | _ => none

end Change

def changeAll (source : Source) (changes : List Change) : Source :=
  changes.foldl change source

def FixNothing (changes : List Change) : Prop :=
  ∀ call ∈ changes, call.path? = none

def lastNames? (changes : List Change) : Option (List Path) :=
  (changes.filterMap Change.names?).getLast?

/-- The directories of all calls that add one. -/
def addedDirs (changes : List Change) : List Path :=
  changes.filterMap Change.dir?

/-- The path that is fixed last, by a call or from the start on, and the calls that follow. -/
inductive FixedLast : Source → List Change → Path → List Change → Prop
  | start {path : Path} {changes : List Change} (h : FixNothing changes) :
    FixedLast (fixed path) changes path changes
  | call {source : Source} {path : Path} (before : List Change) {after : List Change}
    (h : FixNothing after) :
    FixedLast source (before ++ .library path :: after) path after

section Changes

variable {source : Source} {path : Path} {names dirs : List Path} {changes after : List Change}

theorem fixNothing_cons {call : Change} :
    FixNothing (call :: changes) ↔ call.path? = none ∧ FixNothing changes :=
  List.forall_mem_cons

theorem changeAll_probing (h : FixNothing changes) :
    (probing names dirs).changeAll changes =
      probing ((lastNames? changes).getD names) (dirs ++ addedDirs changes) := by
  induction changes generalizing names dirs with
  | nil => exact congrArg (probing names) (List.append_nil dirs).symm
  | cons call rest ih =>
    obtain ⟨hcall, hrest⟩ := fixNothing_cons.mp h
    cases call with
    | library path => cases hcall
    | candidates given =>
      have hnames : lastNames? (.candidates given :: rest) = some ((lastNames? rest).getD given) :=
        List.getLast?_cons
      rw [hnames, Option.getD_some]
      exact ih hrest
    | searchDir dir =>
      have hdirs : dirs ++ addedDirs (.searchDir dir :: rest) = dirs ++ [dir] ++ addedDirs rest :=
        (List.append_assoc dirs [dir] (addedDirs rest)).symm
      rw [hdirs]
      exact ih hrest

theorem change_fixed {call : Change} (h : call.path? = none) :
    (fixed path).change call = (probing [path] []).change call := by
  cases call with
  | library path => cases h
  | candidates names => rfl
  | searchDir dir => rfl

theorem changeAll_fixed (h : FixNothing changes) (hne : changes ≠ []) :
    (fixed path).changeAll changes =
      probing ((lastNames? changes).getD [path]) (addedDirs changes) := by
  have hprobing : (fixed path).changeAll changes = (probing [path] []).changeAll changes := by
    cases changes with
    | nil => exact absurd rfl hne
    | cons call rest => exact congrArg (rest.foldl change) (change_fixed (fixNothing_cons.mp h).1)
  rw [hprobing, changeAll_probing h, List.nil_append]

namespace FixedLast

theorem fixNothing (h : FixedLast source changes path after) : FixNothing after := by
  cases h with
  | start h => exact h
  | call before h => exact h

theorem changeAll_eq (h : FixedLast source changes path after) :
    source.changeAll changes = (fixed path).changeAll after := by
  cases h with
  | start h => rfl
  | call before h => exact List.foldl_append

end FixedLast

theorem exists_fixedLast (source : Source) (h : ¬ FixNothing changes) :
    ∃ path after, FixedLast source changes path after := by
  induction changes with
  | nil => exact absurd (List.forall_mem_nil _) h
  | cons call rest ih =>
    by_cases hrest : FixNothing rest
    · cases call with
      | library path => exact ⟨path, rest, .call [] hrest⟩
      | candidates names => exact absurd (fixNothing_cons.mpr ⟨rfl, hrest⟩) h
      | searchDir dir => exact absurd (fixNothing_cons.mpr ⟨rfl, hrest⟩) h
    · obtain ⟨path, after, hlast⟩ := ih hrest
      cases hlast with
      | start hnothing => exact absurd hnothing hrest
      | call before hnothing => exact ⟨path, after, .call (call :: before) hnothing⟩

theorem probing_of_not_fixedLast (h : ∀ path after, ¬ FixedLast source changes path after) :
    FixNothing changes ∧ ∃ names dirs, source = probing names dirs := by
  have hnothing : FixNothing changes := by
    by_contra hsome
    obtain ⟨path, after, hlast⟩ := exists_fixedLast source hsome
    exact h path after hlast
  refine ⟨hnothing, ?_⟩
  cases source with
  | fixed path => exact absurd (.start hnothing) (h path changes)
  | probing names dirs => exact ⟨names, dirs, rfl⟩

end Changes

/-- The source probes these names and then the files of these directories, of which it leaves out
those that repeat a name or a file scanned before. -/
structure Probes (directories : Directories) (source : Source) (names dirs : List Path) : Prop where
  source_eq : source = probing names dirs
  candidates_eq : source.candidates directories =
    names ++ unrepeated names (dirs.flatMap (libraryFiles directories))

theorem Probes.of_eq {source : Source} {names dirs : List Path} (directories : Directories)
    (h : source = probing names dirs) : source.Probes directories names dirs :=
  ⟨h, h ▸ candidates_eq_append directories names dirs⟩

/-- What any calls make of any source, and the candidates that it offers then. -/
theorem calls_compose (directories : Directories) (start : Source) (changes : List Change) :
    (∀ path after, FixedLast start changes path after →
      (after = [] → start.changeAll changes = fixed path ∧
        (start.changeAll changes).candidates directories = [path]) ∧
      (after ≠ [] → (start.changeAll changes).Probes directories
        ((lastNames? after).getD [path]) (addedDirs after))) ∧
    ((∀ path after, ¬ FixedLast start changes path after) →
      ∃ names dirs, start = probing names dirs ∧
        (start.changeAll changes).Probes directories
          ((lastNames? changes).getD names) (dirs ++ addedDirs changes)) := by
  refine ⟨fun path after hlast => ⟨?_, fun hne => ?_⟩, fun hnone => ?_⟩
  · rintro rfl
    have hsource : start.changeAll changes = fixed path := hlast.changeAll_eq
    exact ⟨hsource, by rw [hsource]; rfl⟩
  · exact .of_eq directories (hlast.changeAll_eq.trans (changeAll_fixed hlast.fixNothing hne))
  · obtain ⟨hnothing, names, dirs, rfl⟩ := probing_of_not_fixedLast hnone
    exact ⟨names, dirs, rfl, .of_eq directories (changeAll_probing hnothing)⟩

/-- A file that was fixed and lies in a directory added later is a candidate only once. -/
theorem fixed_file_not_repeated :
    let file : Path := ⟨"/lib/libmsodbcsql-18.so"⟩
    let directories : Directories := fun _ => some [some "libmsodbcsql-18.so"]
    let source := default.changeAll [.library file, .searchDir ⟨"/lib"⟩]
    source = probing [file] [⟨"/lib"⟩] ∧ libraryFiles directories ⟨"/lib"⟩ = [file] ∧
      source.candidates directories = [file] ∧
      source.candidates directories ≠ [file] ++ [⟨"/lib"⟩].flatMap (libraryFiles directories) := by
  intro file directories source
  have hsource : source = probing [file] [⟨"/lib"⟩] := rfl
  have hpaths : Listing.libraryPaths [some "libmsodbcsql-18.so"] ⟨"/lib"⟩ = [file] := by decide
  have hscan : libraryFiles directories ⟨"/lib"⟩ = [file] := by
    rw [libraryFiles, Option.getD_some, hpaths, List.mergeSort_singleton]
  have hcandidates : source.candidates directories = [file] := by
    rw [hsource, candidates_probing, List.flatMap_singleton, hscan]
    decide
  refine ⟨hsource, hscan, hcandidates, ?_⟩
  rw [hcandidates, List.flatMap_singleton, hscan]
  decide

end BulkLoad.Source
