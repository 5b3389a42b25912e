import BulkLoad.Library.Version

/-! # Where the library comes from

A source is one fixed path, or a list of names followed by directories to search. Directories are
read at the time of the search. Candidates are the names as given and then the library files of the
directories, without those that repeat a candidate before them.
-/
namespace BulkLoad

inductive Source
  | fixed (path : Path)
  | probing (names dirs : List Path)
deriving DecidableEq

/-- What a directory lists, in any order: the name of each entry, or nothing for an entry that
cannot be read or whose name is no text. -/
abbrev Listing := List (Option String)

/-- The listing of each directory that can be read. -/
abbrev Directories := Path → Option Listing

def Path.isLibraryFile (path : Path) : Bool :=
  match path.fileName? with
  | none => false
  | some name => (Version.afterStem? name).isSome

def Listing.libraryPaths (listing : Listing) (dir : Path) : List Path :=
  (listing.filterMap fun name? => name?.map dir.entry).filter Path.isLibraryFile

/-- The library files of a directory, newest first. -/
def libraryFiles (directories : Directories) (dir : Path) : List Path :=
  (((directories dir).getD []).libraryPaths dir).mergeSort fun a b => (Version.order a b).isLE

def addCandidate (candidates : List Path) (path : Path) : List Path :=
  if candidates.any fun earlier => decide (earlier.Same path) then candidates
  else candidates ++ [path]

namespace Source

def summary : Source → String
  | fixed path => s!"fixed path {path.text}"
  | probing names dirs => s!"{names.length} names, {dirs.length} search dirs"

def candidates (directories : Directories) : Source → List Path
  | fixed path => [path]
  | probing names dirs =>
    dirs.foldl (fun found dir => (libraryFiles directories dir).foldl addCandidate found) names

/-- The same source up to the spelling of its paths. -/
def Same : Source → Source → Prop
  | fixed a, fixed b => a.Same b
  | probing names dirs, probing names' dirs' =>
    names.map Path.components = names'.map Path.components ∧
      dirs.map Path.components = dirs'.map Path.components
  | _, _ => False

instance : (a b : Source) → Decidable (a.Same b)
  | fixed a, fixed b => inferInstanceAs (Decidable (a.Same b))
  | probing names dirs, probing names' dirs' =>
    inferInstanceAs (Decidable (names.map Path.components = names'.map Path.components ∧
      dirs.map Path.components = dirs'.map Path.components))
  | fixed _, probing _ _ => inferInstanceAs (Decidable False)
  | probing _ _, fixed _ => inferInstanceAs (Decidable False)

end Source

end BulkLoad
