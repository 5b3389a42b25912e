import BulkLoad.Library.Source

/-! # Configuration of the source

Each system has its default source. The environment may add directories and may fix the path, and
the calls of a program change the source step by step.
-/
namespace BulkLoad.Source

def fixTo (path : Path) (_ : Source) : Source := .fixed path

def setNames (names : List Path) : Source → Source
  | fixed _ => .probing names []
  | probing _ dirs => .probing names dirs

/-- Adds a directory. A fixed path becomes the only name. -/
def addDirectory (dir : Path) : Source → Source
  | fixed path => .probing [path] [dir]
  | probing names dirs => .probing names (dirs ++ [dir])

def ofSystem (system : String) : Source :=
  if system = "windows" then .fixed ⟨"msodbcsql17.dll"⟩
  else if system = "macos" then
    .probing [⟨"libmsodbcsql.18.dylib"⟩, ⟨"libmsodbcsql.17.dylib"⟩]
      [⟨"/usr/local/lib"⟩, ⟨"/opt/homebrew/lib"⟩]
  else
    .probing [⟨"libmsodbcsql-18.so"⟩, ⟨"libmsodbcsql-17.so"⟩]
      [⟨"/opt/microsoft/msodbcsql18/lib64"⟩, ⟨"/opt/microsoft/msodbcsql17/lib64"⟩]

def default : Source := ofSystem "linux"

def libraryVariable : String := "MSSQL_BCP_LIBRARY"

def directoriesVariable : String := "MSSQL_BCP_SEARCH_DIRS"

/-- The directories of a list with colons between them; empty ones do not count. -/
def directoryList (text : String) : List Path :=
  ((Text.segments ':' text.toList).filter (· ≠ [])).map fun piece => ⟨String.ofList piece⟩

def ofEnvironment (environment : String → Option String) : Source :=
  let added := match environment directoriesVariable with
    | none => []
    | some text => directoryList text
  let searching := added.foldl (fun source dir => source.addDirectory dir) default
  match environment libraryVariable with
  | none => searching
  | some path => if path = "" then searching else searching.fixTo ⟨path⟩

inductive Change
  | library (path : Path)
  | candidates (names : List Path)
  | searchDir (dir : Path)
deriving DecidableEq

def change (source : Source) : Change → Source
  | .library path => source.fixTo path
  | .candidates names => source.setNames names
  | .searchDir dir => source.addDirectory dir

end BulkLoad.Source
