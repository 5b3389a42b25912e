import Mathlib
import BulkLoad.Library.Search

/-! # Which libraries are loaded

The registry and the search are driven by loaders with effects. A loader that takes down what it is
asked for gets the same answers as one without effects, and shows that a path is loaded exactly when
no live table is remembered for it.
-/
namespace BulkLoad

/-- A loader that takes down the paths it is asked for. -/
def noted (load : Path → Except Fault Table) (path : Path) :
    StateM (List Path) (Except Fault Table) :=
  fun asked => (load path, asked ++ [path])

variable (load : Path → Except Fault Table)

namespace Registry

variable {path : Path} {registry : Registry}

theorem acquire_of_cached {handle : Handle} (h : registry.cached? path = some handle) :
    registry.acquire load path = (.ok handle, registry) := by
  simp only [acquire, acquireM, h]
  rfl

theorem acquire_of_error {fault : Fault} (h : registry.cached? path = none)
    (hload : load path = .error fault) :
    registry.acquire load path = (.error fault, registry) := by
  simp only [acquire, acquireM, h, hload]
  rfl

def enroll (registry : Registry) (path : Path) (table : Table) : Registry :=
  (registry.issue table).2.remember path registry.issued

theorem acquire_of_ok {table : Table} (h : registry.cached? path = none)
    (hload : load path = .ok table) :
    registry.acquire load path = (.ok ⟨registry.issued, table⟩, registry.enroll path table) := by
  simp only [acquire, acquireM, h, hload]
  rfl

/-- Taking down what is loaded changes nothing, and there is at most one load. -/
theorem acquireM_noted (path : Path) (registry : Registry) (asked : List Path) :
    registry.acquireM (noted load) path asked =
      (registry.acquire load path,
        if (registry.cached? path).isSome then asked else asked ++ [path]) := by
  cases h : registry.cached? path with
  | some handle =>
    simp only [acquire_of_cached load h, acquireM, h]
    rfl
  | none =>
    cases hload : load path with
    | error fault =>
      simp only [acquire_of_error load h hload, acquireM, h, bind, StateT.bind, noted, hload]
      rfl
    | ok table =>
      simp only [acquire_of_ok load h hload, acquireM, h, bind, StateT.bind, noted, hload]
      rfl

def loads (load : Path → Except Fault Table) (path : Path) (registry : Registry) : List Path :=
  (registry.acquireM (noted load) path []).2

/-- A path is loaded if and only if no live table is remembered for it. -/
theorem loads_eq (path : Path) (registry : Registry) :
    registry.loads load path = if (registry.cached? path).isSome then [] else [path] := by
  rw [loads, acquireM_noted]
  rfl

end Registry

theorem firstUsableM_noted_cons (path : Path) (rest : List Path) (registry : Registry)
    (sink : Sink) (asked : List Path) :
    firstUsableM (noted load) (path :: rest) registry sink asked =
      let asked := if (registry.cached? path).isSome then asked else asked ++ [path]
      match registry.acquire load path with
      | (.ok handle, registry) => ((some handle, registry, sink), asked)
      | (.error fault, registry) =>
        match fault with
        | .libraryNotOpened .. => firstUsableM (noted load) rest registry (sink ++ [fault]) asked
        | _ => ((none, registry, sink ++ [fault]), asked) := by
  simp only [firstUsableM, bind, StateT.bind, Registry.acquireM_noted]
  rcases registry.acquire load path with ⟨fault | handle, registry⟩
  · cases fault <;> rfl
  · rfl

end BulkLoad
