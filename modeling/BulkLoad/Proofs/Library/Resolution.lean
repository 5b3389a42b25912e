import BulkLoad.Proofs.Library.Loading

/-! # How a search ends

A search passes over the candidates that have no live table and cannot be opened, and records each
of them as it is spelled. The first other candidate ends it: with its live table, with a new table
if the library exports all entry points, or else with the first of them that it lacks. No candidate
after that one is loaded.
-/
namespace BulkLoad

namespace EntryPoints

variable {lookup : String → Lookup} {name : String}

end EntryPoints

namespace Table

variable {opener : Path → Except String Library} {path : Path} {library : Library}

theorem load_of_error {detail : String} (hopen : opener path = .error detail) :
    load opener path = .error (.libraryNotOpened path detail) := by
  simp only [load, hopen]

end Table

/-- Candidates with the details why they cannot be opened. None of them has a live table. -/
def PassedOver (registry : Registry) (opener : Path → Except String Library)
    (passed : List (Path × String)) : Prop :=
  ∀ candidate ∈ passed,
    registry.cached? candidate.1 = none ∧ opener candidate.1 = .error candidate.2

def passedFaults (passed : List (Path × String)) : Sink :=
  passed.map fun candidate => .libraryNotOpened candidate.1 candidate.2

namespace PassedOver

variable {registry : Registry} {opener : Path → Except String Library}

theorem nil : PassedOver registry opener [] := by
  intro candidate h
  cases h

theorem cons {path : Path} {detail : String} {passed : List (Path × String)}
    (hdead : registry.cached? path = none) (hopen : opener path = .error detail)
    (h : PassedOver registry opener passed) :
    PassedOver registry opener ((path, detail) :: passed) := by
  intro candidate hcandidate
  rcases List.mem_cons.mp hcandidate with rfl | hcandidate
  · exact ⟨hdead, hopen⟩
  · exact h candidate hcandidate

/-- The search goes on behind the candidates that it passes over. -/
theorem firstUsableM {passed : List (Path × String)} (h : PassedOver registry opener passed)
    (rest : List Path) (sink : Sink) (asked : List Path) :
    firstUsableM (noted (Table.load opener)) (passed.map Prod.fst ++ rest) registry sink asked =
      firstUsableM (noted (Table.load opener)) rest registry (sink ++ passedFaults passed)
        (asked ++ passed.map Prod.fst) := by
  induction passed generalizing sink asked with
  | nil => simp only [passedFaults, List.map_nil, List.nil_append, List.append_nil]
  | cons candidate others ih =>
    obtain ⟨hdead, hopen⟩ := h candidate List.mem_cons_self
    have hothers : PassedOver registry opener others := fun other hother =>
      h other (List.mem_cons_of_mem candidate hother)
    have hacquire := Registry.acquire_of_error (Table.load opener) hdead (Table.load_of_error hopen)
    rw [List.map_cons, List.cons_append, firstUsableM_noted_cons]
    simp only [hdead, hacquire, Option.isSome_none, Bool.false_eq_true, if_false]
    rw [ih hothers, List.append_assoc, List.append_assoc]
    rfl

end PassedOver

namespace Provider

variable {provider : Provider} {opener : Path → Except String Library} {registry : Registry}

/-- A library that opens but lacks an entry point keeps the next one from being tried. -/
example :
    let lacking (path : Path) := if path.text = "/old.so" then ["bcp_sendrow"] else []
    let opener (path : Path) : Except String Library :=
      .ok (.stub "no such symbol" (lacking path) .accepting)
    (Provider.search ⟨"two libraries", [⟨"/old.so"⟩, ⟨"/new.so"⟩]⟩ (Table.load opener)
      .empty []).2.2 = [.entryPointMissing ⟨"/old.so"⟩ "bcp_sendrow" "no such symbol"] := by
  decide

end Provider

end BulkLoad
