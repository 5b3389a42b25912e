import Mathlib
import BulkLoad.Server.Scripted

/-! # Requests in a row

Each phase of a load makes its requests one after the other and stops at the first that is not
granted. An attempt is the course of such a row: either all of it was granted, or everything
before one refusal was.
-/
namespace BulkLoad

/-- The calls of requests that were all granted. -/
def Log.granted (connection : Nat) (requests : List Request) : Log :=
  requests.map fun request => ⟨connection, request, succeeded⟩

namespace Log

variable (connection : Nat)

@[simp] theorem granted_nil : granted connection [] = [] := rfl

@[simp] theorem granted_cons (request : Request) (rest : List Request) :
    granted connection (request :: rest) =
      ⟨connection, request, succeeded⟩ :: granted connection rest := rfl

@[simp] theorem granted_append (first second : List Request) :
    granted connection (first ++ second) = granted connection first ++ granted connection second :=
  List.map_append

@[simp] theorem length_granted (requests : List Request) :
    (granted connection requests).length = requests.length := List.length_map _

theorem mem_granted {connection : Nat} {requests : List Request} {call : Call} :
    call ∈ granted connection requests ↔
      call.connection = connection ∧ call.request ∈ requests ∧ call.status = succeeded := by
  obtain ⟨other, request, status⟩ := call
  simp only [granted, List.mem_map, Call.mk.injEq]
  constructor
  · rintro ⟨_, hmem, rfl, rfl, rfl⟩
    exact ⟨rfl, hmem, rfl⟩
  · rintro ⟨rfl, hmem, rfl⟩
    exact ⟨request, hmem, rfl, rfl, rfl⟩

end Log

/-- The first request of a row that was not granted. -/
structure Refusal (requests : List Request) where
  position : Fin requests.length
  status : Int32
  refused : status ≠ succeeded

namespace Refusal

variable {requests : List Request}

def request (refusal : Refusal requests) : Request := requests[refusal.position]

def before (refusal : Refusal requests) : List Request := requests.take refusal.position

def later (first : Request) (refusal : Refusal requests) : Refusal (first :: requests) :=
  ⟨refusal.position.succ, refusal.status, refusal.refused⟩

@[simp] theorem before_later (first : Request) (refusal : Refusal requests) :
    (refusal.later first).before = first :: refusal.before := rfl

@[simp] theorem request_later (first : Request) (refusal : Refusal requests) :
    (refusal.later first).request = refusal.request := rfl

@[simp] theorem status_later (first : Request) (refusal : Refusal requests) :
    (refusal.later first).status = refusal.status := rfl

theorem later_injective (first : Request) :
    Function.Injective (later first : Refusal requests → Refusal (first :: requests)) := by
  rintro ⟨⟨p, hp⟩, s, hs⟩ ⟨⟨q, hq⟩, t, ht⟩ heq
  simp only [later, Refusal.mk.injEq, Fin.succ_mk, Fin.mk.injEq] at heq
  obtain ⟨hpq, rfl⟩ := heq
  obtain rfl := Nat.succ.inj hpq
  rfl

@[simp] theorem length_before (refusal : Refusal requests) :
    refusal.before.length = refusal.position :=
  List.length_take_of_le refusal.position.isLt.le

theorem before_isPrefix (refusal : Refusal requests) : refusal.before <+: requests :=
  List.take_prefix _ _

theorem request_mem (refusal : Refusal requests) : refusal.request ∈ requests :=
  List.getElem_mem _

end Refusal

def grantedOf (requests : List Request) : Option (Refusal requests) → List Request
  | none => requests
  | some refusal => refusal.before

def attempted (connection : Nat) (requests : List Request) (stop : Option (Refusal requests)) :
    Log :=
  Log.granted connection (grantedOf requests stop) ++
    (stop.map fun refusal => ⟨connection, refusal.request, refusal.status⟩).toList

@[simp] theorem attempted_none (connection : Nat) (requests : List Request) :
    attempted connection requests none = Log.granted connection requests := by
  simp [attempted, grantedOf]

theorem attempted_some (connection : Nat) (requests : List Request) (refusal : Refusal requests) :
    attempted connection requests (some refusal) =
      Log.granted connection refusal.before ++ [⟨connection, refusal.request, refusal.status⟩] :=
  rfl

@[simp] theorem attempted_later (connection : Nat) (first : Request) (requests : List Request)
    (stop : Option (Refusal requests)) :
    attempted connection (first :: requests) (stop.map (Refusal.later first)) =
      ⟨connection, first, succeeded⟩ :: attempted connection requests stop := by
  cases stop <;> rfl

theorem grantedOf_isPrefix (requests : List Request) (stop : Option (Refusal requests)) :
    grantedOf requests stop <+: requests := by
  cases stop with
  | none => exact List.prefix_refl _
  | some refusal => exact refusal.before_isPrefix

theorem mem_attempted {connection : Nat} {requests : List Request}
    {stop : Option (Refusal requests)} {call : Call} (h : call ∈ attempted connection requests stop) :
    call.connection = connection ∧ call.request ∈ requests := by
  rcases List.mem_append.mp h with h | h
  · obtain ⟨hconnection, hmem, -⟩ := Log.mem_granted.mp h
    exact ⟨hconnection, (grantedOf_isPrefix requests stop).subset hmem⟩
  · cases stop with
    | none => cases h
    | some refusal =>
      obtain rfl := List.mem_singleton.mp h
      exact ⟨rfl, refusal.request_mem⟩

/-- No request is left out, repeated or made before its turn. -/
theorem request_attempted_isPrefix (connection : Nat) (requests : List Request)
    (stop : Option (Refusal requests)) :
    (attempted connection requests stop).map Call.request <+: requests := by
  have hgranted (granted : List Request) :
      (Log.granted connection granted).map Call.request = granted := by
    rw [Log.granted, List.map_map]
    exact List.map_id granted
  cases stop with
  | none => rw [attempted_none, hgranted]
  | some refusal =>
    have htake : refusal.before ++ [refusal.request] = requests.take (refusal.position + 1) :=
      List.take_append_getElem refusal.position.isLt
    rw [attempted_some, List.map_append, hgranted, List.map_singleton, htake]
    exact List.take_prefix _ _

theorem filter_succeeded_attempted (connection : Nat) (requests : List Request)
    (stop : Option (Refusal requests)) :
    (attempted connection requests stop).filter (·.status = succeeded) =
      Log.granted connection (grantedOf requests stop) := by
  have hgranted (granted : List Request) : (Log.granted connection granted).filter
      (·.status = succeeded) = Log.granted connection granted := by
    refine List.filter_eq_self.mpr fun call hcall => ?_
    simpa using (Log.mem_granted.mp hcall).2.2
  cases stop with
  | none => rw [attempted_none, hgranted, grantedOf]
  | some refusal => simp [attempted_some, hgranted, grantedOf, refusal.refused]

@[simp] theorem length_grantedOf_later (first : Request) (requests : List Request)
    (stop : Option (Refusal requests)) :
    (grantedOf (first :: requests) (stop.map (Refusal.later first))).length =
      (grantedOf requests stop).length + 1 := by
  cases stop <;> rfl

namespace Server

variable (server : Server) (connection : Nat)

/-- Makes requests one after the other, after the calls of the log, up to the first refusal. -/
def attempt (log : Log) : (requests : List Request) → Option (Refusal requests)
  | [] => none
  | request :: rest =>
    if h : server.answer log connection request = succeeded then
      (attempt (log ++ [⟨connection, request, succeeded⟩]) rest).map (Refusal.later request)
    else some ⟨0, server.answer log connection request, h⟩

/-- All requests of a row are granted when they are made one after the other. -/
def Grants (log : Log) (requests : List Request) : Prop :=
  ∀ (position : Nat) (h : position < requests.length),
    server.answer (log ++ Log.granted connection (requests.take position)) connection
      requests[position] = succeeded

variable {server connection}

theorem grants_nil (log : Log) : server.Grants connection log [] := by
  intro position h
  cases h

theorem grants_cons {log : Log} {request : Request} {rest : List Request} :
    server.Grants connection log (request :: rest) ↔
      server.answer log connection request = succeeded ∧
        server.Grants connection (log ++ [⟨connection, request, succeeded⟩]) rest := by
  constructor
  · intro h
    refine ⟨by simpa using h 0 (Nat.zero_lt_succ _), fun position hlt => ?_⟩
    simpa using h (position + 1) (Nat.succ_lt_succ hlt)
  · rintro ⟨hfirst, hrest⟩ position hlt
    cases position with
    | zero => simpa using hfirst
    | succ position => simpa using hrest position (Nat.lt_of_succ_lt_succ hlt)

theorem grants_append {log : Log} {first second : List Request} :
    server.Grants connection log (first ++ second) ↔
      server.Grants connection log first ∧
        server.Grants connection (log ++ Log.granted connection first) second := by
  induction first generalizing log with
  | nil => simp [grants_nil]
  | cons request rest ih => simp [grants_cons, ih, and_assoc]

theorem attempt_eq_none_iff {log : Log} {requests : List Request} :
    server.attempt connection log requests = none ↔ server.Grants connection log requests := by
  induction requests generalizing log with
  | nil => simp [attempt, grants_nil]
  | cons request rest ih =>
    rw [grants_cons, attempt]
    split
    · next h => simp [h, ih]
    · next h => simp [h]

/-- Where a refusal stands, everything before it was granted. -/
theorem attempt_eq_some_iff {log : Log} {requests : List Request} {refusal : Refusal requests} :
    server.attempt connection log requests = some refusal ↔
      server.Grants connection log refusal.before ∧
        server.answer (log ++ Log.granted connection refusal.before) connection refusal.request =
          refusal.status := by
  induction requests generalizing log with
  | nil => exact refusal.position.elim0
  | cons request rest ih =>
    obtain ⟨⟨position, hlt⟩, status, refused⟩ := refusal
    rw [attempt]
    cases position with
    | zero =>
      split
      · next h =>
        constructor
        · intro hmap
          obtain ⟨earlier, -, hlater⟩ := Option.map_eq_some_iff.mp hmap
          exact absurd (congrArg (fun r => r.position.val) hlater) (Nat.succ_ne_zero _)
        · rintro ⟨-, hstatus⟩
          have hanswer : server.answer log connection request = status := by
            simpa [Refusal.before, Refusal.request] using hstatus
          exact absurd (hanswer.symm.trans h) refused
      · next h =>
        simp [Refusal.before, Refusal.request, grants_nil]
    | succ position =>
      have hlater : (⟨⟨position + 1, hlt⟩, status, refused⟩ : Refusal (request :: rest)) =
          Refusal.later request ⟨⟨position, Nat.lt_of_succ_lt_succ hlt⟩, status, refused⟩ := rfl
      rw [hlater, Refusal.before_later, Refusal.request_later, Refusal.status_later, grants_cons]
      split
      · next h =>
        rw [← Option.map_some, (Option.map_injective (Refusal.later_injective request)).eq_iff, ih]
        simp [h]
      · next h => simp [h, Refusal.later]

theorem grants_or_refused (log : Log) (requests : List Request) :
    server.Grants connection log requests ∨ ∃ refusal : Refusal requests,
      server.Grants connection log refusal.before ∧
        server.answer (log ++ Log.granted connection refusal.before) connection refusal.request =
          refusal.status := by
  cases h : server.attempt connection log requests with
  | none => exact .inl (attempt_eq_none_iff.mp h)
  | some refusal => exact .inr ⟨refusal, attempt_eq_some_iff.mp h⟩

end Server

end BulkLoad
