import Mathlib
import BulkLoad.Server.Scripted

/-! # Servers that keep connections apart

A server is local if its answer to a request depends only on the earlier calls on the same
connection. What is bound on a connection and how many rows were sent there never depends on more.
-/
namespace BulkLoad

namespace Log

/-- The calls on one connection. -/
def on (log : Log) (connection : Nat) : Log :=
  log.filter (·.connection = connection)

variable {connection : Nat} {log calls : Log}

@[simp] theorem on_append (first second : Log) (connection : Nat) :
    on (first ++ second) connection = on first connection ++ on second connection :=
  List.filter_append ..

theorem on_eq_self (h : ∀ call ∈ calls, call.connection = connection) :
    calls.on connection = calls :=
  List.filter_eq_self.mpr fun call hcall => by simpa using h call hcall

theorem on_eq_nil (h : ∀ call ∈ calls, call.connection ≠ connection) :
    calls.on connection = [] :=
  List.filter_eq_nil_iff.mpr fun call hcall => by simpa using h call hcall

theorem on_on (log : Log) (connection : Nat) :
    (log.on connection).on connection = log.on connection :=
  on_eq_self fun _ hcall => by simpa using (List.mem_filter.mp hcall).2

/-- Counting over a log can skip the calls on which the count does nothing. -/
theorem foldl_on {α : Type} (count : α → Call → α)
    (h : ∀ state call, call.connection ≠ connection → count state call = state) (state : α) :
    (log.on connection).foldl count state = log.foldl count state := by
  induction log generalizing state with
  | nil => rfl
  | cons call rest ih =>
    by_cases hcall : call.connection = connection
    · have hkept : on (call :: rest) connection = call :: on rest connection :=
        List.filter_cons_of_pos (by simpa using hcall)
      rw [hkept, List.foldl_cons, List.foldl_cons, ih]
    · have hskipped : on (call :: rest) connection = on rest connection :=
        List.filter_cons_of_neg (by simpa using hcall)
      rw [hskipped, List.foldl_cons, h state call hcall, ih]

theorem bound_on (log : Log) (connection : Nat) :
    (log.on connection).bound connection = log.bound connection :=
  foldl_on (rebind connection) (fun _ _ hcall => if_neg hcall) []

theorem sent_on (log : Log) (connection : Nat) :
    (log.on connection).sent connection = log.sent connection :=
  foldl_on (recount connection) (fun _ _ hcall => if_neg hcall) 0

end Log

/-- Answers depend only on the earlier calls on the same connection. -/
def Server.IsLocal (server : Server) : Prop :=
  ∀ log connection request,
    server.answer log connection request = server.answer (log.on connection) connection request

theorem Server.IsLocal.answer_eq {server : Server} (hlocal : server.IsLocal) {log own : Log}
    {connection : Nat} (h : log.on connection = own) (request : Request) :
    server.answer log connection request = server.answer own connection request := by
  rw [hlocal, h]

theorem Script.isLocal_accepting : accepting.server.IsLocal := by
  intro log connection request
  cases request with
  | done => exact congrArg Int32.ofNat (log.sent_on connection).symm
  | _ => rfl

end BulkLoad
