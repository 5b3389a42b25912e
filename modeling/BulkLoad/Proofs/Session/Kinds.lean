import BulkLoad.Proofs.Session.Execution

/-! # Calls by their kind

The calls of a course are at most one that names the table, then some that bind columns, then some
that send rows, then at most one that finishes.
-/
namespace BulkLoad

namespace Batch

variable {batch : Batch} {request : Request}

theorem bind_of_mem_bindRequests (h : request ∈ batch.bindRequests) :
    ∃ binding, request = .bind binding := by
  obtain ⟨binding, -, rfl⟩ := List.mem_map.mp h
  exact ⟨binding, rfl⟩

theorem send_of_mem_sendRequests (h : request ∈ batch.sendRequests) :
    ∃ row, request = .send row := by
  obtain ⟨number, -, rfl⟩ := List.mem_map.mp h
  exact ⟨_, rfl⟩

end Batch

namespace Log

theorem foldl_recount_binds {calls : Log} (connection : Nat)
    (h : ∀ call ∈ calls, ∃ binding, call.request = .bind binding) (count : Nat) :
    calls.foldl (recount connection) count = count := by
  induction calls with
  | nil => rfl
  | cons call rest ih =>
    obtain ⟨binding, hbinding⟩ := h call List.mem_cons_self
    simpa [recount, hbinding] using
      ih fun other hother => h other (List.mem_cons_of_mem call hother)

theorem foldl_recount_sends {calls : Log} {connection : Nat}
    (h : ∀ call ∈ calls, call.connection = connection ∧ ∃ row, call.request = .send row)
    (count : Nat) : calls.foldl (recount connection) count =
      count + (calls.filter (·.status = succeeded)).length := by
  induction calls generalizing count with
  | nil => rfl
  | cons call rest ih =>
    obtain ⟨hconnection, row, hrow⟩ := h call List.mem_cons_self
    have hrest := ih fun other hother => h other (List.mem_cons_of_mem call hother)
    by_cases hstatus : call.status = succeeded
    · simp [recount, hconnection, hrow, hstatus, hrest]
      omega
    · simp [recount, hconnection, hrow, hstatus, hrest]

end Log

namespace Course

variable {batch : Batch} (connection : Nat)

def inits : Course batch → Log
  | created => []
  | initRefused status _ => [⟨connection, batch.initRequest, status⟩]
  | _ => [⟨connection, batch.initRequest, succeeded⟩]

def binds : Course batch → Log
  | bindRefused refusal => attempted connection batch.bindRequests (some refusal)
  | bound | sent _ | finished .. => Log.granted connection batch.bindRequests
  | created | initRefused .. | initialized => []

def sends : Course batch → Log
  | sent stop | finished stop _ => attempted connection batch.sendRequests stop
  | _ => []

def dones : Course batch → Log
  | finished _ answer => [⟨connection, .done, answer⟩]
  | _ => []

variable {connection} {course : Course batch} {call : Call}

theorem calls_eq (connection : Nat) (course : Course batch) :
    course.calls connection = course.inits connection ++ course.binds connection ++
      course.sends connection ++ course.dones connection := by
  cases course <;> simp [calls, inits, binds, sends, dones]

theorem of_mem_inits (h : call ∈ course.inits connection) :
    call.connection = connection ∧ call.request = batch.initRequest := by
  cases course with
  | created => cases h
  | _ =>
    obtain rfl := List.mem_singleton.mp h
    exact ⟨rfl, rfl⟩

theorem of_mem_binds (h : call ∈ course.binds connection) :
    call.connection = connection ∧ ∃ binding, call.request = .bind binding := by
  have hall (stop : Option (Refusal batch.bindRequests))
      (h : call ∈ attempted connection batch.bindRequests stop) :
      call.connection = connection ∧ ∃ binding, call.request = .bind binding := by
    obtain ⟨hconnection, hmem⟩ := mem_attempted h
    exact ⟨hconnection, Batch.bind_of_mem_bindRequests hmem⟩
  cases course with
  | created | initRefused | initialized => cases h
  | bindRefused refusal => exact hall (some refusal) h
  | bound | sent | finished => exact hall none (by simpa [binds] using h)

theorem of_mem_sends (h : call ∈ course.sends connection) :
    call.connection = connection ∧ ∃ row, call.request = .send row := by
  cases course with
  | sent stop | finished stop _ =>
    obtain ⟨hconnection, hmem⟩ := mem_attempted h
    exact ⟨hconnection, Batch.send_of_mem_sendRequests hmem⟩
  | _ => cases h

theorem of_mem_dones (h : call ∈ course.dones connection) :
    call.connection = connection ∧ call.request = .done := by
  cases course with
  | finished stop answer =>
    obtain rfl := List.mem_singleton.mp h
    exact ⟨rfl, rfl⟩
  | _ => cases h

/-- A test that looks at nothing but the kind keeps the calls of the kinds that pass it. -/
theorem filter_calls (course : Course batch) (test : Call → Bool) {init bind send done : Bool}
    (hinit : ∀ status, test ⟨connection, batch.initRequest, status⟩ = init)
    (hbind : ∀ binding status, test ⟨connection, .bind binding, status⟩ = bind)
    (hsend : ∀ row status, test ⟨connection, .send row, status⟩ = send)
    (hdone : ∀ status, test ⟨connection, .done, status⟩ = done) :
    (course.calls connection).filter test =
      (if init then course.inits connection else []) ++
        (if bind then course.binds connection else []) ++
        (if send then course.sends connection else []) ++
        (if done then course.dones connection else []) := by
  have hfilter {calls : Log} {passes : Bool} (h : ∀ call ∈ calls, test call = passes) :
      calls.filter test = if passes then calls else [] := by
    cases passes with
    | false => exact List.filter_eq_nil_iff.mpr fun call hcall => by simp [h call hcall]
    | true => exact List.filter_eq_self.mpr h
  rw [calls_eq, List.filter_append, List.filter_append, List.filter_append]
  congr 1
  · congr 1
    · congr 1
      · refine hfilter fun call hcall => ?_
        obtain ⟨other, request, status⟩ := call
        obtain ⟨rfl, rfl⟩ := of_mem_inits hcall
        exact hinit status
      · refine hfilter fun call hcall => ?_
        obtain ⟨other, request, status⟩ := call
        obtain ⟨rfl, binding, rfl⟩ := of_mem_binds hcall
        exact hbind binding status
    · refine hfilter fun call hcall => ?_
      obtain ⟨other, request, status⟩ := call
      obtain ⟨rfl, row, rfl⟩ := of_mem_sends hcall
      exact hsend row status
  · refine hfilter fun call hcall => ?_
    obtain ⟨other, request, status⟩ := call
    obtain ⟨rfl, rfl⟩ := of_mem_dones hcall
    exact hdone status

theorem filter_isInit_calls (course : Course batch) :
    (course.calls connection).filter Call.isInit = course.inits connection := by
  simpa using course.filter_calls Call.isInit (fun _ => rfl) (fun _ _ => rfl) (fun _ _ => rfl)
    (fun _ => rfl)

theorem filter_isBind_calls (course : Course batch) :
    (course.calls connection).filter Call.isBind = course.binds connection := by
  simpa using course.filter_calls Call.isBind (fun _ => rfl) (fun _ _ => rfl) (fun _ _ => rfl)
    (fun _ => rfl)

theorem filter_isSend_calls (course : Course batch) :
    (course.calls connection).filter Call.isSend = course.sends connection := by
  simpa using course.filter_calls Call.isSend (fun _ => rfl) (fun _ _ => rfl) (fun _ _ => rfl)
    (fun _ => rfl)

theorem filter_isSend_lifeCalls (server : Server) (log : Log) (course : Course batch) :
    (course.lifeCalls server connection log).filter Call.isSend = course.sends connection := by
  have hclosing : (course.closing server connection log).filter Call.isSend = [] := by
    unfold closing
    split <;> rfl
  rw [lifeCalls, List.filter_append, filter_isSend_calls, hclosing, List.append_nil]

theorem filter_isDone_calls (course : Course batch) :
    (course.calls connection).filter Call.isDone = course.dones connection := by
  simpa using course.filter_calls Call.isDone (fun _ => rfl) (fun _ _ => rfl) (fun _ _ => rfl)
    (fun _ => rfl)

/-- The rows that were sent, the last of them perhaps in vain, are the first ones. -/
theorem request_sends_isPrefix (course : Course batch) :
    (course.sends connection).map Call.request <+: batch.sendRequests := by
  cases course with
  | sent stop | finished stop _ =>
    exact request_attempted_isPrefix connection batch.sendRequests stop
  | _ => exact List.nil_prefix

theorem filter_succeeded_sends (course : Course batch) :
    (course.sends connection).filter (·.status = succeeded) =
      Log.granted connection (batch.sendRequests.take course.rowsSent) := by
  have hstop (stop : Option (Refusal batch.sendRequests)) :
      (attempted connection batch.sendRequests stop).filter (·.status = succeeded) =
        Log.granted connection
          (batch.sendRequests.take (grantedOf batch.sendRequests stop).length) := by
    have htake := List.prefix_iff_eq_take.mp (grantedOf_isPrefix batch.sendRequests stop)
    rw [filter_succeeded_attempted, ← htake]
  cases course with
  | sent stop | finished stop _ => exact hstop stop
  | _ => rfl

theorem rowsSent_le (course : Course batch) : course.rowsSent ≤ batch.rows := by
  cases course with
  | sent stop | finished stop _ =>
    have hlength := (grantedOf_isPrefix batch.sendRequests stop).length_le
    simpa [rowsSent] using hlength
  | _ => exact Nat.zero_le _

theorem length_succeeded_sends (course : Course batch) :
    ((course.sends connection).filter (·.status = succeeded)).length = course.rowsSent := by
  rw [filter_succeeded_sends, Log.length_granted]
  exact List.length_take_of_le (by simpa using course.rowsSent_le)

theorem sent_calls (log : Log) (stop : Option (Refusal batch.sendRequests)) :
    (log ++ (sent stop).calls connection).sent connection = (sent stop).rowsSent := by
  have hbinds : ∀ call ∈ (sent stop).binds connection, ∃ binding, call.request = .bind binding :=
    fun call hcall => (of_mem_binds hcall).2
  have hsends : ∀ call ∈ (sent stop).sends connection,
      call.connection = connection ∧ ∃ row, call.request = .send row :=
    fun call hcall => of_mem_sends hcall
  have hinits (count : Nat) : ((sent stop).inits connection).foldl (Log.recount connection) count =
      0 := by
    simp [inits, Log.recount, Batch.initRequest]
  rw [Log.sent, List.foldl_append, calls_eq, List.foldl_append, List.foldl_append,
    List.foldl_append, hinits, Log.foldl_recount_binds connection hbinds,
    Log.foldl_recount_sends hsends, length_succeeded_sends]
  exact Nat.zero_add _

end Course

end BulkLoad
