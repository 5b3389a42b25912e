import BulkLoad.Proofs.Session.History
import BulkLoad.Proofs.Session.Kinds

/-! # What the server reads

Whatever is asked of a session, whatever the server answers and however the session ends, the
server reads one row after the other in each send: all bound locations lie inside their slots and
hold the row's own values and nulls, no matter what they held before.
-/
namespace BulkLoad

variable {batch : Batch} {connection : Nat}

theorem Batch.getElem_sendRequests {number : Nat} (h : number < batch.sendRequests.length) :
    batch.sendRequests[number] = .send ((batch.row number).map some) := by
  simp [sendRequests]

theorem Batch.take_sendRequests {count : Nat} (h : count ≤ batch.rows) :
    batch.sendRequests.take count =
      (List.range count).map fun number => .send ((batch.row number).map some) := by
  rw [sendRequests, ← List.map_take, ← List.range_eq_range', List.take_range, Nat.min_eq_left h]

namespace Course

variable (course : Course batch)

theorem request_sends {number : Nat} {call : Call}
    (h : (course.sends connection)[number]? = some call) :
    number < batch.rows ∧ call.request = .send ((batch.row number).map some) := by
  have hrequest : ((course.sends connection).map Call.request)[number]? = some call.request := by
    rw [List.getElem?_map, h, Option.map_some]
  obtain ⟨hlt, hget⟩ := List.getElem?_eq_some_iff.mp hrequest
  have hfront : (course.sends connection).map Call.request <+: batch.sendRequests :=
    course.request_sends_isPrefix
  have hrow := hlt.trans_le hfront.length_le
  refine ⟨by simpa using hrow, ?_⟩
  rw [← hget, hfront.getElem hlt, Batch.getElem_sendRequests]

theorem request_succeeded_sends :
    ((course.sends connection).filter (·.status = succeeded)).map Call.request =
      (List.range course.rowsSent).map fun number => .send ((batch.row number).map some) := by
  rw [filter_succeeded_sends, Batch.take_sendRequests course.rowsSent_le, Log.granted,
    List.map_map]
  exact List.map_id _

end Course

namespace History

/-- The k-th send carries row k, and the sends that succeed carry the first rows in their order. -/
theorem sends_of_finish {session : Session} (built : ∀ column ∈ batch.columns, column.Built)
    (created : Session.create connection batch = .ok session) (server : Server) (log : Log)
    (steps : List Step) (ending : Ending) :
    let history := (ofSession session log).perform server steps
    .error .trap ∉ history.answers ∧ ∃ calls, history.finish server ending = log ++ calls ∧
      (∀ number call, (calls.filter Call.isSend)[number]? = some call →
        number < batch.rows ∧ call.request = .send ((batch.row number).map some)) ∧
      ∃ sent ≤ batch.rows,
        ((calls.filter Call.isSend).filter (·.status = succeeded)).map Call.request =
          (List.range sent).map fun number => .send ((batch.row number).map some) := by
  have hanswers := (follows_perform built created server log steps).answers
  obtain ⟨last, hlast⟩ := exists_finish_eq built created server log steps ending
  refine ⟨hanswers, last.lifeCalls server connection log, hlast, ?_⟩
  rw [Course.filter_isSend_lifeCalls]
  exact ⟨fun number call h => last.request_sends h, last.rowsSent, last.rowsSent_le,
    last.request_succeeded_sends⟩

theorem sends_of_finish_sample :
    (∀ column ∈ Batch.sample.columns, column.Built) ∧
      Session.create 1 Batch.sample = .ok Session.sample ∧
      ∃ calls, (ofSession Session.sample []).finish Script.accepting.server .complete =
          [] ++ calls ∧
        (calls.filter Call.isSend).length = 2 ∧
        ∀ number call, (calls.filter Call.isSend)[number]? = some call →
          number < 2 ∧ call.request = .send ((Batch.sample.row number).map some) := by
  refine ⟨Batch.built_sample, Session.create_sample, ?_⟩
  obtain ⟨-, calls, hcalls, hsends, -⟩ := sends_of_finish Batch.built_sample
    Session.create_sample Script.accepting.server [] [] .complete
  have hlength : (calls.filter Call.isSend).length = 2 := by
    rw [← List.nil_append calls, ← hcalls]
    decide
  exact ⟨calls, hcalls, hlength, hsends⟩

end History

end BulkLoad
