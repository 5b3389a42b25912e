import BulkLoad.Proofs.Session.History
import BulkLoad.Proofs.Session.Kinds

/-! # What a session says to the server

The calls of a session's whole life have one of a few shapes: nothing at all, an init that is
refused, or an init that is granted, some of the columns and rows in their order, and a last call
that finishes. So whatever the server grants is finished exactly once, and nothing follows.
-/
namespace BulkLoad

/-- What may be said between a granted init and the last call. A refused column or row is the last
of its kind, and rows are sent only when all columns are bound. -/
inductive Middle (batch : Batch) (connection : Nat) : Log → Prop
  | nothing : Middle batch connection []
  | refused (refusal : Refusal batch.bindRequests) :
      Middle batch connection (attempted connection batch.bindRequests (some refusal))
  | bound : Middle batch connection (Log.granted connection batch.bindRequests)
  | sent (stop : Option (Refusal batch.sendRequests)) :
      Middle batch connection (Log.granted connection batch.bindRequests ++
        attempted connection batch.sendRequests stop)

inductive Conversation (batch : Batch) (connection : Nat) : Log → Prop
  | silent : Conversation batch connection []
  | refused (status : Int32) (h : status ≠ succeeded) :
      Conversation batch connection [⟨connection, batch.initRequest, status⟩]
  | held {middle : Log} (h : Middle batch connection middle) (answer : Int32) :
      Conversation batch connection
        (⟨connection, batch.initRequest, succeeded⟩ :: middle ++ [⟨connection, .done, answer⟩])

variable {batch : Batch} {connection : Nat} {calls : Log} {call : Call}

theorem Middle.of_mem (h : Middle batch connection calls) (hcall : call ∈ calls) :
    call.connection = connection ∧ call.isInit = false ∧ call.isDone = false := by
  have hbind (stop : Option (Refusal batch.bindRequests))
      (hcall : call ∈ attempted connection batch.bindRequests stop) :
      call.connection = connection ∧ call.isInit = false ∧ call.isDone = false := by
    obtain ⟨hconnection, hmem⟩ := mem_attempted hcall
    obtain ⟨binding, hbinding⟩ := Batch.bind_of_mem_bindRequests hmem
    simp [Call.isInit, Call.isDone, hconnection, hbinding]
  have hsend (stop : Option (Refusal batch.sendRequests))
      (hcall : call ∈ attempted connection batch.sendRequests stop) :
      call.connection = connection ∧ call.isInit = false ∧ call.isDone = false := by
    obtain ⟨hconnection, hmem⟩ := mem_attempted hcall
    obtain ⟨row, hrow⟩ := Batch.send_of_mem_sendRequests hmem
    simp [Call.isInit, Call.isDone, hconnection, hrow]
  cases h with
  | nothing => cases hcall
  | refused refusal => exact hbind (some refusal) hcall
  | bound => exact hbind none (by simpa using hcall)
  | sent stop =>
    rcases List.mem_append.mp hcall with hcall | hcall
    · exact hbind none (by simpa using hcall)
    · exact hsend stop hcall

namespace Conversation

theorem connection_eq (h : Conversation batch connection calls) (hcall : call ∈ calls) :
    call.connection = connection := by
  cases h with
  | silent => cases hcall
  | refused status _ =>
    obtain rfl := List.mem_singleton.mp hcall
    rfl
  | held hmiddle answer =>
    rcases List.mem_append.mp hcall with hcall | hcall
    · rcases List.mem_cons.mp hcall with rfl | hcall
      · rfl
      · exact (hmiddle.of_mem hcall).1
    · obtain rfl := List.mem_singleton.mp hcall
      rfl

theorem countP_isDone (h : Conversation batch connection calls) :
    calls.countP Call.isDone =
      if ∃ call ∈ calls, call.isInit = true ∧ call.status = succeeded then 1 else 0 := by
  cases h with
  | silent => rfl
  | refused status hstatus =>
    rw [if_neg (by simp [hstatus])]
    rfl
  | @held middle hmiddle answer =>
    have hdone : middle.countP Call.isDone = 0 :=
      List.countP_eq_zero.mpr fun call hcall => by simp [(hmiddle.of_mem hcall).2.2]
    rw [if_pos ⟨_, List.mem_cons_self, rfl, rfl⟩]
    simp [hdone, Call.isDone, Batch.initRequest]

theorem eq_nil_of_isDone (h : Conversation batch connection calls) {earlier later : Log}
    (hcalls : calls = earlier ++ call :: later) (hdone : call.isDone = true) : later = [] := by
  rcases List.eq_nil_or_concat later with hlater | ⟨rest, last, rfl⟩
  · exact hlater
  · exfalso
    have hcalls : calls = (earlier ++ call :: rest) ++ [last] := by
      rw [hcalls, List.append_assoc, List.cons_append, List.concat_eq_append]
    cases h with
    | silent =>
      exact absurd hcalls.symm (List.append_ne_nil_of_right_ne_nil _ (List.cons_ne_nil _ _))
    | refused status _ =>
      have hlength := congrArg List.length hcalls
      simp only [List.length_append, List.length_cons, List.length_nil] at hlength
      omega
    | @held middle hmiddle answer =>
      obtain ⟨hfront, -⟩ := List.append_inj' hcalls rfl
      have hmem : call ∈ (⟨connection, batch.initRequest, succeeded⟩ : Call) :: middle := by
        rw [hfront]
        simp
      rcases List.mem_cons.mp hmem with rfl | hmem
      · cases hdone
      · rw [(hmiddle.of_mem hmem).2.2] at hdone
        cases hdone

end Conversation

theorem Course.conversation_lifeCalls (server : Server) (log : Log) (course : Course batch) :
    Conversation batch connection (course.lifeCalls server connection log) := by
  cases course with
  | created => exact .silent
  | initRefused status refused => exact .refused status refused
  | initialized => exact .held .nothing _
  | bindRefused refusal => exact .held (.refused refusal) _
  | bound => exact .held .bound _
  | sent stop => exact .held (.sent stop) _
  | finished stop answer =>
    have hheld : Conversation batch connection _ := .held (.sent stop) answer
    simpa [lifeCalls, closing, isOpen, calls] using hheld

/-- Columns are bound under their numbers, counted from one, as far as a column number goes. -/
theorem Batch.column_bindings (batch : Batch) {position : Nat}
    (h : position < batch.bindings.length) :
    batch.bindings[position].column = Int32.ofNat (position + 1) ∧
      (position + 1 < 2 ^ 31 → batch.bindings[position].column.toInt = position + 1) := by
  have hcolumn : batch.bindings[position].column = Int32.ofNat (position + 1) := by
    simp [bindings, Slot.binding]
  refine ⟨hcolumn, fun hlt => ?_⟩
  rw [hcolumn, Int32.toInt_ofNat_of_lt hlt]
  rfl

/-- The calls of a whole life, whatever is asked of the session and however it ends. -/
theorem History.finish_conversation {session : Session}
    (built : ∀ column ∈ batch.columns, column.Built)
    (created : Session.create connection batch = .ok session) (server : Server) (log : Log)
    (steps : List Step) (ending : Ending) :
    ∃ calls, ((ofSession session log).perform server steps).finish server ending = log ++ calls ∧
      Conversation batch connection calls ∧
      (∀ call ∈ calls, call.connection = connection) ∧
      (calls.countP Call.isDone =
        if ∃ call ∈ calls, call.isInit = true ∧ call.status = succeeded then 1 else 0) ∧
      (∀ earlier done later, calls = earlier ++ done :: later → done.isDone = true → later = []) ∧
      batch.bindRequests.length = batch.columns.length ∧
      batch.sendRequests.length = session.rows ∧
      ∀ (position : Nat) (h : position < batch.bindings.length),
        batch.bindings[position].column = Int32.ofNat (position + 1) ∧
          (position + 1 < 2 ^ 31 → batch.bindings[position].column.toInt = position + 1) := by
  obtain ⟨last, hlast⟩ := exists_finish_eq built created server log steps ending
  have hconversation : Conversation batch connection _ := last.conversation_lifeCalls server log
  have hrows : batch.sendRequests.length = session.rows := by
    rw [Session.eq_of_create created, Batch.length_sendRequests]
  exact ⟨_, hlast, hconversation, fun call hcall => hconversation.connection_eq hcall,
    hconversation.countP_isDone,
    fun earlier done later hcalls hdone => hconversation.eq_nil_of_isDone hcalls hdone,
    batch.length_bindRequests, hrows, fun position h => batch.column_bindings h⟩

theorem History.finish_conversation_sample :
    (∀ column ∈ Batch.sample.columns, column.Built) ∧
      Session.create 1 Batch.sample = .ok Session.sample ∧
      ∃ calls, ((ofSession Session.sample []).perform Script.accepting.server
          [⟨.init, []⟩, ⟨.bind, []⟩]).finish Script.accepting.server .complete = [] ++ calls ∧
        Conversation Batch.sample 1 calls ∧ calls.countP Call.isDone = 1 := by
  refine ⟨Batch.built_sample, Session.create_sample, ?_⟩
  obtain ⟨calls, hcalls, hconversation, -, hfinished, -⟩ :=
    finish_conversation Batch.built_sample Session.create_sample Script.accepting.server []
      [⟨.init, []⟩, ⟨.bind, []⟩] .complete
  refine ⟨calls, hcalls, hconversation, ?_⟩
  rw [hfinished, if_pos]
  rw [List.nil_append] at hcalls
  rw [← hcalls]
  decide

end BulkLoad
