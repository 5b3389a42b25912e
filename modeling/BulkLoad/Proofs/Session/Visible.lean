import BulkLoad.Proofs.Session.History
import BulkLoad.Proofs.Session.Kinds

/-! # What can be seen of a session

The phase of a session, whether it is open and the faults that it recorded agree with the calls
that it made. A failed load that is still open had a column refused; any other failed load has
nothing left to free.
-/
namespace BulkLoad

/-- The phase of a session, its openness and its faults so far do not contradict its calls. -/
structure Truthful (session : Session) (faults : Sink) (calls : Log) : Prop where
  faultless : faults = [] ↔
    session.phase ∈ [.created, .initialized, .bound, .sending false, .finished .succeeded]
  faulty : faults ≠ [] ↔ session.phase ∈ [.sending true, .finished .failed]
  atMostTwo : faults.length ≤ 2
  two : faults.length = 2 → ∃ row status final,
    faults = [.rowRefused row status, .notFinalized final]
  /-- An open session has been granted its init and was not finished. -/
  held : session.isOpen = true ↔
    (∃ call ∈ calls, call.isInit = true ∧ call.status = succeeded) ∧
      ∀ call ∈ calls, call.isDone = false
  inPhase : session.isOpen = true ↔
    session.phase ∈ [.initialized, .bound, .sending false, .sending true] ∨
      session.phase = .finished .failed ∧
        ∃ call ∈ calls, call.isBind = true ∧ call.status ≠ succeeded
  /-- Everything was bound and sent unless something was refused. -/
  complete : session.phase ∈ [.sending false, .finished .succeeded] →
    calls.filter Call.isBind = Log.granted session.connection session.batch.bindRequests ∧
      ((calls.filter Call.isSend).filter (·.status = succeeded)).length = session.rows
  aborted : session.phase = .sending true →
    ((calls.filter Call.isSend).filter (·.status = succeeded)).length < session.rows
  finalized : session.phase = .finished .succeeded →
    ∃ call ∈ calls, call.isDone = true ∧ 0 ≤ call.status.toInt

variable {batch : Batch} {connection : Nat}

namespace Course

variable (course : Course batch)

theorem faults_eq_nil_iff : course.faults = [] ↔
    course.phase ∈ [.created, .initialized, .bound, .sending false, .finished .succeeded] := by
  cases course with
  | sent stop => cases stop <;> simp [faults, phase, rowFaults]
  | finished stop answer =>
    by_cases h : answer.toInt < 0
    · simp [faults, phase, finalFaults, h]
    · cases stop <;> simp [faults, phase, finalFaults, rowFaults, h]
  | _ => simp [faults, phase]

theorem faults_ne_nil_iff : course.faults ≠ [] ↔
    course.phase ∈ [.sending true, .finished .failed] := by
  rw [Ne, faults_eq_nil_iff]
  cases course.phase with
  | sending aborted => cases aborted <;> simp
  | finished completion => cases completion <;> simp
  | _ => simp

theorem length_faults_le : course.faults.length ≤ 2 := by
  cases course with
  | sent stop => cases stop <;> simp [faults, rowFaults]
  | finished stop answer =>
    by_cases h : answer.toInt < 0 <;> cases stop <;> simp [faults, finalFaults, rowFaults, h]
  | _ => simp [faults]

theorem two_faults (h : course.faults.length = 2) :
    ∃ row status final, course.faults = [.rowRefused row status, .notFinalized final] := by
  cases course with
  | sent stop => cases stop <;> simp [faults, rowFaults] at h
  | finished stop answer =>
    by_cases hnegative : answer.toInt < 0
    · cases stop with
      | none => simp [faults, finalFaults, rowFaults, hnegative] at h
      | some refusal =>
        exact ⟨refusal.position, refusal.status, answer,
          by simp [faults, finalFaults, rowFaults, hnegative]⟩
    · cases stop <;> simp [faults, finalFaults, rowFaults, hnegative] at h
  | _ => simp [faults] at h

theorem isOpen_iff_calls : course.isOpen = true ↔
    (∃ call ∈ course.calls connection, call.isInit = true ∧ call.status = succeeded) ∧
      ∀ call ∈ course.calls connection, call.isDone = false := by
  have hinits : (∃ call ∈ course.calls connection, call.isInit = true ∧ call.status = succeeded) ↔
      ∃ call ∈ course.inits connection, call.status = succeeded := by
    simp only [← filter_isInit_calls, List.mem_filter, and_assoc]
  have hdones : (∀ call ∈ course.calls connection, call.isDone = false) ↔
      course.dones connection = [] := by
    simp only [← filter_isDone_calls, List.filter_eq_nil_iff, Bool.not_eq_true]
  rw [hinits, hdones]
  cases course with
  | initRefused status refused => simp [isOpen, inits, refused]
  | _ => simp [isOpen, inits, dones]

theorem exists_refused_binds : (∃ call ∈ course.binds connection, call.status ≠ succeeded) ↔
    ∃ refusal, course = bindRefused refusal := by
  have hgranted : ¬∃ call ∈ Log.granted connection batch.bindRequests, call.status ≠ succeeded := by
    rintro ⟨call, hcall, hrefused⟩
    exact hrefused (Log.mem_granted.mp hcall).2.2
  cases course with
  | bindRefused refusal =>
    have hlast : (⟨connection, refusal.request, refusal.status⟩ : Call) ∈
        (bindRefused refusal).binds connection :=
      List.mem_append_right _ (List.mem_singleton.mpr rfl)
    exact iff_of_true ⟨_, hlast, refusal.refused⟩ ⟨refusal, rfl⟩
  | bound | sent | finished => exact iff_of_false hgranted (by simp)
  | _ => simp [binds]

theorem isOpen_iff_phase : course.isOpen = true ↔
    course.phase ∈ [.initialized, .bound, .sending false, .sending true] ∨
      course.phase = .finished .failed ∧
        ∃ call ∈ course.calls connection, call.isBind = true ∧ call.status ≠ succeeded := by
  have hbinds : (∃ call ∈ course.calls connection, call.isBind = true ∧ call.status ≠ succeeded) ↔
      ∃ call ∈ course.binds connection, call.status ≠ succeeded := by
    simp only [← filter_isBind_calls, List.mem_filter, and_assoc]
  rw [hbinds, exists_refused_binds]
  cases course with
  | sent stop => cases stop <;> simp [isOpen, phase]
  | finished stop answer =>
    by_cases h : answer.toInt < 0 <;> simp [isOpen, phase, h]
  | _ => simp [isOpen, phase]

theorem sends_of_phase (h : course.phase ∈ [.sending false, .finished .succeeded]) :
    course.binds connection = Log.granted connection batch.bindRequests ∧
      course.rowsSent = batch.rows := by
  cases course with
  | sent stop =>
    cases stop with
    | none => exact ⟨rfl, batch.length_sendRequests⟩
    | some refusal => simp [phase] at h
  | finished stop answer =>
    by_cases hnegative : answer.toInt < 0
    · simp [phase, hnegative] at h
    · cases stop with
      | none => exact ⟨rfl, batch.length_sendRequests⟩
      | some refusal => simp [phase, hnegative] at h
  | _ => simp [phase] at h

theorem rowsSent_lt (h : course.phase = .sending true) : course.rowsSent < batch.rows := by
  cases course with
  | sent stop =>
    cases stop with
    | none => simp [phase] at h
    | some refusal => simpa [rowsSent, grantedOf] using refusal.position.isLt
  | finished stop answer =>
    by_cases hnegative : answer.toInt < 0 <;> simp [phase, hnegative] at h
  | _ => simp [phase] at h

theorem done_of_phase (h : course.phase = .finished .succeeded) :
    ∃ call ∈ course.calls connection, call.isDone = true ∧ 0 ≤ call.status.toInt := by
  cases course with
  | finished stop answer =>
    by_cases hnegative : answer.toInt < 0
    · simp [phase, hnegative] at h
    · exact ⟨⟨connection, .done, answer⟩, by simp [calls], rfl, not_lt.mp hnegative⟩
  | _ => simp [phase] at h

theorem truthful (connection : Nat) (slots : List Slot) :
    Truthful (course.session connection slots) course.faults (course.calls connection) where
  faultless := course.faults_eq_nil_iff
  faulty := course.faults_ne_nil_iff
  atMostTwo := course.length_faults_le
  two := course.two_faults
  held := course.isOpen_iff_calls
  inPhase := course.isOpen_iff_phase
  complete := by
    rw [filter_isBind_calls, filter_isSend_calls, length_succeeded_sends]
    exact course.sends_of_phase
  aborted := by
    rw [filter_isSend_calls, length_succeeded_sends]
    exact course.rowsSent_lt
  finalized := course.done_of_phase

end Course

namespace History

/-- What is visible is true at any time, and operations only append to their sinks. -/
theorem truthful_perform {session : Session} (built : ∀ column ∈ batch.columns, column.Built)
    (created : Session.create connection batch = .ok session) (server : Server) (log : Log)
    (steps : List Step) :
    let history := (ofSession session log).perform server steps
    history.session.batch = batch ∧
    (∃ calls, history.log = log ++ calls ∧ Truthful history.session history.faults calls) ∧
    ∀ operation, ∃ appended, ∀ sink,
      (Run.apply server operation ⟨history.session, history.log, sink⟩).2.sink =
        sink ++ appended := by
  intro history
  have huniform := Session.uniform_of_create built created
  have hfollows := follows_perform built created server log steps
  obtain ⟨slots, -, hsession⟩ := hfollows.session
  refine ⟨by rw [hsession]; rfl, ?_, ?_⟩
  · refine ⟨_, hfollows.log, ?_⟩
    rw [hsession, hfollows.faults]
    exact Course.truthful _ connection slots
  · intro operation
    obtain ⟨slots, hslots, hrun⟩ := hfollows.run_eq
    obtain ⟨answer, final, appended, -, -, -, happly⟩ :=
      Course.apply_advance huniform server connection log _ operation hslots
    refine ⟨appended, fun sink => ?_⟩
    rw [hrun, happly]
    rfl

theorem truthful_perform_refused :
    (∀ column ∈ Batch.sample.columns, column.Built) ∧
      Session.create 1 Batch.sample = .ok Session.sample ∧
      let server := Script.server { Script.accepting with bind := fun _ => some refused }
      let history := (ofSession Session.sample []).perform server [⟨.init, []⟩, ⟨.bind, []⟩]
      history.session.phase = .finished .failed ∧ history.session.isOpen = true ∧
        ∃ calls, history.log = [] ++ calls ∧ Truthful history.session history.faults calls :=
  ⟨Batch.built_sample, Session.create_sample, by decide, by decide,
    (truthful_perform Batch.built_sample Session.create_sample _ [] _).2.1⟩

end History

end BulkLoad
