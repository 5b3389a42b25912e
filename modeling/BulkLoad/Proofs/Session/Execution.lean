import BulkLoad.Proofs.Session.Following

/-! # Whole runs of a session

Executing a fresh session takes it as far as its course goes, and closing it then frees what the
server still holds. Any other session is refused at its first phase and only closed.
-/
namespace BulkLoad

namespace Run

@[simp] theorem close_sink (server : Server) (run : Run) : (run.close server).sink = run.sink := by
  unfold close
  split <;> rfl

theorem close_log (server : Server) (session : Session) (log : Log) (sink other : Sink) :
    (close server ⟨session, log, sink⟩).log = (close server ⟨session, log, other⟩).log := by
  unfold close
  split <;> rfl

section Drive

variable {server : Server} {run initialized bound sent final : Run} {reply reply' reply'' : Reply}

theorem drive_of_init (hinit : run.init server = (.ok reply, initialized))
    (hstopped : initialized.session.phase ≠ .initialized) :
    run.drive server = (.ok 0, initialized) := by
  simp only [drive, hinit, if_pos hstopped]

theorem drive_of_bind (hinit : run.init server = (.ok reply, initialized))
    (hinitialized : initialized.session.phase = .initialized)
    (hbind : initialized.bind server = (.ok reply', bound))
    (hstopped : bound.session.phase ≠ .bound) :
    run.drive server = (.ok 0, bound) := by
  simp only [drive, hinit, if_neg (not_not_intro hinitialized), hbind, if_pos hstopped]

theorem drive_of_done {rows : Option Nat} (hinit : run.init server = (.ok reply, initialized))
    (hinitialized : initialized.session.phase = .initialized)
    (hbind : initialized.bind server = (.ok reply', bound))
    (hbound : bound.session.phase = .bound)
    (hinsert : bound.insert server = (.ok reply'', sent))
    (hdone : sent.done server = (.ok (.accepted rows), final)) :
    run.drive server = (.ok (rows.getD 0), final) := by
  simp only [drive, hinit, if_neg (not_not_intro hinitialized), hbind,
    if_neg (not_not_intro hbound), hinsert, hdone]
  cases rows <;> rfl

end Drive

end Run

namespace Course

variable {batch : Batch} (server : Server) (connection : Nat) (log : Log)

def whole (batch : Batch) : Course batch :=
  if h : server.answer log connection batch.initRequest = succeeded then
    match server.attempt connection (log ++ (initialized : Course batch).calls connection)
        batch.bindRequests with
    | some refusal => bindRefused refusal
    | none =>
      let stop := server.attempt connection (log ++ (bound : Course batch).calls connection)
        batch.sendRequests
      finished stop (server.answer (log ++ (sent stop).calls connection) connection .done)
  else initRefused (server.answer log connection batch.initRequest) h

def report (course : Course batch) : Report := ⟨course.acceptedRows.getD 0, course.faults⟩

/-- The call that frees what is still held when the session is closed. -/
def closing (course : Course batch) : Log :=
  if course.isOpen then
    [⟨connection, .done, server.answer (log ++ course.calls connection) connection .done⟩]
  else []

/-- All calls of a session that is closed at this point. -/
def lifeCalls (course : Course batch) : Log :=
  course.calls connection ++ course.closing server connection log

variable {server connection log}

theorem close_run (course : Course batch) (slots : List Slot) (sink : Sink) :
    ((course.run connection log slots sink).close server).log =
      log ++ course.lifeCalls server connection log := by
  unfold Run.close lifeCalls closing
  rw [isOpen_run, ← List.append_assoc]
  split
  · rfl
  · exact (List.append_nil _).symm

theorem drive_created (huniform : batch.Uniform) (server : Server) (connection : Nat) (log : Log)
    {slots : List Slot} (hslots : batch.Slotted slots) :
    ∃ final, ((created : Course batch).run connection log slots []).drive server =
      (.ok ((whole server connection log batch).acceptedRows.getD 0),
        (whole server connection log batch).run connection log final
          (whole server connection log batch).faults) := by
  by_cases hinit : server.answer log connection batch.initRequest = succeeded
  · have hfirst : ((created : Course batch).run connection log slots []).init server =
        (.ok .completed, (initialized : Course batch).run connection log slots []) :=
      init_created (dif_pos hinit)
    cases hattempt : server.attempt connection
        (log ++ (initialized : Course batch).calls connection) batch.bindRequests with
    | some refusal =>
      have hwhole : whole server connection log batch = bindRefused refusal := by
        simp only [whole, hinit, ↓reduceDIte, hattempt]
      have hnext : (initialized : Course batch).next? server connection log .bind =
          some (bindRefused refusal) := by
        simp only [next?, hattempt]
      refine ⟨slots, ?_⟩
      rw [hwhole]
      exact Run.drive_of_bind hfirst rfl (bind_initialized hslots hnext) (by simp [phase])
    | none =>
      have hnext : (initialized : Course batch).next? server connection log .bind = some bound := by
        simp only [next?, hattempt]
      have hsent : (bound : Course batch).next? server connection log .insert = some _ := rfl
      obtain ⟨final, hfinal, hinsert⟩ := insert_bound huniform hslots hsent
      refine ⟨final, ?_⟩
      simp only [whole, hinit, ↓reduceDIte, hattempt]
      exact Run.drive_of_done hfirst rfl (bind_initialized hslots hnext) rfl (hinsert _)
        (done_sent _ final _)
  · have hwhole : whole server connection log batch = initRefused _ hinit := dif_neg hinit
    refine ⟨slots, ?_⟩
    rw [hwhole]
    exact Run.drive_of_init (init_created (dif_neg hinit)) (by simp [phase])

theorem complete_created (huniform : batch.Uniform) {slots : List Slot}
    (hslots : batch.Slotted slots) :
    ((created : Course batch).session connection slots).complete server log =
      let whole := whole server connection log batch
      (some whole.report, log ++ whole.lifeCalls server connection log) := by
  obtain ⟨final, hdrive⟩ := drive_created huniform server connection log hslots
  have hrun : ⟨(created : Course batch).session connection slots, log, []⟩ =
      (created : Course batch).run connection log slots [] := by
    rw [run, calls, List.append_nil]
  simp only [Session.complete, hrun, hdrive, close_run, Run.close_sink]
  rfl

theorem phase_eq_created {course : Course batch} : course.phase = .created ↔ course = created := by
  cases course with
  | finished stop answer =>
    by_cases h : answer.toInt < 0 <;> simp [phase, h]
  | _ => simp [phase]

end Course

namespace Session

theorem complete_of_ne_created {session : Session} (h : session.phase ≠ .created) (server : Server)
    (log : Log) :
    session.complete server log =
      (some ⟨0, [.outOfOrder "init" session.phase]⟩, (Run.close server ⟨session, log, []⟩).log) := by
  have hdrive : Run.drive server ⟨session, log, []⟩ =
      (.error (.fault (.outOfOrder "init" session.phase)), ⟨session, log, []⟩) := by
    simp only [Run.drive, Run.init, if_neg h]
    rfl
  simp only [complete, hdrive, Run.record, List.nil_append, Run.close_sink]
  rw [Run.close_log server session log _ []]

end Session

end BulkLoad
