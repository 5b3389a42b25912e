import BulkLoad.Proofs.Session.Execution

/-! # The history of a session

A session lives through operations in any order, each with a sink of its own, until it is closed or
executed. What has been called, recorded and answered until then is its history. At any time a
history follows a course, and the course decides the calls of its whole life.
-/
namespace BulkLoad

structure Step where
  operation : Operation
  sink : Sink

structure History where
  session : Session
  log : Log
  /-- Everything that was appended to a sink. -/
  faults : Sink
  answers : List (Except Halt Reply)

inductive Ending
  | close
  | complete
deriving DecidableEq

namespace History

def ofSession (session : Session) (log : Log) : History := ⟨session, log, [], []⟩

def step (server : Server) (history : History) (step : Step) : History :=
  let (answer, run) := Run.apply server step.operation ⟨history.session, history.log, step.sink⟩
  { session := run.session
    log := run.log
    faults := history.faults ++ run.sink.drop step.sink.length
    answers := history.answers ++ [answer] }

def perform (server : Server) (history : History) (steps : List Step) : History :=
  steps.foldl (step server) history

/-- The log at the end of the session's life. -/
def finish (server : Server) (history : History) : Ending → Log
  | .close => (Run.close server ⟨history.session, history.log, []⟩).log
  | .complete => (history.session.complete server history.log).2

variable {batch : Batch}

/-- The session came this far, with slots of any content, and no operation trapped. -/
structure Follows (history : History) (connection : Nat) (log : Log) (course : Course batch) :
    Prop where
  session : ∃ slots, batch.Slotted slots ∧ history.session = course.session connection slots
  log : history.log = log ++ course.calls connection
  faults : history.faults = course.faults
  answers : .error .trap ∉ history.answers

variable {connection : Nat} {log : Log} {history : History} {course : Course batch}

theorem follows_ofSession {session : Session} (h : Session.create connection batch = .ok session)
    (log : Log) : (ofSession session log).Follows connection log (.created : Course batch) where
  session := ⟨_, batch.slotted_fresh, Course.session_created h⟩
  log := (List.append_nil log).symm
  faults := rfl
  answers := List.not_mem_nil

namespace Follows

theorem run_eq (h : history.Follows connection log course) :
    ∃ slots, batch.Slotted slots ∧ ∀ sink,
      ⟨history.session, history.log, sink⟩ = course.run connection log slots sink := by
  obtain ⟨slots, hslots, hsession⟩ := h.session
  refine ⟨slots, hslots, fun sink => ?_⟩
  rw [hsession, h.log, Course.run]

theorem step (huniform : batch.Uniform) (h : history.Follows connection log course)
    (server : Server) (step : Step) :
    (history.step server step).Follows connection log
      (course.advance server connection log step.operation) := by
  obtain ⟨slots, hslots, hrun⟩ := h.run_eq
  obtain ⟨answer, final, faults, hanswer, hfinal, hfaults, happly⟩ :=
    Course.apply_advance huniform server connection log course step.operation hslots
  have hstep : history.step server step = {
      session := (course.advance server connection log step.operation).session connection final
      log := log ++ (course.advance server connection log step.operation).calls connection
      faults := history.faults ++ faults
      answers := history.answers ++ [answer] } := by
    simp only [History.step, hrun, happly]
    simp only [Course.run, List.drop_left]
  rw [hstep]
  constructor
  · exact ⟨final, hfinal, rfl⟩
  · rfl
  · rw [hfaults, h.faults]
  · simp [h.answers, hanswer.symm]

theorem perform (huniform : batch.Uniform) (h : history.Follows connection log course)
    (server : Server) (steps : List Step) :
    (history.perform server steps).Follows connection log
      ((steps.map Step.operation).foldl (Course.advance server connection log) course) := by
  induction steps generalizing history course with
  | nil => exact h
  | cons first rest ih => exact ih (h.step huniform server first)

theorem phase_eq (h : history.Follows connection log course) :
    history.session.phase = course.phase := by
  obtain ⟨slots, -, hsession⟩ := h.session
  rw [hsession]
  rfl

/-- Whatever its end, a life makes the calls of one that is closed somewhere on its course. -/
theorem finish_eq (huniform : batch.Uniform) (h : history.Follows connection log course)
    (server : Server) (ending : Ending) :
    ∃ last : Course batch, history.finish server ending =
      log ++ last.lifeCalls server connection log := by
  obtain ⟨slots, hslots, hrun⟩ := h.run_eq
  have hclose : (Run.close server ⟨history.session, history.log, []⟩).log =
      log ++ course.lifeCalls server connection log := by
    rw [hrun, Course.close_run]
  cases ending with
  | close => exact ⟨course, hclose⟩
  | complete =>
    by_cases hcreated : history.session.phase = .created
    · obtain rfl := Course.phase_eq_created.mp (h.phase_eq.symm.trans hcreated)
      obtain ⟨slots, hslots, hsession⟩ := h.session
      refine ⟨Course.whole server connection log batch, ?_⟩
      rw [finish, hsession, h.log, Course.calls, List.append_nil,
        Course.complete_created huniform hslots]
    · refine ⟨course, ?_⟩
      rw [finish, Session.complete_of_ne_created hcreated]
      exact hclose

end Follows

section Created

variable {session : Session} (built : ∀ column ∈ batch.columns, column.Built)
  (created : Session.create connection batch = .ok session) (server : Server) (log : Log)
  (steps : List Step)

include built created

theorem follows_perform :
    ((ofSession session log).perform server steps).Follows connection log
      (Course.after server connection log (steps.map Step.operation) : Course batch) :=
  (follows_ofSession created log).perform (Session.uniform_of_create built created) server steps

theorem exists_finish_eq (ending : Ending) :
    ∃ last : Course batch, ((ofSession session log).perform server steps).finish server ending =
      log ++ last.lifeCalls server connection log :=
  (follows_perform built created server log steps).finish_eq
    (Session.uniform_of_create built created) server ending

end Created

end History

def Batch.sample : Batch where
  table := "t"
  columns := [⟨"number", .tinyInt, .fixed 1 [0, 7], some [true, false]⟩,
    ⟨"content", .varBinary, Storage.pack [[1, 2], []], none⟩]

def Session.sample : Session :=
  (Course.created : Course Batch.sample).session 1 (Batch.sample.columns.map Slot.ofColumn)

theorem Batch.built_sample : ∀ column ∈ Batch.sample.columns, column.Built := by
  have hcontent : Column.ofValues "content" .varBinary [[1, 2], []] =
      .ok ⟨"content", .varBinary, Storage.pack [[1, 2], []], none⟩ := rfl
  exact built_number_and_content hcontent

theorem Session.create_sample : Session.create 1 Batch.sample = .ok Session.sample := by
  decide

end BulkLoad
