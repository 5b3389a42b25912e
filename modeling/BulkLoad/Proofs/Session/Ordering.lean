import BulkLoad.Proofs.Session.History

/-! # Operations out of order

The operations of a load have one order, and a phase allows only the next of them. Every other
operation is refused before it does anything. So a history from which refused operations are left
out differs in nothing but their answers, and the operations that were accepted begin the order.
-/
namespace BulkLoad

/-- The operations that a load still has ahead of it. Only the first of them is allowed. -/
def Phase.ahead : Phase → List Operation
  | created => [.init, .bind, .insert, .done]
  | initialized => [.bind, .insert, .done]
  | bound => [.insert, .done]
  | sending _ => [.done]
  | finished _ => []

namespace Operation

variable {operation : Operation} {phase : Phase}

theorem isAllowed_iff : operation.isAllowed phase = true ↔ phase.ahead.head? = some operation := by
  cases phase <;> cases operation <;> simp [isAllowed, Phase.ahead]

theorem isAllowed_init : init.isAllowed phase = true ↔ phase = .created := by
  cases phase <;> simp [isAllowed]

theorem isAllowed_bind : bind.isAllowed phase = true ↔ phase = .initialized := by
  cases phase <;> simp [isAllowed]

theorem isAllowed_insert : insert.isAllowed phase = true ↔ phase = .bound := by
  cases phase <;> simp [isAllowed]

theorem isAllowed_done : done.isAllowed phase = true ↔ ∃ aborted, phase = .sending aborted := by
  cases phase <;> simp [isAllowed]

end Operation

namespace Run

/-- A loop over rows that stops for a fault records it and does not answer it. -/
theorem sendRows_ne_fault (server : Server) (left row : Nat) (run : Run) (fault : Fault) :
    (sendRows server left row run).1 ≠ .error (.fault fault) := by
  induction left generalizing row run with
  | zero => simp [sendRows]
  | succ left ih =>
    rw [sendRows]
    split
    · simp
    · simp
    · dsimp only
      split
      · split
        · simp
        · exact ih _ _
      · simp

theorem not_allowed_of_fault {server : Server} {operation : Operation} {run : Run} {fault : Fault}
    (h : (run.apply server operation).1 = .error (.fault fault)) :
    operation.isAllowed run.session.phase = false := by
  refine Bool.eq_false_of_not_eq_true fun hallowed => ?_
  cases operation with
  | init =>
    simp only [apply, init, if_pos (Operation.isAllowed_init.mp hallowed)] at h
    split at h <;> cases h
  | bind =>
    simp only [apply, bind, if_pos (Operation.isAllowed_bind.mp hallowed)] at h
    cases h
  | insert =>
    simp only [apply, insert, if_pos (Operation.isAllowed_insert.mp hallowed)] at h
    have hloop := sendRows_ne_fault server run.session.rows 0 (run.enter (.sending false)) fault
    cases hsent : (sendRows server run.session.rows 0 (run.enter (.sending false))).1 with
    | error halt =>
      rw [hsent] at h hloop
      cases h
      exact hloop rfl
    | ok sent =>
      rw [hsent] at h
      cases h
  | done =>
    obtain ⟨aborted, hphase⟩ := Operation.isAllowed_done.mp hallowed
    simp only [apply, done, hphase] at h
    split at h <;> cases h

end Run

def leaveOut {α : Type} (out : Nat → Bool) : List α → List α
  | [] => []
  | item :: rest =>
    if out 0 then leaveOut (fun number => out (number + 1)) rest
    else item :: leaveOut (fun number => out (number + 1)) rest

namespace History

theorem perform_since (server : Server) (history : History) (steps : List Step) :
    history.perform server steps =
      let since := (ofSession history.session history.log).perform server steps
      { session := since.session
        log := since.log
        faults := history.faults ++ since.faults
        answers := history.answers ++ since.answers } := by
  induction steps generalizing history with
  | nil => simp [perform, ofSession]
  | cons first rest ih =>
    have hwhole := ih (history.step server first)
    have hsince := ih ((ofSession history.session history.log).step server first)
    simp only [perform, List.foldl_cons] at hwhole hsince ⊢
    rw [hwhole, hsince]
    simp [step, ofSession]

/-- A refused operation changes nothing and adds nothing but its answer. -/
theorem step_of_fault {server : Server} {session : Session} {log : Log} {step : Step}
    {fault : Fault}
    (h : (Run.apply server step.operation ⟨session, log, step.sink⟩).1 = .error (.fault fault)) :
    (ofSession session log).step server step =
      { ofSession session log with
        answers := [.error (.fault (.outOfOrder step.operation.name session.phase))] } := by
  have happly : Run.apply server step.operation ⟨session, log, step.sink⟩ = _ :=
    Run.apply_of_not_allowed (Run.not_allowed_of_fault h)
  simp only [History.step, ofSession, happly]
  simp

/-- Refused operations can be left out of a history. -/
theorem perform_leaveOut (server : Server) (session : Session) (log : Log) (steps : List Step)
    (out : Nat → Bool) (refused : ∀ number answer, out number = true →
      ((ofSession session log).perform server steps).answers[number]? = some answer →
        ∃ fault, answer = .error (.fault fault)) :
    (ofSession session log).perform server (leaveOut out steps) =
      { (ofSession session log).perform server steps with
        answers := leaveOut out ((ofSession session log).perform server steps).answers } := by
  induction steps generalizing session log out with
  | nil => rfl
  | cons first rest ih =>
    let next := (ofSession session log).step server first
    let answer := (Run.apply server first.operation ⟨session, log, first.sink⟩).1
    have hcons (more : List Step) : (ofSession session log).perform server (first :: more) =
        let since := (ofSession next.session next.log).perform server more
        { session := since.session
          log := since.log
          faults := next.faults ++ since.faults
          answers := answer :: since.answers } := perform_since server next more
    rw [hcons rest] at refused ⊢
    have hlater := ih next.session next.log (fun number => out (number + 1))
      fun number later hout hlater => refused (number + 1) later hout hlater
    cases hout : out 0 with
    | false =>
      simp only [leaveOut, hout, Bool.false_eq_true, ↓reduceIte]
      rw [hcons, hlater]
    | true =>
      obtain ⟨fault, hfault⟩ := refused 0 answer hout rfl
      have hnext : next = _ := step_of_fault hfault
      simp only [leaveOut, hout, ↓reduceIte]
      rw [hnext] at hlater ⊢
      exact hlater

end History

namespace Course

variable {batch : Batch} (server : Server) (connection : Nat) (log : Log)

def answer (course : Course batch) (operation : Operation) : Except Halt Reply :=
  match course.next? server connection log operation with
  | some next => .ok (next.reply operation)
  | none => .error (.fault (.outOfOrder operation.name course.phase))

def answers (course : Course batch) : List Operation → List (Except Halt Reply)
  | [] => []
  | operation :: rest =>
    course.answer server connection log operation ::
      answers (course.advance server connection log operation) rest

variable {server connection log} {course next : Course batch} {operation : Operation}

/-- An operation that leads further takes its own place off the order. What is left after it is
all that followed, or nothing if the load has failed. -/
theorem ahead_of_next? (h : course.next? server connection log operation = some next) :
    ∃ tail, course.phase.ahead = operation :: tail ∧
      (next.phase.ahead = tail ∨ next.phase.ahead = []) := by
  unfold next? at h
  split at h
  · split at h
    · cases h
      exact ⟨_, rfl, .inl rfl⟩
    · cases h
      exact ⟨_, rfl, .inr rfl⟩
  · split at h
    · cases h
      exact ⟨_, rfl, .inl rfl⟩
    · cases h
      exact ⟨_, rfl, .inr rfl⟩
  · cases h
    exact ⟨_, rfl, .inl rfl⟩
  · next stop =>
    cases h
    refine ⟨[], rfl, .inr ?_⟩
    simp only [phase]
    split <;> rfl
  · cases h

theorem head?_ahead_of_next?_none (h : course.next? server connection log operation = none) :
    course.phase.ahead.head? ≠ some operation := by
  have hallowed : (course.next? server connection log operation).isSome =
      operation.isAllowed course.phase := isSome_next? course operation
  intro hhead
  rw [h, Operation.isAllowed_iff.mpr hhead] at hallowed
  cases hallowed

end Course

def accepted (operations : List Operation) (answers : List (Except Halt Reply)) : List Operation :=
  (operations.zip answers).filterMap fun (operation, answer) =>
    if answer.isOk then some operation else none

namespace Course

variable {batch : Batch} {server : Server} {connection : Nat} {log : Log}
  {course next : Course batch} {operation : Operation}

theorem advance_of_next? (h : course.next? server connection log operation = some next) :
    course.advance server connection log operation = next := by
  rw [advance, h, Option.getD_some]

theorem advance_of_next?_none (h : course.next? server connection log operation = none) :
    course.advance server connection log operation = course := by
  rw [advance, h, Option.getD_none]

theorem answer_of_next? (h : course.next? server connection log operation = some next) :
    course.answer server connection log operation = .ok (next.reply operation) := by
  rw [answer, h]

theorem answer_of_next?_none (h : course.next? server connection log operation = none) :
    course.answer server connection log operation =
      .error (.fault (.outOfOrder operation.name course.phase)) := by
  rw [answer, h]

theorem accepted_answers_isPrefix (course : Course batch) (operations : List Operation) :
    accepted operations (course.answers server connection log operations) <+:
      course.phase.ahead := by
  induction operations generalizing course with
  | nil => exact List.nil_prefix
  | cons operation rest ih =>
    have hrest := ih (course.advance server connection log operation)
    cases h : course.next? server connection log operation with
    | none =>
      rw [advance_of_next?_none h] at hrest
      simpa [accepted, answers, answer_of_next?_none h, advance_of_next?_none h, Except.isOk,
        Except.toBool] using hrest
    | some next =>
      rw [advance_of_next? h] at hrest
      obtain ⟨tail, hahead, hnext⟩ := ahead_of_next? h
      have htail : accepted rest (next.answers server connection log rest) <+: tail := by
        rcases hnext with hnext | hnext
        · rwa [hnext] at hrest
        · rw [hnext] at hrest
          exact hrest.trans List.nil_prefix
      rw [hahead]
      simpa [accepted, answers, answer_of_next? h, advance_of_next? h, Except.isOk, Except.toBool]
        using htail

end Course

namespace History

variable {batch : Batch} {connection : Nat}

section Follows

variable {log : Log} {history : History} {course : Course batch}

theorem Follows.apply_answer (huniform : batch.Uniform) (h : history.Follows connection log course)
    (server : Server) (operation : Operation) (sink : Sink) :
    (Run.apply server operation ⟨history.session, history.log, sink⟩).1 =
      course.answer server connection log operation := by
  obtain ⟨slots, hslots, hrun⟩ := h.run_eq
  rw [hrun]
  cases hnext : course.next? server connection log operation with
  | none => rw [Course.apply_of_next?_none hnext, Course.answer_of_next?_none hnext]
  | some next =>
    obtain ⟨final, faults, -, -, happly⟩ := Course.apply_of_next? huniform hslots hnext
    rw [happly, Course.answer_of_next? hnext]

theorem Follows.answers_perform (huniform : batch.Uniform)
    (h : history.Follows connection log course) (server : Server) (steps : List Step) :
    (history.perform server steps).answers =
      history.answers ++
        course.answers server connection log (steps.map Step.operation) := by
  induction steps generalizing history course with
  | nil => exact (List.append_nil _).symm
  | cons first rest ih =>
    have hfirst : (history.step server first).answers =
        history.answers ++ [course.answer server connection log first.operation] := by
      rw [← h.apply_answer huniform server first.operation first.sink]
      rfl
    have hrest := ih (h.step huniform server first)
    rw [hfirst, List.append_assoc] at hrest
    exact hrest

end Follows

/-- At any time an operation is refused exactly if it is not the next one of the order, and then it
changes nothing. A history without its refused operations, or without some of them, is otherwise
the same, and what was accepted begins the order. -/
theorem ordered_perform {session : Session} (built : ∀ column ∈ batch.columns, column.Built)
    (created : Session.create connection batch = .ok session) (server : Server) (log : Log)
    (steps : List Step) :
    let history := (ofSession session log).perform server steps
    (∀ operation sink,
      let run : Run := ⟨history.session, history.log, sink⟩
      (run.apply server operation).1 ≠ .error .trap ∧
      ((∃ fault, (run.apply server operation).1 = .error (.fault fault)) ↔
        history.session.phase.ahead.head? ≠ some operation) ∧
      (history.session.phase.ahead.head? ≠ some operation →
        run.apply server operation =
          (.error (.fault (.outOfOrder operation.name history.session.phase)), run))) ∧
    (∀ out : Nat → Bool, (∀ number answer, out number = true →
        history.answers[number]? = some answer → ∃ fault, answer = .error (.fault fault)) →
      (ofSession session log).perform server (leaveOut out steps) =
        { history with answers := leaveOut out history.answers }) ∧
    accepted (steps.map Step.operation) history.answers <+: [.init, .bind, .insert, .done] ∧
    (accepted (steps.map Step.operation) history.answers).Nodup := by
  intro history
  have huniform := Session.uniform_of_create built created
  have hfollows := follows_perform built created server log steps
  have hanswers := (follows_ofSession created log).answers_perform huniform server steps
  have hprefix : accepted (steps.map Step.operation) history.answers <+:
      [.init, .bind, .insert, .done] := by
    rw [hanswers]
    exact Course.accepted_answers_isPrefix (.created : Course batch) _
  refine ⟨fun operation sink => ?_, perform_leaveOut server session log steps, hprefix,
    hprefix.sublist.nodup (by decide)⟩
  have hrefused (h : history.session.phase.ahead.head? ≠ some operation) :
      operation.isAllowed history.session.phase = false :=
    Bool.eq_false_of_not_eq_true fun hallowed => h (Operation.isAllowed_iff.mp hallowed)
  refine ⟨?_, ⟨?_, fun h => ?_⟩, fun h => ?_⟩
  · obtain ⟨slots, hslots, hrun⟩ := hfollows.run_eq
    obtain ⟨answer, final, faults, hanswer, -, -, happly⟩ :=
      Course.apply_advance huniform server connection log _ operation hslots
    rw [hrun, happly]
    exact hanswer
  · rintro ⟨fault, hfault⟩ hhead
    have hnot := Run.not_allowed_of_fault hfault
    rw [Operation.isAllowed_iff.mpr hhead] at hnot
    cases hnot
  · exact ⟨_, congrArg Prod.fst (Run.apply_of_not_allowed (hrefused h))⟩
  · exact Run.apply_of_not_allowed (hrefused h)

theorem ordered_perform_sample :
    (∀ column ∈ Batch.sample.columns, column.Built) ∧
      Session.create 1 Batch.sample = .ok Session.sample ∧
      let steps : List Step := [⟨.bind, []⟩, ⟨.init, []⟩, ⟨.init, []⟩, ⟨.bind, []⟩]
      let history := (ofSession Session.sample []).perform Script.accepting.server steps
      accepted (steps.map Step.operation) history.answers = [.init, .bind] ∧
        (ofSession Session.sample []).perform Script.accepting.server
            [⟨.init, []⟩, ⟨.init, []⟩, ⟨.bind, []⟩] =
          { history with answers := leaveOut (· == 0) history.answers } := by
  refine ⟨Batch.built_sample, Session.create_sample, by decide, ?_⟩
  refine (ordered_perform Batch.built_sample Session.create_sample Script.accepting.server []
    [⟨.bind, []⟩, ⟨.init, []⟩, ⟨.init, []⟩, ⟨.bind, []⟩]).2.1 (· == 0) ?_
  intro number answer hfirst hanswer
  obtain rfl : number = 0 := by simpa using hfirst
  have hanswer : some _ = some answer := hanswer
  exact ⟨.outOfOrder "bind" .created, (Option.some.inj hanswer).symm⟩

end History

end BulkLoad
