import BulkLoad.Proofs.Session.Loops

/-! # Sessions follow a course

An operation that is allowed takes the session to the next point of its course, whatever sink it is
handed, and one that is not allowed changes nothing.
-/
namespace BulkLoad

def Operation.isAllowed : Operation → Phase → Bool
  | init, .created | bind, .initialized | insert, .bound | done, .sending _ => true
  | _, _ => false

/-- In any other phase an operation makes no call and changes nothing. -/
theorem Run.apply_of_not_allowed {server : Server} {operation : Operation} {run : Run}
    (h : operation.isAllowed run.session.phase = false) :
    run.apply server operation =
      (.error (.fault (.outOfOrder operation.name run.session.phase)), run) := by
  cases operation with
  | init =>
    have hphase : run.session.phase ≠ .created := fun heq => by simp [heq, Operation.isAllowed] at h
    exact if_neg hphase
  | bind =>
    have hphase : run.session.phase ≠ .initialized :=
      fun heq => by simp [heq, Operation.isAllowed] at h
    exact if_neg hphase
  | insert =>
    have hphase : run.session.phase ≠ .bound := fun heq => by simp [heq, Operation.isAllowed] at h
    exact if_neg hphase
  | done =>
    simp only [apply, done]
    split
    · next heq => simp [heq, Operation.isAllowed] at h
    · rfl

namespace Course

variable {batch : Batch} (connection : Nat) (log : Log)

def run (course : Course batch) (slots : List Slot) (sink : Sink) : Run :=
  ⟨course.session connection slots, log ++ course.calls connection, sink⟩

@[simp] theorem phase_run (course : Course batch) (slots : List Slot) (sink : Sink) :
    (course.run connection log slots sink).session.phase = course.phase := rfl

@[simp] theorem isOpen_run (course : Course batch) (slots : List Slot) (sink : Sink) :
    (course.run connection log slots sink).session.isOpen = course.isOpen := rfl

variable {connection log} {server : Server}

theorem session_created {session : Session} (h : Session.create connection batch = .ok session) :
    session = (created : Course batch).session connection (batch.columns.map Slot.ofColumn) := by
  have hcursors : batch.columns.map Column.cursor = batch.columns.map (·.cursorAt 0) :=
    List.map_congr_left fun column _ => column.cursorAt_zero.symm
  rw [Session.eq_of_create h, hcursors]
  rfl

theorem init_created {next : Course batch} {slots : List Slot} {sink : Sink}
    (h : (created : Course batch).next? server connection log .init = some next) :
    ((created : Course batch).run connection log slots sink).init server =
      (.ok .completed, next.run connection log slots (sink ++ next.faults)) := by
  let start := (created : Course batch).run connection log slots sink
  have hanswer : start.answer server batch.initRequest =
      server.answer log connection batch.initRequest :=
    congrArg (server.answer · connection batch.initRequest) (List.append_nil log)
  have hlog : (start.call server batch.initRequest).log =
      log ++ [⟨connection, batch.initRequest, server.answer log connection batch.initRequest⟩] := by
    change (log ++ []) ++ [Call.mk connection batch.initRequest (start.answer _ _)] = _
    rw [List.append_nil, hanswer]
  have hinit : start.init server =
      if start.answer server batch.initRequest = succeeded then
        (.ok .completed, (((start.call server batch.initRequest).setOpen true).enter .initialized))
      else (.ok .completed, ((start.call server batch.initRequest).record
        (.initRefused batch.table (start.answer server batch.initRequest))).enter
          (.finished .failed)) := rfl
  rw [hinit, hanswer]
  simp only [next?] at h
  split at h
  · next hgranted =>
    cases h
    rw [if_pos hgranted]
    rw [hgranted] at hlog
    simp only [run, calls, faults, Log.granted_cons, Log.granted_nil, ← hlog, List.append_nil]
    rfl
  · next hrefused =>
    cases h
    rw [if_neg hrefused]
    simp only [run, calls, faults, ← hlog]
    rfl

theorem bind_initialized {next : Course batch} {slots : List Slot} {sink : Sink}
    (hslots : batch.Slotted slots)
    (h : (initialized : Course batch).next? server connection log .bind = some next) :
    ((initialized : Course batch).run connection log slots sink).bind server =
      (.ok .completed, next.run connection log slots (sink ++ next.faults)) := by
  have hbind : ((initialized : Course batch).run connection log slots sink).bind server =
      (.ok .completed,
        Run.boundUpTo 0 batch.columns ((initialized : Course batch).run connection log slots sink)
          (server.attempt connection (log ++ (initialized : Course batch).calls connection)
            batch.bindRequests)) :=
    congrArg (Prod.mk _) (Run.bindColumns_eq server hslots 0 _)
  rw [hbind]
  simp only [next?] at h
  split at h
  · next hattempt =>
    cases h
    rw [hattempt]
    have hcalls : (initialized : Course batch).calls connection ++
        attempted connection batch.bindRequests none = (bound : Course batch).calls connection := by
      rw [attempted_none]
      rfl
    simp only [run, faults, List.append_nil, ← hcalls, ← List.append_assoc]
    rfl
  · next refusal hattempt =>
    cases h
    rw [hattempt]
    simp only [Run.boundUpTo, run, faults, calls, Nat.zero_add, List.append_assoc]
    rfl

theorem insert_bound (huniform : batch.Uniform) {next : Course batch} {slots : List Slot}
    (hslots : batch.Slotted slots)
    (h : (bound : Course batch).next? server connection log .insert = some next) :
    ∃ final, batch.Slotted final ∧ ∀ sink,
      ((bound : Course batch).run connection log slots sink).insert server =
        (.ok (.sent next.rowsSent), next.run connection log final (sink ++ next.faults)) := by
  obtain ⟨final, hfinal, hrows⟩ := Run.sendRows_eq huniform server connection
    (Nat.zero_add batch.rows).le hslots (bound_calls log connection)
  refine ⟨final, hfinal, fun sink => ?_⟩
  let start : Run := ⟨batch.sessionAt connection (.sending false) true 0 slots,
    log ++ (bound : Course batch).calls connection, sink⟩
  have hinsert : ((bound : Course batch).run connection log slots sink).insert server =
      ((Run.sendRows server batch.rows 0 start).1.map .sent,
        (Run.sendRows server batch.rows 0 start).2) := rfl
  cases h
  rw [hinsert, hrows sink]
  simp only [Run.sentUpTo, Nat.zero_add, List.append_assoc]
  rfl

theorem done_sent (stop : Option (Refusal batch.sendRequests)) (slots : List Slot) (sink : Sink) :
    let answer := server.answer (log ++ (sent stop).calls connection) connection .done
    ((sent stop).run connection log slots sink).done server =
      (.ok (.accepted (finished stop answer).acceptedRows),
        (finished stop answer).run connection log slots (sink ++ finalFaults answer)) := by
  intro answer
  have hdone : ((sent stop).run connection log slots sink).done server =
      let called := (((sent stop).run connection log slots sink).call server .done).setOpen false
      if answer.toInt < 0 then
        (.ok (.accepted none), (called.record (.notFinalized answer)).enter (.finished .failed))
      else
        (.ok (.accepted (some answer.toInt.toNat)),
          called.enter (.finished (if stop.isSome then .failed else .succeeded))) := rfl
  have hlog : (((sent stop).run connection log slots sink).call server .done).log =
      log ++ (finished stop answer).calls connection :=
    List.append_assoc log ((sent stop).calls connection) [⟨connection, .done, answer⟩]
  rw [hdone]
  by_cases hnegative : answer.toInt < 0
  · simp only [hnegative, ↓reduceIte, acceptedRows, finalFaults, run, ← hlog]
    simp only [session, phase, hnegative, ↓reduceIte]
    rfl
  · simp only [hnegative, ↓reduceIte, acceptedRows, finalFaults, run, ← hlog, List.append_nil]
    simp only [session, phase, hnegative, ↓reduceIte]
    rfl

theorem apply_of_next? (huniform : batch.Uniform) {course next : Course batch}
    {operation : Operation} {slots : List Slot} (hslots : batch.Slotted slots)
    (h : course.next? server connection log operation = some next) :
    ∃ final faults, batch.Slotted final ∧ next.faults = course.faults ++ faults ∧ ∀ sink,
      (course.run connection log slots sink).apply server operation =
        (.ok (next.reply operation), next.run connection log final (sink ++ faults)) := by
  unfold next? at h
  split at h
  · exact ⟨slots, next.faults, hslots, rfl, fun sink => init_created h⟩
  · exact ⟨slots, next.faults, hslots, rfl, fun sink => bind_initialized hslots h⟩
  · obtain ⟨final, hfinal, hinsert⟩ := insert_bound huniform hslots h
    exact ⟨final, next.faults, hfinal, rfl, hinsert⟩
  · next stop =>
    cases h
    exact ⟨slots, finalFaults _, hslots, rfl, done_sent stop slots⟩
  · cases h

theorem isSome_next? (course : Course batch) (operation : Operation) :
    (course.next? server connection log operation).isSome = operation.isAllowed course.phase := by
  unfold next?
  split
  · split <;> rfl
  · split <;> rfl
  · rfl
  · rfl
  · next hinit hbind hinsert hdone =>
    cases course with
    | finished stop answer =>
      by_cases h : answer.toInt < 0 <;> simp [phase, h, Operation.isAllowed]
    | _ => cases operation <;> simp_all [phase, Operation.isAllowed]

theorem apply_of_next?_none {course : Course batch} {operation : Operation} {slots : List Slot}
    {sink : Sink} (h : course.next? server connection log operation = none) :
    (course.run connection log slots sink).apply server operation =
      (.error (.fault (.outOfOrder operation.name course.phase)),
        course.run connection log slots sink) := by
  have hallowed : (course.next? server connection log operation).isSome =
      operation.isAllowed course.phase := isSome_next? course operation
  refine Run.apply_of_not_allowed ?_
  rw [phase_run, ← hallowed, h]
  rfl

def advance (server : Server) (connection : Nat) (log : Log) (course : Course batch)
    (operation : Operation) : Course batch :=
  (course.next? server connection log operation).getD course

/-- How far a fresh session comes by operations that are asked for one after the other. -/
def after (server : Server) (connection : Nat) (log : Log) (operations : List Operation) :
    Course batch :=
  operations.foldl (advance server connection log) created

/-- No operation traps, and what it does is the same for all sinks. -/
theorem apply_advance (huniform : batch.Uniform) (server : Server) (connection : Nat) (log : Log)
    (course : Course batch) (operation : Operation) {slots : List Slot}
    (hslots : batch.Slotted slots) :
    ∃ answer final faults, answer ≠ .error .trap ∧ batch.Slotted final ∧
      (course.advance server connection log operation).faults = course.faults ++ faults ∧
      ∀ sink, (course.run connection log slots sink).apply server operation =
        (answer, (course.advance server connection log operation).run connection log final
          (sink ++ faults)) := by
  cases h : course.next? server connection log operation with
  | none =>
    refine ⟨.error (.fault (.outOfOrder operation.name course.phase)), slots, [], by simp, hslots,
      ?_, fun sink => ?_⟩
    · rw [advance, h, List.append_nil]
      rfl
    · rw [advance, h, List.append_nil]
      exact apply_of_next?_none h
  | some next =>
    obtain ⟨final, faults, hfinal, hfaults, happly⟩ := apply_of_next? huniform hslots h
    refine ⟨.ok (next.reply operation), final, faults, by simp, hfinal, ?_, fun sink => ?_⟩
    · rw [advance, h]
      exact hfaults
    · rw [advance, h]
      exact happly sink

end Course

end BulkLoad
