import BulkLoad.Proofs.Session.Ordering

/-! # Loads driven by hand

Whoever asks for the four operations in their order, with any others between them, and then closes
the session, comes to the same end as a session that is executed: the same calls, the same faults
and the same number of rows. What is asked for beyond the order is refused and changes nothing.
-/
namespace BulkLoad

namespace Course

variable {batch : Batch} {server : Server} {connection : Nat} {log : Log}
  {course next : Course batch} {operation : Operation}

/-- A course with nothing ahead stays where it is. -/
theorem foldl_advance_of_ahead_nil (h : course.phase.ahead = []) (operations : List Operation) :
    operations.foldl (advance server connection log) course = course := by
  refine List.foldl_fixed' (fun operation => ?_) operations
  cases hnext : course.next? server connection log operation with
  | none => exact advance_of_next?_none hnext
  | some next =>
    obtain ⟨tail, hahead, -⟩ := ahead_of_next? hnext
    rw [h] at hahead
    cases hahead

/-- Only what is ahead of a course takes it further, whatever else is asked for between. -/
theorem foldl_advance_of_sublist {operations : List Operation}
    (h : course.phase.ahead.Sublist operations) :
    operations.foldl (advance server connection log) course =
      course.phase.ahead.foldl (advance server connection log) course := by
  induction operations generalizing course with
  | nil => rw [List.sublist_nil.mp h]
  | cons operation rest ih =>
    rw [List.foldl_cons]
    cases hnext : course.next? server connection log operation with
    | none =>
      have hhead := head?_ahead_of_next?_none hnext
      have hrest : course.phase.ahead.Sublist rest := by
        rcases List.sublist_cons_iff.mp h with hrest | ⟨tail, hahead, -⟩
        · exact hrest
        · rw [hahead] at hhead
          exact absurd rfl hhead
      rw [advance_of_next?_none hnext, ih hrest]
    | some next =>
      obtain ⟨tail, hahead, hafter⟩ := ahead_of_next? hnext
      rw [hahead] at h ⊢
      rw [List.foldl_cons, advance_of_next? hnext]
      have htail : tail.Sublist rest := List.cons_sublist_cons.mp h
      rcases hafter with hafter | hafter
      · have hrest : next.phase.ahead.Sublist rest := by rwa [hafter]
        rw [ih hrest, hafter]
      · rw [foldl_advance_of_ahead_nil hafter, foldl_advance_of_ahead_nil hafter]

theorem after_phases : after server connection log [.init, .bind, .insert, .done] =
    whole server connection log batch := by
  rw [after]
  by_cases hinit : server.answer log connection batch.initRequest = succeeded
  · have hfirst : (created : Course batch).advance server connection log .init = initialized :=
      advance_of_next? (dif_pos hinit)
    rw [List.foldl_cons, hfirst]
    cases hattempt : server.attempt connection
        (log ++ (initialized : Course batch).calls connection) batch.bindRequests with
    | some refusal =>
      have hbind : (initialized : Course batch).advance server connection log .bind =
          bindRefused refusal := advance_of_next? (by simp only [next?, hattempt])
      rw [List.foldl_cons, hbind, foldl_advance_of_ahead_nil rfl]
      simp only [whole, hinit, ↓reduceDIte, hattempt]
    | none =>
      have hbind : (initialized : Course batch).advance server connection log .bind = bound :=
        advance_of_next? (by simp only [next?, hattempt])
      rw [List.foldl_cons, hbind]
      simp only [whole, hinit, ↓reduceDIte, hattempt]
      rfl
  · have hfirst : (created : Course batch).advance server connection log .init =
        initRefused _ hinit := advance_of_next? (dif_neg hinit)
    rw [List.foldl_cons, hfirst, foldl_advance_of_ahead_nil rfl]
    exact (dif_neg hinit).symm

theorem after_of_phases {operations : List Operation}
    (phases : [.init, .bind, .insert, .done].Sublist operations) :
    after server connection log operations = whole server connection log batch := by
  have hahead : (created : Course batch).phase.ahead.Sublist operations := phases
  exact (foldl_advance_of_sublist hahead).trans after_phases

theorem acceptedRows_of_next? (h : course.next? server connection log operation = some next) :
    operation = .done ∧ next.phase.ahead = [] ∨ operation ≠ .done ∧ next.acceptedRows = none := by
  unfold next? at h
  split at h
  · split at h <;> cases h <;> exact .inr ⟨by simp, rfl⟩
  · split at h <;> cases h <;> exact .inr ⟨by simp, rfl⟩
  · cases h
    exact .inr ⟨by simp, rfl⟩
  · cases h
    refine .inl ⟨rfl, ?_⟩
    simp only [phase]
    split <;> rfl
  · cases h

theorem reply_eq_accepted {rows : Option Nat} :
    next.reply operation = .accepted rows ↔ operation = .done ∧ next.acceptedRows = rows := by
  cases operation <;> simp [reply]

theorem acceptedRows_of_mem_answers {operations : List Operation} {rows : Option Nat}
    (h : .ok (.accepted rows) ∈ course.answers server connection log operations) :
    (operations.foldl (advance server connection log) course).acceptedRows = rows := by
  induction operations generalizing course with
  | nil => cases h
  | cons operation rest ih =>
    rw [List.foldl_cons]
    rcases List.mem_cons.mp h with hanswer | hrest
    · cases hnext : course.next? server connection log operation with
      | none =>
        rw [answer_of_next?_none hnext] at hanswer
        cases hanswer
      | some next =>
        rw [answer_of_next? hnext] at hanswer
        obtain ⟨hdone, hrows⟩ := reply_eq_accepted.mp (Except.ok.inj hanswer).symm
        rcases acceptedRows_of_next? hnext with ⟨-, hahead⟩ | ⟨hother, -⟩
        · rw [advance_of_next? hnext, foldl_advance_of_ahead_nil hahead, hrows]
        · exact absurd hdone hother
    · exact ih hrest

theorem acceptedRows_of_forall_notMem {operations : List Operation}
    (hcourse : course.acceptedRows = none)
    (h : ∀ rows, .ok (.accepted rows) ∉ course.answers server connection log operations) :
    (operations.foldl (advance server connection log) course).acceptedRows = none := by
  induction operations generalizing course with
  | nil => exact hcourse
  | cons operation rest ih =>
    rw [List.foldl_cons]
    refine ih ?_ fun rows hmem => h rows (List.mem_cons_of_mem _ hmem)
    cases hnext : course.next? server connection log operation with
    | none => rwa [advance_of_next?_none hnext]
    | some next =>
      rw [advance_of_next? hnext]
      rcases acceptedRows_of_next? hnext with ⟨hdone, -⟩ | ⟨-, hnone⟩
      · have hreply := reply_eq_accepted.mpr ⟨hdone, (rfl : next.acceptedRows = _)⟩
        have hanswer : course.answer server connection log operation =
            .ok (.accepted next.acceptedRows) := by rw [answer_of_next? hnext, hreply]
        exact absurd (List.mem_cons.mpr (.inl hanswer.symm)) (h next.acceptedRows)
      · exact hnone

end Course

namespace History

variable {batch : Batch} {connection : Nat}

/-- A fresh session that is asked for all phases in their order, and perhaps for more, and is then
closed does what executing it does. -/
theorem phases_perform {session : Session} (built : ∀ column ∈ batch.columns, column.Built)
    (created : Session.create connection batch = .ok session) (server : Server) (log : Log)
    (steps : List Step)
    (phases : [.init, .bind, .insert, .done].Sublist (steps.map Step.operation)) :
    let history := (ofSession session log).perform server steps
    ∃ report, session.complete server log = (some report, history.finish server .close) ∧
      report.faults = history.faults ∧
      .error .trap ∉ history.answers ∧
      (∀ rows, .ok (.accepted rows) ∈ history.answers → report.acceptedRows = rows.getD 0) ∧
      ((∀ rows, .ok (.accepted rows) ∉ history.answers) → report.acceptedRows = 0) := by
  intro history
  have huniform := Session.uniform_of_create built created
  have hfollows := follows_perform built created server log steps
  have hanswers := (follows_ofSession created log).answers_perform huniform server steps
  rw [show (ofSession session log).answers = [] from rfl, List.nil_append] at hanswers
  have hwhole : (steps.map Step.operation).foldl (Course.advance server connection log) .created =
      Course.whole server connection log batch := Course.after_of_phases phases
  rw [Course.after, hwhole] at hfollows
  refine ⟨(Course.whole server connection log batch).report, ?_, hfollows.faults.symm,
    hfollows.answers, fun rows hrows => ?_, fun hnone => ?_⟩
  · obtain ⟨slots, -, hrun⟩ := hfollows.run_eq
    rw [Course.session_created created,
      Course.complete_created huniform batch.slotted_fresh, finish, hrun, Course.close_run]
  · rw [hanswers] at hrows
    rw [Course.report, ← hwhole, Course.acceptedRows_of_mem_answers hrows]
  · rw [hanswers] at hnone
    rw [Course.report, ← hwhole, Course.acceptedRows_of_forall_notMem rfl hnone]
    rfl

/-- The second row is refused, and two operations are asked for twice. -/
theorem phases_perform_refused :
    (∀ column ∈ Batch.sample.columns, column.Built) ∧
      Session.create 1 Batch.sample = .ok Session.sample ∧
      let server := Script.server
        { Script.accepting with send := fun number => if number = 1 then some refused else none }
      let steps : List Step :=
        [⟨.init, []⟩, ⟨.init, []⟩, ⟨.bind, []⟩, ⟨.insert, []⟩, ⟨.bind, []⟩, ⟨.done, []⟩]
      let history := (ofSession Session.sample []).perform server steps
      [.init, .bind, .insert, .done].Sublist (steps.map Step.operation) ∧
        ∃ report, Session.sample.complete server [] =
            (some report, history.finish server .close) ∧
          report.faults = [.rowRefused 1 refused] ∧ report.acceptedRows = 1 := by
  refine ⟨Batch.built_sample, Session.create_sample, by decide, ?_⟩
  obtain ⟨report, hcomplete, hfaults, -, hrows, -⟩ := phases_perform Batch.built_sample
    Session.create_sample (Script.server { Script.accepting with
      send := fun number => if number = 1 then some refused else none }) []
    [⟨.init, []⟩, ⟨.init, []⟩, ⟨.bind, []⟩, ⟨.insert, []⟩, ⟨.bind, []⟩, ⟨.done, []⟩] (by decide)
  exact ⟨report, hcomplete, hfaults.trans (by decide), hrows (some 1) (by decide)⟩

end History

end BulkLoad
