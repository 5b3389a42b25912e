import BulkLoad.Proofs.Server.Locality
import BulkLoad.Session.Load

/-! # What a session does is its own

With a local server, everything that a session does follows from the session itself and from the
earlier calls on its connection. What else stands in the log or in the sink has no influence, and
the session makes no call on another connection.
-/
namespace BulkLoad

namespace Run

variable {α β : Type}

/-- From a session on, after its own earlier calls, a function does the same in every log and with
every sink, and only adds to both. -/
def Contained (f : Run → α × Run) (session : Session) (own : Log) : Prop :=
  ∃ answer final calls faults,
    final.connection = session.connection ∧
    (∀ call ∈ calls, call.connection = session.connection) ∧
    ∀ log sink, log.on session.connection = own →
      f ⟨session, log, sink⟩ = (answer, ⟨final, log ++ calls, sink ++ faults⟩)

variable {session other : Session} {own : Log} {f g : Run → α × Run}

theorem contained_stay (answer : α) (session : Session) (own : Log) :
    Contained (fun run => (answer, run)) session own :=
  ⟨answer, session, [], [], rfl, by simp, fun log sink _ => by simp⟩

theorem contained_record (answer : α) (fault : Fault) (session : Session) (own : Log) :
    Contained (fun run => (answer, run.record fault)) session own :=
  ⟨answer, session, [], [fault], rfl, by simp, fun log sink _ => by simp [record]⟩

theorem Contained.of_eq (hg : Contained g other own)
    (hconnection : other.connection = session.connection)
    (h : ∀ log sink, f ⟨session, log, sink⟩ = g ⟨other, log, sink⟩) :
    Contained f session own := by
  obtain ⟨answer, final, calls, faults, hfinal, hcalls, hrun⟩ := hg
  rw [hconnection] at hfinal hcalls hrun
  exact ⟨answer, final, calls, faults, hfinal, hcalls,
    fun log sink hlog => (h log sink).trans (hrun log sink hlog)⟩

/-- Two functions one after the other, of which the second depends on the first one's answer. -/
theorem Contained.andThen {g : α → Run → β × Run} (hf : Contained f session own)
    (hg : ∀ answer (final : Session) later, final.connection = session.connection →
      Contained (g answer) final later) :
    Contained (fun run => g (f run).1 (f run).2) session own := by
  obtain ⟨answer, middle, calls, faults, hmiddle, hcalls, hrun⟩ := hf
  obtain ⟨answer', final, calls', faults', hfinal, hcalls', hrun'⟩ :=
    hg answer middle (own ++ calls) hmiddle
  refine ⟨answer', final, calls ++ calls', faults ++ faults', hfinal.trans hmiddle, ?_, ?_⟩
  · intro call hcall
    rcases List.mem_append.mp hcall with hcall | hcall
    · exact hcalls call hcall
    · exact (hcalls' call hcall).trans hmiddle
  · intro log sink hlog
    have hlater : Log.on (log ++ calls) middle.connection = own ++ calls := by
      rw [hmiddle, Log.on_append, hlog, Log.on_eq_self hcalls]
    simp only [hrun log sink hlog, hrun' _ _ hlater, List.append_assoc]

theorem contained_refuse (operation : Operation) (session : Session) (own : Log) :
    Contained (fun run => run.refuse operation) session own :=
  (contained_stay (.error (.fault (.outOfOrder operation.name session.phase))) session own).of_eq
    rfl fun _ _ => rfl

/-- Sends the rows after one that the server answered with the given status. -/
def sendRest (server : Server) (left row : Nat) (status : Int32) (run : Run) :
    Except Halt Nat × Run :=
  if status = succeeded then
    match Session.nextAll run.session.cursors with
    | (.error fault, cursors) => (.ok (row + 1), (run.setCursors cursors).abort fault)
    | (.ok (), cursors) => sendRows server left (row + 1) (run.setCursors cursors)
  else (.ok row, run.abort (.rowRefused row status))

theorem sendRows_eq_sendRest (server : Server) {left row : Nat} {run : Run} {slots : List Slot}
    (hstage : Session.stageAll run.session.cursors run.session.slots = (.ok (), slots)) :
    let staged := run.setSlots slots
    sendRows server (left + 1) row run =
      sendRest server left row (staged.answer server staged.sendRequest)
        (staged.call server staged.sendRequest) := by
  rw [sendRows, hstage]
  rfl

section Local

variable {server : Server} (hlocal : server.IsLocal) (session : Session) (own : Log)

include hlocal

theorem contained_call (request : Run → Request) (known : Request)
    (h : ∀ log sink, log.on session.connection = own → request ⟨session, log, sink⟩ = known) :
    Contained (fun run => (run.answer server (request run), run.call server (request run)))
      session own := by
  let status := server.answer own session.connection known
  refine ⟨status, session, [⟨session.connection, known, status⟩], [], rfl, by simp, ?_⟩
  intro log sink hlog
  have hanswer : answer ⟨session, log, sink⟩ server known = status := hlocal.answer_eq hlog known
  simp only [h log sink hlog, call, hanswer, List.append_nil]
  rfl

theorem contained_init : Contained (init server) session own := by
  by_cases hphase : session.phase = .created
  · have hcall := contained_call hlocal session own (fun run =>
      .init run.session.table directionIn) (.init session.table directionIn) fun _ _ _ => rfl
    have hinit := hcall.andThen (g := fun status run =>
      if status = succeeded then
        ((.ok .completed : Except Halt Reply), (run.setOpen true).enter .initialized)
      else
        (.ok .completed,
          (run.record (.initRefused run.session.batch.table status)).enter (.finished .failed)))
      fun status final later _ => by
        by_cases hstatus : status = succeeded
        · simp only [if_pos hstatus]
          exact (contained_stay (.ok .completed)
            { final with phase := .initialized, isOpen := true } later).of_eq rfl fun _ _ => rfl
        · simp only [if_neg hstatus]
          exact (contained_record (.ok .completed) (.initRefused final.batch.table status)
            { final with phase := .finished .failed } later).of_eq rfl fun _ _ => rfl
    exact hinit.of_eq rfl fun _ _ => if_pos hphase
  · exact (contained_refuse .init session own).of_eq rfl fun _ _ => if_neg hphase

theorem contained_bindColumns (answer : α) (position : Nat) (columns : List (Column × Slot)) :
    Contained (fun run => (answer, bindColumns server position columns run)) session own := by
  induction columns generalizing position session own with
  | nil =>
    exact (contained_stay answer { session with phase := .bound } own).of_eq rfl fun _ _ => rfl
  | cons first rest ih =>
    obtain ⟨column, slot⟩ := first
    have hcall := contained_call hlocal session own (fun _ => .bind (slot.binding column position))
      _ fun _ _ _ => rfl
    have hbind := hcall.andThen (g := fun status run =>
      if status = succeeded then (answer, bindColumns server (position + 1) rest run)
      else
        (answer,
          (run.record (.bindRefused position column.name status)).enter (.finished .failed)))
      fun status final later _ => by
        by_cases hstatus : status = succeeded
        · simp only [if_pos hstatus]
          exact ih final later (position + 1)
        · simp only [if_neg hstatus]
          exact (contained_record answer (.bindRefused position column.name status)
            { final with phase := .finished .failed } later).of_eq rfl fun _ _ => rfl
    refine hbind.of_eq rfl fun log sink => ?_
    rw [bindColumns]
    split
    · rfl
    · rfl

theorem contained_bind : Contained (bind server) session own := by
  by_cases hphase : session.phase = .initialized
  · have hbind := contained_bindColumns hlocal session own (.ok .completed : Except Halt Reply) 0
      (session.batch.columns.zip session.slots)
    exact hbind.of_eq rfl fun _ _ => if_pos hphase
  · exact (contained_refuse .bind session own).of_eq rfl fun _ _ => if_neg hphase

theorem contained_sendRows (left row : Nat) :
    Contained (sendRows server left row) session own := by
  induction left generalizing row session own with
  | zero => exact contained_stay _ session own
  | succ left ih =>
    rcases hstage : Session.stageAll session.cursors session.slots with ⟨halt | _, slots⟩
    · cases halt with
      | trap =>
        exact (contained_stay (.error .trap) { session with slots } own).of_eq rfl fun _ _ => by
          simp only [sendRows, hstage]
          rfl
      | fault fault =>
        exact (contained_record (.ok row) fault
          { session with slots, phase := .sending true } own).of_eq rfl fun _ _ => by
            simp only [sendRows, hstage]
            rfl
    · have hcall := contained_call hlocal { session with slots } own sendRequest
        (.send (Session.rowAt slots (own.bound session.connection)))
        fun log sink hlog => by
          rw [← hlog, Log.bound_on]
          rfl
      have hsend := hcall.andThen (g := sendRest server left row) fun status final later _ => by
        by_cases hstatus : status = succeeded
        · rcases hnext : Session.nextAll final.cursors with ⟨fault | _, cursors⟩
          · exact (contained_record (.ok (row + 1)) fault
              { final with cursors, phase := .sending true } later).of_eq rfl fun _ _ => by
                simp only [sendRest, if_pos hstatus, hnext]
                rfl
          · exact (ih { final with cursors } later (row + 1)).of_eq rfl fun _ _ => by
              simp only [sendRest, if_pos hstatus, hnext]
              rfl
        · exact (contained_record (.ok row) (.rowRefused row status)
            { final with phase := .sending true } later).of_eq rfl fun _ _ => by
              rw [sendRest, if_neg hstatus]
              rfl
      exact hsend.of_eq rfl fun log sink => sendRows_eq_sendRest server hstage

theorem contained_insert : Contained (insert server) session own := by
  by_cases hphase : session.phase = .bound
  · have hrows := contained_sendRows hlocal { session with phase := .sending false } own
      session.rows 0
    have hinsert := hrows.andThen (g := fun sent run => (sent.map Reply.sent, run))
      fun sent final later _ => contained_stay _ final later
    exact hinsert.of_eq rfl fun _ _ => if_pos hphase
  · exact (contained_refuse .insert session own).of_eq rfl fun _ _ => if_neg hphase

theorem contained_done : Contained (done server) session own := by
  cases hphase : session.phase with
  | sending aborted =>
    have hcall := contained_call hlocal session own (fun _ => .done) _ fun _ _ _ => rfl
    have hdone := hcall.andThen (g := fun status run =>
      if status.toInt < 0 then
        ((.ok (.accepted none) : Except Halt Reply),
          ((run.setOpen false).record (.notFinalized status)).enter (.finished .failed))
      else
        (.ok (.accepted (some status.toInt.toNat)),
          (run.setOpen false).enter (.finished (if aborted then .failed else .succeeded))))
      fun status final later _ => by
        by_cases hstatus : status.toInt < 0
        · simp only [if_pos hstatus]
          exact (contained_record (.ok (.accepted none)) (.notFinalized status)
            { final with phase := .finished .failed, isOpen := false } later).of_eq rfl
            fun _ _ => rfl
        · simp only [if_neg hstatus]
          exact (contained_stay (.ok (.accepted (some status.toInt.toNat)))
            { final with
              phase := .finished (if aborted then .failed else .succeeded), isOpen := false }
            later).of_eq rfl fun _ _ => rfl
    exact hdone.of_eq rfl fun _ _ => by
      simp only [done, hphase]
  | _ =>
    exact (contained_refuse .done session own).of_eq rfl fun _ _ => by
      simp only [done, hphase]

theorem contained_apply (operation : Operation) :
    Contained (apply server operation) session own := by
  cases operation with
  | init => exact contained_init hlocal session own
  | bind => exact contained_bind hlocal session own
  | insert => exact contained_insert hlocal session own
  | done => exact contained_done hlocal session own

theorem contained_close (answer : α) :
    Contained (fun run => (answer, run.close server)) session own := by
  by_cases hopen : session.isOpen = true
  · have hcall := contained_call hlocal session own (fun _ => .done) _ fun _ _ _ => rfl
    have hclose := hcall.andThen (g := fun _ run => (answer, run.setOpen false))
      fun _ final later _ =>
        (contained_stay answer { final with isOpen := false } later).of_eq rfl fun _ _ => rfl
    exact hclose.of_eq rfl fun _ _ => by
      simp only [close, hopen]
      rfl
  · exact (contained_stay answer session own).of_eq rfl fun _ _ => by
      simp only [close, if_neg hopen]

end Local

def followedBy (f : Run → Except Halt Reply × Run) (g : Reply → Run → Except Halt α × Run)
    (run : Run) : Except Halt α × Run :=
  match f run with
  | (.error halt, run) => (.error halt, run)
  | (.ok reply, run) => g reply run

theorem Contained.followedBy {f : Run → Except Halt Reply × Run}
    {g : Reply → Run → Except Halt α × Run} (hf : Contained f session own)
    (hg : ∀ reply (final : Session) later, Contained (g reply) final later) :
    Contained (followedBy f g) session own := by
  have hthen := hf.andThen (g := fun answer run =>
    match answer with
    | .error halt => (.error halt, run)
    | .ok reply => g reply run)
    fun answer final later _ => by
      cases answer with
      | error halt => exact contained_stay (.error halt : Except Halt α) final later
      | ok reply => exact hg reply final later
  refine hthen.of_eq rfl fun log sink => ?_
  unfold Run.followedBy
  rcases f ⟨session, log, sink⟩ with ⟨answer, run⟩
  cases answer <;> rfl

def rowsTaken : Reply → Nat
  | .accepted (some rows) => rows
  | _ => 0

theorem drive_eq (server : Server) (run : Run) : run.drive server =
    run.followedBy (init server) fun _ run =>
      if run.session.phase ≠ .initialized then (.ok 0, run)
      else run.followedBy (bind server) fun _ run =>
        if run.session.phase ≠ .bound then (.ok 0, run)
        else run.followedBy (insert server) fun _ run =>
          run.followedBy (done server) fun reply run => (.ok (rowsTaken reply), run) := by
  unfold drive followedBy
  rcases run.init server with ⟨⟨halt⟩ | ⟨reply⟩, run⟩
  · rfl
  · dsimp only
    split
    · rfl
    · rcases run.bind server with ⟨⟨halt⟩ | ⟨reply⟩, run⟩
      · rfl
      · dsimp only
        split
        · rfl
        · rcases run.insert server with ⟨⟨halt⟩ | ⟨reply⟩, run⟩
          · rfl
          · dsimp only
            rcases run.done server with ⟨⟨halt⟩ | ⟨_ | _ | _ | rows⟩, run⟩ <;> rfl

theorem Contained.inPhase {f : Run → α × Run} (phase : Phase) (answer : α)
    (hf : Contained f session own) :
    Contained (fun run => if run.session.phase ≠ phase then (answer, run) else f run)
      session own := by
  by_cases hphase : session.phase ≠ phase
  · exact (contained_stay answer session own).of_eq rfl fun _ _ => if_pos hphase
  · exact hf.of_eq rfl fun _ _ => if_neg hphase

/-- Closes the session when its run is over, and answers the rows unless there was a trap. -/
def settle (server : Server) : Except Halt Nat → Run → Option Nat × Run
  | .ok rows, run => (some rows, run.close server)
  | .error (.fault fault), run => (some 0, (run.record fault).close server)
  | .error .trap, run => (none, run)

section Whole

variable {server : Server} (hlocal : server.IsLocal) (session : Session) (own : Log)

include hlocal

theorem contained_drive : Contained (drive server) session own := by
  have hdrive := (contained_init hlocal session own).followedBy fun _ final later =>
    .inPhase .initialized (Except.ok 0) <| (contained_bind hlocal final later).followedBy
      fun _ final later => .inPhase .bound (Except.ok 0) <|
        (contained_insert hlocal final later).followedBy fun _ final later =>
          (contained_done hlocal final later).followedBy fun reply final later =>
            contained_stay (Except.ok (rowsTaken reply)) final later
  exact hdrive.of_eq rfl fun log sink => drive_eq server ⟨session, log, sink⟩

/-- What executing a session reports and calls follows from the session and its own calls. -/
theorem exists_complete :
    ∃ report calls, (∀ call ∈ calls, call.connection = session.connection) ∧
      ∀ log, log.on session.connection = own →
        session.complete server log = (report, log ++ calls) := by
  have hclosed := (contained_drive hlocal session own).andThen (g := settle server)
    fun answer final later _ => by
      cases answer with
      | ok rows => exact contained_close hlocal final later (some rows)
      | error halt =>
        cases halt with
        | trap => exact contained_stay none final later
        | fault fault =>
          exact (contained_record () fault final later).andThen
            (g := fun _ run => (some 0, run.close server))
            fun _ final later _ => contained_close hlocal final later (some 0)
  obtain ⟨rows, final, calls, faults, -, hcalls, hrun⟩ := hclosed
  refine ⟨rows.map (⟨·, faults⟩), calls, hcalls, fun log hlog => ?_⟩
  have hend := hrun log [] hlog
  unfold Session.complete
  rcases hdrive : drive server ⟨session, log, []⟩ with ⟨⟨⟨fault⟩ | _⟩ | ⟨rows⟩, run⟩
  · simp only [hdrive, settle] at hend
    obtain ⟨rfl, hclosed⟩ := Prod.mk.inj hend
    simp only [hclosed, List.nil_append, Option.map_some]
  · simp only [hdrive, settle] at hend
    obtain ⟨rfl, hclosed⟩ := Prod.mk.inj hend
    simp only [hclosed, Option.map_none]
  · simp only [hdrive, settle] at hend
    obtain ⟨rfl, hclosed⟩ := Prod.mk.inj hend
    simp only [hclosed, List.nil_append, Option.map_some]

end Whole

end Run

end BulkLoad
