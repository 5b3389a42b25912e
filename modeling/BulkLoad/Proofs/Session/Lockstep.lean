import BulkLoad.Proofs.Session.History
import BulkLoad.Proofs.Session.Kinds

/-! # Cursors in lockstep

All cursors of a session stand at one row, and the sends that succeeded are as many. Before the end
every cursor reads a value that its slot has room for and goes on to the next row. So sending ends
early for one reason only, a row that the server refuses.
-/
namespace BulkLoad

/-- The number of sends that succeeded. -/
def Log.grantedSends (calls : Log) : Nat :=
  ((calls.filter Call.isSend).filter (·.status = succeeded)).length

theorem Log.grantedSends_append (first second : Log) :
    grantedSends (first ++ second) = grantedSends first + grantedSends second := by
  simp only [grantedSends, List.filter_append, List.length_append]

/-- A value fits behind the indicator, or without one it fills the slot and is not null. -/
def Slot.Admits (slot : Slot) : Cell → Prop
  | .null => slot.hasIndicator = true
  | .bytes content =>
    if slot.hasIndicator then indicatorBytes + content.length ≤ slot.length
    else content.length = slot.length

theorem Slot.Suits.admits {column : Column} {slot : Slot} (h : slot.Suits column) {cell : Cell}
    (hcell : column.Takes cell) : slot.Admits cell := by
  cases cell with
  | null => exact h.hasIndicator.trans hcell
  | bytes content =>
    obtain ⟨hfits, hfills⟩ := hcell
    simp only [Admits, h.hasIndicator, h.length, lead]
    cases hindicator : column.needsIndicator with
    | true => exact Nat.add_le_add_left hfits indicatorBytes
    | false => exact (hfills hindicator).trans (Nat.zero_add _).symm

theorem Column.WellFormed.width?_eq {column : Column} (h : column.WellFormed)
    (hplain : column.needsIndicator = false) :
    column.type.width? = some column.storage.longestValue := by
  obtain ⟨name, type, storage, nulls⟩ := column
  cases h.fits with
  | fixed hwidth hcut => exact hwidth
  | packed => simp [needsIndicator] at hplain

/-- The cursors stand at one row, and unless it is the end the row can be staged and left. -/
structure Session.Lockstep (session : Session) (row : Nat) : Prop where
  bounded : row ≤ session.rows
  cursors : ∀ cursor ∈ session.cursors, cursor.index = row
  slots : List.Forall₂ (fun column slot => slot.Suits column) session.batch.columns session.slots
  widths : ∀ column ∈ session.batch.columns, column.needsIndicator = false →
    column.type.width? = some column.storage.longestValue
  cells : row < session.rows → List.Forall₂ (fun cursor slot => ∃ cell,
    cursor.current = .ok cell ∧ slot.Admits cell) session.cursors session.slots
  staged : row < session.rows →
    ∃ staged, Session.stageAll session.cursors session.slots = (.ok (), staged)
  advanced : row < session.rows → ∃ further, Session.nextAll session.cursors = (.ok (), further)

theorem Batch.Uniform.lockstep {batch : Batch} (h : batch.Uniform) {slots : List Slot}
    (hslots : batch.Slotted slots) {row : Nat} (hrow : row ≤ batch.rows) (connection : Nat)
    (phase : Phase) (isOpen : Bool) :
    (batch.sessionAt connection phase isOpen row slots).Lockstep row := by
  constructor
  · exact hrow
  · intro cursor hcursor
    obtain ⟨column, -, rfl⟩ := List.mem_map.mp hcursor
    exact column.index_cursorAt row
  · exact hslots
  · intro column hcolumn
    exact (h.wellFormed column hcolumn).width?_eq
  · intro hlt
    have hcolumns := h.wellFormed_at hlt
    refine List.forall₂_map_left_iff.mpr ?_
    refine ((List.forall₂_and_left _ _).mpr ⟨hcolumns, hslots⟩).imp ?_
    rintro column slot ⟨⟨hwell, hrow⟩, hsuits⟩
    exact ⟨column.cell row, hwell.current_cursorAt hrow, hsuits.admits (hwell.takes_cell hrow)⟩
  · intro hlt
    obtain ⟨staged, hstaged, -⟩ := Session.stageAll_cursorAt (h.wellFormed_at hlt) hslots
    exact ⟨staged, hstaged⟩
  · intro hlt
    exact ⟨_, Session.nextAll_cursorAt (h.wellFormed_at hlt)⟩

namespace Run

/-- A loop over more rows goes on where a loop over the first of them came to its end, unless that
one was stopped. -/
theorem sendRows_add (server : Server) (first rest row : Nat) {run : Run}
    (hphase : run.session.phase = .sending false) :
    sendRows server (first + rest) row run =
      match sendRows server first row run with
      | (.ok sent, further) =>
        if further.session.phase = .sending false then sendRows server rest sent further
        else (.ok sent, further)
      | (.error halt, further) => (.error halt, further) := by
  induction first generalizing row run with
  | zero =>
    rw [Nat.zero_add]
    exact (if_pos hphase).symm
  | succ first ih =>
    rw [Nat.succ_add_eq_add_succ, Nat.add_succ, sendRows, sendRows]
    rcases Session.stageAll run.session.cursors run.session.slots with ⟨halt | _, slots⟩
    · cases halt with
      | trap => rfl
      | fault fault => rfl
    · dsimp only
      split
      · let called := (run.setSlots slots).call server (run.setSlots slots).sendRequest
        rcases Session.nextAll called.session.cursors with ⟨fault | _, cursors⟩
        · rfl
        · exact ih _ hphase
      · rfl

/-- The answer and the run when an insert has gone over some rows, or has been stopped before. -/
def through (server : Server) (run : Run) (count : Nat) : Except Halt Nat × Run :=
  sendRows server count 0 (run.enter (.sending false))

theorem insert_eq (server : Server) {run : Run} (hphase : run.session.phase = .bound) {count : Nat}
    (hcount : count ≤ run.session.rows) :
    (run.insert server).2 =
      match run.through server count with
      | (.ok sent, further) =>
        if further.session.phase = .sending false then
          (sendRows server (run.session.rows - count) sent further).2
        else further
      | (.error _, further) => further := by
  have hinsert : (run.insert server).2 =
      (sendRows server run.session.rows 0 (run.enter (.sending false))).2 := by
    rw [insert, if_pos hphase]
  have hsplit : run.session.rows = count + (run.session.rows - count) := by omega
  rw [hinsert, through]
  conv_lhs => rw [hsplit, sendRows_add server count _ 0 rfl]
  cases sendRows server count 0 (run.enter (.sending false)) with
  | mk answer further =>
    cases answer with
    | error halt => rfl
    | ok sent =>
      dsimp only
      split
      · rfl
      · rfl

/-- The sending goes on, or its last send was refused and nothing else was recorded. -/
def EndsWith (sends : Log) (count : Nat) (start further : Run) : Prop :=
  further.session.phase = .sending false ∧ sends.grantedSends = count ∧
      further.sink = start.sink ∨
    ∃ call ∈ sends, call.isSend = true ∧ call.status ≠ succeeded ∧
      further.session.phase = .sending true ∧
      further.sink = start.sink ++ [.rowRefused sends.grantedSends call.status]

section Rows

variable {batch : Batch}

theorem isSend_of_mem_attempted {connection row left : Nat}
    {stop : Option (Refusal (sendRequestsFrom batch row left))} {call : Call}
    (h : call ∈ attempted connection _ stop) : call.isSend = true := by
  obtain ⟨other, request, status⟩ := call
  obtain ⟨number, -, rfl⟩ := List.mem_map.mp (mem_attempted h).2
  rfl

theorem grantedSends_attempted (connection row left : Nat)
    (stop : Option (Refusal (sendRequestsFrom batch row left))) :
    Log.grantedSends (attempted connection _ stop) = (grantedOf _ stop).length := by
  have hsends : (attempted connection _ stop).filter Call.isSend = attempted connection _ stop :=
    List.filter_eq_self.mpr fun call hcall => isSend_of_mem_attempted hcall
  rw [Log.grantedSends, hsends, filter_succeeded_attempted, Log.length_granted]

theorem endsWith_sentUpTo {connection count : Nat} {log : Log} (start : Run) {final : List Slot}
    (stop : Option (Refusal (sendRequestsFrom batch 0 count))) :
    EndsWith (attempted connection _ stop) count start
      (sentUpTo batch connection 0 count log start.sink final stop).2 := by
  have hgranted := grantedSends_attempted connection 0 count stop
  unfold EndsWith
  rw [hgranted]
  cases stop with
  | none =>
    left
    refine ⟨rfl, ?_, List.append_nil _⟩
    simp [grantedOf, sendRequestsFrom]
  | some refusal =>
    right
    have hlast : ⟨connection, refusal.request, refusal.status⟩ ∈
        attempted connection _ (some refusal) :=
      List.mem_append_right _ (List.mem_singleton.mpr rfl)
    refine ⟨_, hlast, isSend_of_mem_attempted hlast, refusal.refused, rfl, ?_⟩
    simp [sentUpTo, rowFaults, grantedOf]

end Rows

end Run

namespace Course

variable {batch : Batch}

theorem grantedSends_calls (connection : Nat) (course : Course batch) :
    Log.grantedSends (course.calls connection) = course.rowsSent := by
  rw [Log.grantedSends, filter_isSend_calls, length_succeeded_sends]

theorem phase_eq_bound {course : Course batch} : course.phase = .bound ↔ course = bound := by
  cases course with
  | finished stop answer =>
    by_cases h : answer.toInt < 0 <;> simp [phase, h]
  | _ => simp [phase]

/-- A session is aborted by a send that was refused. -/
theorem refused_of_aborted {course : Course batch} (connection : Nat)
    (h : course.phase = .sending true) :
    ∃ call ∈ course.calls connection, call.isSend = true ∧ call.status ≠ succeeded := by
  cases course with
  | sent stop =>
    cases stop with
    | none => cases h
    | some refusal =>
      have hlast : ⟨connection, refusal.request, refusal.status⟩ ∈
          attempted connection batch.sendRequests (some refusal) :=
        List.mem_append_right _ (List.mem_singleton.mpr rfl)
      obtain ⟨row, hrow⟩ := Batch.send_of_mem_sendRequests refusal.request_mem
      refine ⟨_, List.mem_append_right _ hlast, ?_, refusal.refused⟩
      simp only [Call.isSend, hrow]
  | finished stop answer =>
    by_cases hnegative : answer.toInt < 0 <;> simp [phase, hnegative] at h
  | _ => cases h

theorem cursorExhausted_notMem_faults (course : Course batch) (index size : Nat) :
    .cursorExhausted index size ∉ course.faults := by
  have hrows (stop : Option (Refusal batch.sendRequests)) :
      .cursorExhausted index size ∉ rowFaults 0 stop := by
    cases stop <;> simp [rowFaults]
  cases course with
  | sent stop => exact hrows stop
  | finished stop answer =>
    have hfinal : .cursorExhausted index size ∉ finalFaults answer := by
      unfold finalFaults
      split <;> simp
    simp [faults, hrows, hfinal]
  | _ => simp [faults]

end Course

namespace History

variable {batch : Batch} {connection : Nat} {log : Log} {history : History}

theorem Follows.lockstep (huniform : batch.Uniform) {course : Course batch}
    (h : history.Follows connection log course) :
    history.session.Lockstep (course.calls connection).grantedSends := by
  obtain ⟨slots, hslots, hsession⟩ := h.session
  rw [hsession, course.grantedSends_calls]
  exact huniform.lockstep hslots course.rowsSent_le connection course.phase course.isOpen

theorem Follows.through (huniform : batch.Uniform)
    (h : history.Follows connection log (.bound : Course batch)) (server : Server) (sink : Sink)
    {count : Nat} (hcount : count ≤ history.session.rows) :
    ∃ sends further, Run.through server ⟨history.session, history.log, sink⟩ count =
        (.ok sends.grantedSends, further) ∧
      further.log = history.log ++ sends ∧ further.session.Lockstep sends.grantedSends ∧
      Run.EndsWith sends count ⟨history.session, history.log, sink⟩ further := by
  obtain ⟨slots, hslots, hsession⟩ := h.session
  have hrows : 0 + count ≤ batch.rows := by
    rw [hsession] at hcount
    exact (Nat.zero_add count).trans_le hcount
  obtain ⟨final, hfinal, hsent⟩ := Run.sendRows_eq huniform server connection hrows hslots
    (Course.bound_calls log connection)
  have hthrough : Run.through server ⟨history.session, history.log, sink⟩ count =
      Run.sendRows server count 0 ⟨batch.sessionAt connection (.sending false) true 0 slots,
        log ++ (Course.bound : Course batch).calls connection, sink⟩ := by
    rw [hsession, h.log]
    rfl
  rw [hthrough, hsent sink, h.log]
  generalize server.attempt connection _ _ = stop
  have hgranted := Run.grantedSends_attempted connection 0 count stop
  have hprefix := (grantedOf_isPrefix _ stop).length_le
  have hlength : (Run.sendRequestsFrom batch 0 count).length = count := by
    simp [Run.sendRequestsFrom]
  refine ⟨attempted connection _ stop,
    (Run.sentUpTo batch connection 0 count _ sink final stop).2, ?_, rfl, ?_, ?_⟩
  · rw [hgranted, Run.sentUpTo, Nat.zero_add]
  · rw [hgranted, Run.sentUpTo, Nat.zero_add]
    exact huniform.lockstep hfinal (by omega) connection _ true
  · exact Run.endsWith_sentUpTo ⟨history.session, log ++ _, sink⟩ stop

/-- Whatever is asked of a session and whatever the server answers, the cursors stand at one row,
which counts the sends that succeeded, and no operation stops for a cursor or a slot. The same holds
of every run that an insert passes through, and only a refused row stops it. -/
theorem lockstep_perform {session : Session} (built : ∀ column ∈ batch.columns, column.Built)
    (created : Session.create connection batch = .ok session) (server : Server) (log : Log)
    (steps : List Step) :
    let history := (ofSession session log).perform server steps
    ∃ calls, history.log = log ++ calls ∧
      history.session.Lockstep calls.grantedSends ∧
      (∀ index size, .cursorExhausted index size ∉ history.faults) ∧
      .error .trap ∉ history.answers ∧
      (history.session.phase = .sending true →
        ∃ call ∈ calls, call.isSend = true ∧ call.status ≠ succeeded) ∧
      (history.session.phase = .bound → ∀ sink, ∀ count ≤ history.session.rows,
        let start : Run := ⟨history.session, history.log, sink⟩
        ∃ sends further, start.through server count = (.ok sends.grantedSends, further) ∧
          further.log = log ++ (calls ++ sends) ∧
          further.session.Lockstep (calls ++ sends).grantedSends ∧
          Run.EndsWith sends count start further ∧
          (start.insert server).2 =
            if further.session.phase = .sending false then
              (Run.sendRows server (history.session.rows - count) sends.grantedSends further).2
            else further) := by
  intro history
  have huniform := Session.uniform_of_create built created
  have h := follows_perform built created server log steps
  refine ⟨_, h.log, h.lockstep huniform, ?_, h.answers, ?_, ?_⟩
  · intro index size
    rw [h.faults]
    exact Course.cursorExhausted_notMem_faults _ index size
  · intro haborted
    rw [h.phase_eq] at haborted
    exact Course.refused_of_aborted connection haborted
  · intro hphase sink count hcount start
    have hbound := Course.phase_eq_bound.mp (h.phase_eq.symm.trans hphase)
    rw [hbound] at h
    obtain ⟨sends, further, hthrough, hlog, hlockstep, hends⟩ :=
      h.through huniform server sink hcount
    refine ⟨sends, further, hthrough, ?_, ?_, hends, ?_⟩
    · rw [hlog, h.log, List.append_assoc, hbound]
    · have hnone : (Course.bound : Course batch).rowsSent + sends.grantedSends =
          sends.grantedSends := Nat.zero_add _
      rw [Log.grantedSends_append, Course.grantedSends_calls, hbound, hnone]
      exact hlockstep
    · rw [Run.insert_eq server hphase hcount, hthrough]

theorem lockstep_perform_sample :
    (∀ column ∈ Batch.sample.columns, column.Built) ∧
      Session.create 1 Batch.sample = .ok Session.sample ∧
      let server := Script.server
        { Script.accepting with send := fun number => if number = 1 then some refused else none }
      let history := (ofSession Session.sample []).perform server [⟨.init, []⟩, ⟨.bind, []⟩]
      history.session.phase = .bound ∧ history.session.Lockstep 0 ∧
        ∃ further, Run.through server ⟨history.session, history.log, []⟩ 2 = (.ok 1, further) ∧
          further.session.Lockstep 1 := by
  refine ⟨Batch.built_sample, Session.create_sample, by decide, ?_⟩
  obtain ⟨calls, hcalls, hlockstep, -, -, -, hloop⟩ := lockstep_perform Batch.built_sample
    Session.create_sample (Script.server { Script.accepting with
      send := fun number => if number = 1 then some refused else none }) []
    [⟨.init, []⟩, ⟨.bind, []⟩]
  rw [List.nil_append] at hcalls
  have hnone : calls.grantedSends = 0 := by
    rw [← hcalls]
    decide
  obtain ⟨sends, further, hthrough, -, hfurther, -⟩ := hloop (by decide) [] 2 (by decide)
  have hone : sends.grantedSends = 1 := by
    have hanswer := congrArg Prod.fst hthrough
    refine Except.ok.inj (hanswer.symm.trans ?_)
    decide
  rw [hnone] at hlockstep
  rw [Log.grantedSends_append, hnone, hone] at hfurther
  rw [hone] at hthrough
  exact ⟨hlockstep, further, hthrough, hfurther⟩

end History

end BulkLoad
