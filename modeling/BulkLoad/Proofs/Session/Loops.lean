import BulkLoad.Proofs.Session.Course
import BulkLoad.Session.Phases

/-! # The loops of a session

A session has two loops, over its columns and over its rows. Both make the calls of an attempt:
they end as the attempt ends, and nothing but a refusal stops them.
-/
namespace BulkLoad

/-- Slots that were made for the columns of the batch, with any content. -/
def Batch.Slotted (batch : Batch) (slots : List Slot) : Prop :=
  List.Forall₂ (fun column slot => slot.Suits column) batch.columns slots

theorem Batch.slotted_fresh (batch : Batch) :
    batch.Slotted (batch.columns.map Slot.ofColumn) := by
  unfold Slotted
  induction batch.columns with
  | nil => exact .nil
  | cons column rest ih => exact .cons (Slot.suits_ofColumn column) ih

theorem Slot.Suits.binding_eq {column : Column} {slot : Slot} (h : slot.Suits column)
    (position : Nat) : slot.binding column position = (ofColumn column).binding column position := by
  simp only [binding, h.hasIndicator, h.length, (suits_ofColumn column).hasIndicator,
    (suits_ofColumn column).length]

namespace Run

def bindRequestsFrom (position : Nat) (columns : List Column) : List Request :=
  ((columns.zipIdx position).map fun (column, position) =>
    (Slot.ofColumn column).binding column position).map .bind

@[simp] theorem length_bindRequestsFrom (position : Nat) (columns : List Column) :
    (bindRequestsFrom position columns).length = columns.length := by
  simp [bindRequestsFrom]

def boundUpTo (position : Nat) (columns : List Column) (run : Run)
    (stop : Option (Refusal (bindRequestsFrom position columns))) : Run :=
  let called := { run with log := run.log ++ attempted run.connection _ stop }
  match stop with
  | none => called.enter .bound
  | some refusal =>
    let column := columns.get (refusal.position.cast (length_bindRequestsFrom position columns))
    (called.record (.bindRefused (position + refusal.position) column.name refusal.status)).enter
      (.finished .failed)

theorem boundUpTo_later {position : Nat} {column : Column} {columns : List Column} {run : Run}
    (stop : Option (Refusal (bindRequestsFrom (position + 1) columns))) :
    boundUpTo position (column :: columns) run (stop.map (Refusal.later _)) =
      boundUpTo (position + 1) columns
        { run with log := run.log ++ [⟨run.connection,
          .bind ((Slot.ofColumn column).binding column position), succeeded⟩] } stop := by
  have hlog := attempted_later run.connection
    (.bind ((Slot.ofColumn column).binding column position)) _ stop
  cases stop with
  | none =>
    simp only [boundUpTo, Option.map_none, List.append_assoc] at hlog ⊢
    rw [List.singleton_append]
    exact congrArg (fun calls => Run.enter { run with log := run.log ++ calls } .bound) hlog
  | some refusal =>
    have hposition : position + (refusal.position.val + 1) = position + 1 + refusal.position := by
      omega
    simp only [boundUpTo, Option.map_some, List.append_assoc] at hlog ⊢
    rw [← hposition, List.singleton_append]
    exact congrArg (fun calls => Run.enter (Run.record { run with log := run.log ++ calls } _)
      (.finished .failed)) hlog

theorem bindColumns_eq (server : Server) {columns : List Column} {slots : List Slot}
    (hslots : List.Forall₂ (fun column slot => slot.Suits column) columns slots) (position : Nat)
    (run : Run) :
    bindColumns server position (columns.zip slots) run =
      boundUpTo position columns run
        (server.attempt run.connection run.log (bindRequestsFrom position columns)) := by
  induction hslots generalizing position run with
  | nil =>
    change run.enter .bound = boundUpTo position [] run none
    simp [boundUpTo, bindRequestsFrom]
  | @cons column slot columns slots hslot _ ih =>
    let request : Request := .bind ((Slot.ofColumn column).binding column position)
    simp only [List.zip_cons_cons, bindColumns, hslot.binding_eq]
    by_cases h : run.answer server request = succeeded
    · have hattempt : server.attempt run.connection run.log
          (bindRequestsFrom position (column :: columns)) =
          (server.attempt run.connection (run.log ++ [⟨run.connection, request, succeeded⟩])
            (bindRequestsFrom (position + 1) columns)).map (Refusal.later request) := dif_pos h
      have hcall : run.call server request =
          { run with log := run.log ++ [⟨run.connection, request, succeeded⟩] } := by
        rw [call, h]
      rw [if_pos h, ih, hattempt]
      change boundUpTo _ _ (run.call server request) (server.attempt _ (run.call server request).log
        _) = _
      rw [hcall]
      exact (boundUpTo_later _).symm
    · have hattempt : server.attempt run.connection run.log
          (bindRequestsFrom position (column :: columns)) =
          some ⟨⟨0, Nat.succ_pos _⟩, run.answer server request, h⟩ := dif_neg h
      rw [if_neg h, hattempt]
      rfl

theorem sendRows_granted {server : Server} {run : Run} {left row : Nat} {slots : List Slot}
    {cursors : List Cursor} {request : Request}
    (hstaged : Session.stageAll run.session.cursors run.session.slots = (.ok (), slots))
    (hrequest : (run.setSlots slots).sendRequest = request)
    (hnext : Session.nextAll run.session.cursors = (.ok (), cursors))
    (h : server.answer run.log run.connection request = succeeded) :
    sendRows server (left + 1) row run =
      sendRows server left (row + 1) {
        session := { run.session with slots, cursors }
        log := run.log ++ [⟨run.connection, request, succeeded⟩]
        sink := run.sink } := by
  have hanswer : (run.setSlots slots).answer server request = succeeded := h
  have hfurther : Session.nextAll ((run.setSlots slots).call server request).session.cursors =
      (.ok (), cursors) := hnext
  rw [sendRows, hstaged]
  simp only [hrequest, hanswer, ↓reduceIte, hfurther]
  rw [call, hanswer]
  rfl

theorem sendRows_refused {server : Server} {run : Run} {left row : Nat} {slots : List Slot}
    {request : Request}
    (hstaged : Session.stageAll run.session.cursors run.session.slots = (.ok (), slots))
    (hrequest : (run.setSlots slots).sendRequest = request)
    (h : ¬server.answer run.log run.connection request = succeeded) :
    sendRows server (left + 1) row run =
      (.ok row, {
        session := { run.session with slots, phase := .sending true }
        log := run.log ++ [⟨run.connection, request, server.answer run.log run.connection request⟩]
        sink := run.sink ++ [.rowRefused row (server.answer run.log run.connection request)] }) := by
  have hanswer : ¬(run.setSlots slots).answer server request = succeeded := h
  rw [sendRows, hstaged]
  simp only [hrequest, hanswer, ↓reduceIte]
  rfl

section Rows

variable {batch : Batch}

def rowRequest (batch : Batch) (row : Nat) : Request := .send ((batch.row row).map some)

def sendRequestsFrom (batch : Batch) (row left : Nat) : List Request :=
  (List.range' row left).map (rowRequest batch)

/-- The answer and the run after sending rows came to this end. -/
def sentUpTo (batch : Batch) (connection row left : Nat) (log : Log) (sink : Sink)
    (final : List Slot) (stop : Option (Refusal (sendRequestsFrom batch row left))) :
    Except Halt Nat × Run :=
  let sent := row + (grantedOf _ stop).length
  (.ok sent, ⟨batch.sessionAt connection (.sending stop.isSome) true sent final,
    log ++ attempted connection _ stop, sink ++ rowFaults row stop⟩)

theorem sentUpTo_later {connection row left : Nat} {log : Log} {sink : Sink} {final : List Slot}
    (stop : Option (Refusal (sendRequestsFrom batch (row + 1) left))) :
    sentUpTo batch connection row (left + 1) log sink final (stop.map (Refusal.later _)) =
      sentUpTo batch connection (row + 1) left
        (log ++ [⟨connection, rowRequest batch row, succeeded⟩]) sink final stop := by
  have hcalls := attempted_later connection (rowRequest batch row) _ stop
  have hlength := length_grantedOf_later (rowRequest batch row) _ stop
  have hsent : row + ((grantedOf _ stop).length + 1) = row + 1 + (grantedOf _ stop).length := by
    omega
  have hfaults : rowFaults row (stop.map (Refusal.later (rowRequest batch row))) =
      rowFaults (row + 1) stop := by
    cases stop with
    | none => rfl
    | some refusal =>
      have hposition : row + (refusal.position.val + 1) = row + 1 + refusal.position := by omega
      simp only [rowFaults, Option.map_some, ← hposition]
      rfl
  have hsome : (stop.map (Refusal.later (rowRequest batch row))).isSome = stop.isSome :=
    Option.isSome_map
  unfold sentUpTo
  rw [← hsent, ← hlength, List.append_assoc, List.singleton_append, ← hcalls, ← hfaults, ← hsome]
  rfl

theorem row_staged (huniform : batch.Uniform) {connection row : Nat} {slots : List Slot} {log : Log}
    (hrow : row < batch.rows) (hslots : batch.Slotted slots)
    (hbound : log.bound connection = batch.bindings) :
    ∃ staged, batch.Slotted staged ∧
      Session.stageAll (batch.columns.map (·.cursorAt row)) slots = (.ok (), staged) ∧
      Session.nextAll (batch.columns.map (·.cursorAt row)) =
        (.ok (), batch.columns.map (·.cursorAt (row + 1))) ∧
      ∀ sink, (setSlots ⟨batch.sessionAt connection (.sending false) true row slots, log, sink⟩
        staged).sendRequest = rowRequest batch row := by
  have hcolumns := huniform.wellFormed_at hrow
  obtain ⟨staged, hstaged, hsuits, hshows⟩ := Session.stageAll_cursorAt hcolumns hslots
  refine ⟨staged, hsuits, hstaged, Session.nextAll_cursorAt hcolumns, fun sink => ?_⟩
  change Request.send (Session.rowAt staged (log.bound connection)) = rowRequest batch row
  rw [hbound, Session.rowAt_bindings hshows]
  rfl

/-- The loop over the rows. It never stops for a cursor or a slot. -/
theorem sendRows_eq (huniform : batch.Uniform) (server : Server) (connection : Nat)
    {left row : Nat} {slots : List Slot} {log : Log} (hleft : row + left ≤ batch.rows)
    (hslots : batch.Slotted slots) (hbound : log.bound connection = batch.bindings) :
    ∃ final, batch.Slotted final ∧ ∀ sink,
      sendRows server left row
          ⟨batch.sessionAt connection (.sending false) true row slots, log, sink⟩ =
        sentUpTo batch connection row left log sink final
          (server.attempt connection log (sendRequestsFrom batch row left)) := by
  induction left generalizing row slots log with
  | zero =>
    refine ⟨slots, hslots, fun sink => ?_⟩
    change _ = sentUpTo batch connection row 0 log sink slots none
    simp [sendRows, sentUpTo, sendRequestsFrom, grantedOf, rowFaults]
  | succ left ih =>
    have hrow : row < batch.rows := by omega
    obtain ⟨staged, hsuits, hstaged, hnext, hrequest⟩ :=
      row_staged huniform hrow hslots hbound
    let request := rowRequest batch row
    by_cases h : server.answer log connection request = succeeded
    · have hattempt : server.attempt connection log (sendRequestsFrom batch row (left + 1)) =
          (server.attempt connection (log ++ [⟨connection, request, succeeded⟩])
            (sendRequestsFrom batch (row + 1) left)).map (Refusal.later request) := dif_pos h
      have hstill : Log.bound (log ++ [⟨connection, request, succeeded⟩]) connection =
          batch.bindings := by
        simp [Log.rebind, request, rowRequest, hbound]
      have hleft : row + 1 + left ≤ batch.rows := by omega
      obtain ⟨final, hfinal, hrest⟩ := ih hleft hsuits hstill
      refine ⟨final, hfinal, fun sink => ?_⟩
      rw [hattempt]
      exact (sendRows_granted hstaged (hrequest sink) hnext h).trans
        ((hrest sink).trans (sentUpTo_later _).symm)
    · have hattempt : server.attempt connection log (sendRequestsFrom batch row (left + 1)) =
          some ⟨⟨0, Nat.succ_pos _⟩, server.answer log connection request, h⟩ := dif_neg h
      refine ⟨staged, hsuits, fun sink => ?_⟩
      rw [hattempt]
      exact sendRows_refused hstaged (hrequest sink) h

end Rows

end Run

end BulkLoad
