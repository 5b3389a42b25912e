import BulkLoad.Proofs.Session.History
import BulkLoad.Proofs.Session.Kinds

/-! # Reports of whole loads

The first request that the server refuses decides what a load reports. A refused init or column is
the only fault, whatever freeing the load answers then. A refused row is followed by finishing,
which may fail as well.
-/
namespace BulkLoad

variable {server : Server} {connection : Nat} {log : Log} {batch : Batch}

/-- The report that follows from what the server grants, refuses and answers in the end. -/
inductive Verdict (server : Server) (connection : Nat) (log : Log) (batch : Batch) : Report → Prop
  | initRefused {status : Int32}
      (answer : server.answer log connection batch.initRequest = status)
      (refused : status ≠ succeeded) :
      Verdict server connection log batch ⟨0, [.initRefused batch.table status]⟩
  | bindRefused (refusal : Refusal batch.bindRequests)
      (granted : server.Grants connection log (batch.initRequest :: refusal.before))
      (answer : server.answer
        (log ++ Log.granted connection (batch.initRequest :: refusal.before)) connection
        refusal.request = refusal.status) :
      Verdict server connection log batch
        ⟨0, [.bindRefused refusal.position (batch.refusedColumn refusal).name refusal.status]⟩
  | rowRefused (refusal : Refusal batch.sendRequests) {final : Int32}
      (granted : server.Grants connection log
        (batch.initRequest :: batch.bindRequests ++ refusal.before))
      (answer : server.answer
        (log ++ Log.granted connection (batch.initRequest :: batch.bindRequests ++ refusal.before))
        connection refusal.request = refusal.status)
      (done : server.answer
        (log ++ Log.granted connection (batch.initRequest :: batch.bindRequests ++ refusal.before) ++
          [⟨connection, refusal.request, refusal.status⟩]) connection .done = final) :
      Verdict server connection log batch
        ⟨final.toInt.toNat, .rowRefused refusal.position refusal.status :: finalFaults final⟩
  | granted {final : Int32}
      (granted : server.Grants connection log
        (batch.initRequest :: batch.bindRequests ++ batch.sendRequests))
      (done : server.answer (log ++ Log.granted connection
        (batch.initRequest :: batch.bindRequests ++ batch.sendRequests)) connection .done = final) :
      Verdict server connection log batch ⟨final.toInt.toNat, finalFaults final⟩

namespace Course

theorem report_finished (stop : Option (Refusal batch.sendRequests)) (answer : Int32) :
    (finished stop answer).report = ⟨answer.toInt.toNat, rowFaults 0 stop ++ finalFaults answer⟩ := by
  by_cases h : answer.toInt < 0
  · simp [report, acceptedRows, faults, h, Int.toNat_of_nonpos h.le]
  · simp [report, acceptedRows, faults, h]

theorem whole_of_refused {status : Int32}
    (answer : server.answer log connection batch.initRequest = status)
    (refused : status ≠ succeeded) :
    whole server connection log batch = initRefused status refused := by
  subst answer
  exact dif_neg refused

theorem whole_of_bindRefused {refusal : Refusal batch.bindRequests}
    (granted : server.Grants connection log (batch.initRequest :: refusal.before))
    (answer : server.answer (log ++ Log.granted connection (batch.initRequest :: refusal.before))
      connection refusal.request = refusal.status) :
    whole server connection log batch = bindRefused refusal := by
  obtain ⟨hinit, hbefore⟩ := Server.grants_cons.mp granted
  have hattempt : server.attempt connection
      (log ++ (initialized : Course batch).calls connection) batch.bindRequests = some refusal :=
    Server.attempt_eq_some_iff.mpr ⟨hbefore, by simpa [calls] using answer⟩
  simp only [whole, hinit, ↓reduceDIte, hattempt]

theorem whole_of_bound
    (granted : server.Grants connection log (batch.initRequest :: batch.bindRequests))
    {stop : Option (Refusal batch.sendRequests)}
    (hstop : server.attempt connection (log ++ (bound : Course batch).calls connection)
      batch.sendRequests = stop) :
    whole server connection log batch =
      finished stop (server.answer (log ++ (sent stop).calls connection) connection .done) := by
  obtain ⟨hinit, hbinds⟩ := Server.grants_cons.mp granted
  have hattempt : server.attempt connection
      (log ++ (initialized : Course batch).calls connection) batch.bindRequests = none :=
    Server.attempt_eq_none_iff.mpr hbinds
  simp only [whole, hinit, ↓reduceDIte, hattempt, hstop]

theorem whole_of_rowRefused {refusal : Refusal batch.sendRequests} {final : Int32}
    (granted : server.Grants connection log
      (batch.initRequest :: batch.bindRequests ++ refusal.before))
    (answer : server.answer
      (log ++ Log.granted connection (batch.initRequest :: batch.bindRequests ++ refusal.before))
      connection refusal.request = refusal.status)
    (done : server.answer
      (log ++ Log.granted connection (batch.initRequest :: batch.bindRequests ++ refusal.before) ++
        [⟨connection, refusal.request, refusal.status⟩]) connection .done = final) :
    whole server connection log batch = finished (some refusal) final := by
  obtain ⟨hbound, hbefore⟩ := Server.grants_append.mp granted
  have hstop : server.attempt connection (log ++ (bound : Course batch).calls connection)
      batch.sendRequests = some refusal :=
    Server.attempt_eq_some_iff.mpr ⟨hbefore, by simpa [calls] using answer⟩
  have hdone : server.answer (log ++ (sent (some refusal)).calls connection) connection .done =
      final := by
    simpa [calls, attempted_some] using done
  rw [whole_of_bound hbound hstop, hdone]

theorem whole_of_granted {final : Int32}
    (granted : server.Grants connection log
      (batch.initRequest :: batch.bindRequests ++ batch.sendRequests))
    (done : server.answer (log ++ Log.granted connection
      (batch.initRequest :: batch.bindRequests ++ batch.sendRequests)) connection .done = final) :
    whole server connection log batch = finished none final := by
  obtain ⟨hbound, hsends⟩ := Server.grants_append.mp granted
  have hdone : server.answer (log ++ (sent none : Course batch).calls connection) connection
      .done = final := by
    simpa [calls] using done
  rw [whole_of_bound hbound (Server.attempt_eq_none_iff.mpr hsends), hdone]

end Course

/-- There is no other verdict than the report of the course. -/
theorem Verdict.eq_report {report : Report} (h : Verdict server connection log batch report) :
    report = (Course.whole server connection log batch).report := by
  cases h with
  | initRefused answer refused =>
    rw [Course.whole_of_refused answer refused]
    rfl
  | bindRefused refusal granted answer =>
    rw [Course.whole_of_bindRefused granted answer]
    rfl
  | rowRefused refusal granted answer done =>
    rw [Course.whole_of_rowRefused granted answer done, Course.report_finished]
    simp [rowFaults]
  | granted granted done =>
    rw [Course.whole_of_granted granted done, Course.report_finished]
    simp [rowFaults]

theorem exists_verdict (server : Server) (connection : Nat) (log : Log) (batch : Batch) :
    ∃ report, Verdict server connection log batch report := by
  by_cases hinit : server.answer log connection batch.initRequest = succeeded
  · rcases Server.grants_or_refused (log ++ [⟨connection, batch.initRequest, succeeded⟩])
      batch.bindRequests with hbinds | ⟨refusal, hbefore, hanswer⟩
    · have hbound := Server.grants_cons.mpr ⟨hinit, hbinds⟩
      rcases Server.grants_or_refused
        (log ++ Log.granted connection (batch.initRequest :: batch.bindRequests))
        batch.sendRequests with hsends | ⟨refusal, hbefore, hanswer⟩
      · exact ⟨_, .granted (Server.grants_append.mpr ⟨hbound, hsends⟩) rfl⟩
      · exact ⟨_, .rowRefused refusal (Server.grants_append.mpr ⟨hbound, hbefore⟩)
          (by simpa using hanswer) rfl⟩
    · exact ⟨_, .bindRefused refusal (Server.grants_cons.mpr ⟨hinit, hbefore⟩)
        (by simpa using hanswer)⟩
  · exact ⟨_, .initRefused rfl hinit⟩

theorem verdict_iff {report : Report} : Verdict server connection log batch report ↔
    report = (Course.whole server connection log batch).report := by
  constructor
  · exact Verdict.eq_report
  · rintro rfl
    obtain ⟨report, hverdict⟩ := exists_verdict server connection log batch
    rw [← hverdict.eq_report]
    exact hverdict

theorem Verdict.isClean_iff {report : Report} (h : Verdict server connection log batch report) :
    report.isClean = true ↔
      server.Grants connection log (batch.initRequest :: batch.bindRequests ++ batch.sendRequests) ∧
        0 ≤ (server.answer (log ++ Log.granted connection
          (batch.initRequest :: batch.bindRequests ++ batch.sendRequests)) connection
            .done).toInt := by
  constructor
  · intro hclean
    cases h with
    | initRefused | bindRefused | rowRefused => cases hclean
    | granted granted done =>
      rw [done]
      exact ⟨granted, finalFaults_eq_nil.mp (List.isEmpty_iff.mp hclean)⟩
  · rintro ⟨granted, hfinal⟩
    rw [h.eq_report, ← (Verdict.granted granted rfl).eq_report]
    exact List.isEmpty_iff.mpr (finalFaults_eq_nil.mpr hfinal)

/-- Finishing answers the number of rows that were sent, as long as this is at most the limit. -/
def Server.CountsRows (server : Server) (connection limit : Nat) : Prop :=
  ∀ log : Log, log.sent connection ≤ limit →
    (server.answer log connection .done).toInt = log.sent connection

theorem Script.countsRows_accepting {limit : Nat} (connection : Nat) (h : limit < 2 ^ 31) :
    accepting.server.CountsRows connection limit := by
  intro log hsent
  exact Int32.toInt_ofNat_of_lt (hsent.trans_lt h)

namespace Course

theorem acceptedRows_whole (hcounts : server.CountsRows connection batch.rows) :
    (whole server connection log batch).report.acceptedRows =
      (whole server connection log batch).rowsSent := by
  unfold whole
  split
  · split
    · rfl
    · let stop := server.attempt connection (log ++ (bound : Course batch).calls connection)
        batch.sendRequests
      have hsent : (log ++ (sent stop).calls connection).sent connection = (sent stop).rowsSent :=
        sent_calls log stop
      have hfinal := hcounts (log ++ (sent stop).calls connection)
        (hsent.trans_le (sent stop).rowsSent_le)
      rw [report_finished, hfinal, hsent]
      rfl
  · rfl

/-- The row of a fault is the one after all that were sent. -/
theorem rowsSent_of_mem_faults {course : Course batch} {row : Nat} {status : Int32}
    (h : .rowRefused row status ∈ course.faults) : course.rowsSent = row := by
  have hrow (stop : Option (Refusal batch.sendRequests))
      (h : .rowRefused row status ∈ rowFaults 0 stop) :
      (grantedOf batch.sendRequests stop).length = row := by
    cases stop with
    | none => cases h
    | some refusal => simp_all [rowFaults, grantedOf]
  cases course with
  | sent stop => exact hrow stop h
  | finished stop answer =>
    rcases List.mem_append.mp h with h | h
    · exact hrow stop h
    · unfold finalFaults at h
      split at h <;> simp at h
  | created | initialized | bound => cases h
  | initRefused | bindRefused => simp [faults] at h

end Course

theorem loadBatch_of_create {session : Session} (built : ∀ column ∈ batch.columns, column.Built)
    (created : Session.create connection batch = .ok session) (server : Server) (log : Log) :
    session.complete server log = loadBatch server connection batch log ∧
      loadBatch server connection batch log =
        (some (Course.whole server connection log batch).report,
          log ++ (Course.whole server connection log batch).lifeCalls server connection log) := by
  have hload : loadBatch server connection batch log = session.complete server log := by
    simp only [loadBatch, created]
  have huniform := Session.uniform_of_create built created
  refine ⟨hload.symm, ?_⟩
  rw [hload, Course.session_created created]
  exact Course.complete_created huniform batch.slotted_fresh

/-- What a whole load reports, for every batch and every server. -/
theorem report_loadBatch (built : ∀ column ∈ batch.columns, column.Built) (server : Server)
    (connection : Nat) (log : Log) :
    (∀ fault, Session.create connection batch = .error fault →
      loadBatch server connection batch log = (some ⟨0, [fault]⟩, log)) ∧
    (∀ session, Session.create connection batch = .ok session →
      session.complete server log = loadBatch server connection batch log ∧
      (∀ report, (loadBatch server connection batch log).1 = some report ↔
        Verdict server connection log batch report) ∧
      (server.CountsRows connection batch.rows →
        ∃ report calls, loadBatch server connection batch log = (some report, log ++ calls) ∧
          report.acceptedRows =
            ((calls.filter Call.isSend).filter (·.status = succeeded)).length ∧
          (∀ row status, .rowRefused row status ∈ report.faults → report.acceptedRows = row) ∧
          (report.isClean = true → report.acceptedRows = batch.rows))) ∧
    (∃ report, (loadBatch server connection batch log).1 = some report ∧
      (report.isClean = true ↔
        (∃ session, Session.create connection batch = .ok session) ∧
        server.Grants connection log
          (batch.initRequest :: batch.bindRequests ++ batch.sendRequests) ∧
        0 ≤ (server.answer (log ++ Log.granted connection
          (batch.initRequest :: batch.bindRequests ++ batch.sendRequests)) connection
            .done).toInt)) ∧
    ∀ session : Session, session.phase ≠ .created →
      session.complete server log =
        (some ⟨0, [.outOfOrder "init" session.phase]⟩,
          (Run.close server ⟨session, log, []⟩).log) := by
  have hrejected (fault : Fault) (h : Session.create connection batch = .error fault) :
      loadBatch server connection batch log = (some ⟨0, [fault]⟩, log) := by
    simp only [loadBatch, h]
    rfl
  refine ⟨hrejected, fun session created => ?_, ?_, fun session h =>
    Session.complete_of_ne_created h server log⟩
  · obtain ⟨hcomplete, hload⟩ := loadBatch_of_create built created server log
    refine ⟨hcomplete, fun report => ?_, fun hcounts => ?_⟩
    · rw [hload, verdict_iff, Option.some_inj, eq_comm]
    · refine ⟨_, _, hload, ?_, fun row status h => ?_, fun hclean => ?_⟩
      · rw [Course.acceptedRows_whole hcounts, Course.filter_isSend_lifeCalls,
          Course.length_succeeded_sends]
      · rw [Course.acceptedRows_whole hcounts]
        exact Course.rowsSent_of_mem_faults h
      · obtain ⟨hgranted, -⟩ := (verdict_iff.mpr rfl).isClean_iff.mp hclean
        rw [Course.acceptedRows_whole hcounts, Course.whole_of_granted hgranted rfl]
        simp [Course.rowsSent, grantedOf]
  · cases created : Session.create connection batch with
    | error fault =>
      refine ⟨⟨0, [fault]⟩, by rw [hrejected fault created], ?_⟩
      simp [Report.isClean]
    | ok session =>
      obtain ⟨-, hload⟩ := loadBatch_of_create built created server log
      refine ⟨_, by rw [hload], ?_⟩
      rw [(verdict_iff.mpr rfl).isClean_iff]
      simp

theorem report_loadBatch_sample :
    (∀ column ∈ Batch.sample.columns, column.Built) ∧
      Session.create 1 Batch.sample = .ok Session.sample ∧
      Script.accepting.server.CountsRows 1 Batch.sample.rows ∧
      ∃ report calls, loadBatch Script.accepting.server 1 Batch.sample [] =
          (some report, [] ++ calls) ∧
        report.acceptedRows =
          ((calls.filter Call.isSend).filter (·.status = succeeded)).length ∧
        (∀ row status, .rowRefused row status ∈ report.faults → report.acceptedRows = row) ∧
        (report.isClean = true → report.acceptedRows = 2) :=
  ⟨Batch.built_sample, Session.create_sample, Script.countsRows_accepting 1 (by decide),
    ((report_loadBatch Batch.built_sample Script.accepting.server 1 []).2.1 Session.sample
      Session.create_sample).2.2 (Script.countsRows_accepting 1 (by decide))⟩

end BulkLoad
