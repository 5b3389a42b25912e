import BulkLoad.Proofs.Session.Admission

/-! # The table that the server is told

The server reads the name of the table up to the first zero unit. Only the zero character has such
a unit, so for a name that is accepted this is the zero behind it, and the server reads the name as
a whole. Of any other name it would read no more than stands before the first zero character.
-/
namespace BulkLoad

open Text

theorem unitsRead_encode (text : List Char) :
    unitsRead (Utf16.encode text ++ [0]) =
      Utf16.encode (text.takeWhile (· ≠ Char.ofNat 0)) := by
  induction text with
  | nil => rfl
  | cons c rest ih =>
    by_cases hc : c = Char.ofNat 0
    · subst hc
      rfl
    · -- A surrogate is never zero, so no unit of another character ends the reading.
      have hunits : ∀ unit ∈ Utf16.units c, (unit != 0) = true := by
        intro unit hunit
        refine bne_iff_ne.mpr ?_
        rintro rfl
        exact hc (Utf16.zero_mem_units_iff.mp hunit)
      have hcons (text : List Char) :
          Utf16.encode (c :: text) = Utf16.units c ++ Utf16.encode text := rfl
      have hkept : (c :: rest).takeWhile (· ≠ Char.ofNat 0) =
          c :: rest.takeWhile (· ≠ Char.ofNat 0) :=
        List.takeWhile_cons_of_pos (decide_eq_true hc)
      rw [unitsRead] at ih ⊢
      rw [hkept, hcons, hcons, List.append_assoc, List.takeWhile_append_of_pos hunits, ih]

theorem decode_unitsRead_iff {table : String} :
    Utf16.decode (unitsRead (Session.tableUnits table)) = some table.toList ↔
      Char.ofNat 0 ∉ table.toList := by
  rw [Session.tableUnits, unitsRead_encode, Utf16.decode_encode, Option.some_inj,
    List.takeWhile_eq_self_iff]
  simp only [decide_eq_true_eq]
  exact ⟨fun h hmem => h _ hmem rfl, fun h c hc => fun heq => h (heq ▸ hc)⟩

/-- The units are the name's, all of them are read, and they are read as the name. -/
structure Tells (units : List UInt16) (name : String) : Prop where
  read_eq : unitsRead units = Utf16.encode name.toList
  decode_read : Utf16.decode (unitsRead units) = some name.toList
  zero_iff : ∀ position, units[position]? = some 0 ↔ position + 1 = units.length

theorem tells_tableUnits {table : String} (h : Char.ofNat 0 ∉ table.toList) :
    Tells (Session.tableUnits table) table := by
  have hplain : 0 ∉ Utf16.encode table.toList := mt Utf16.zero_mem_encode_iff.mp h
  have hall : table.toList.takeWhile (· ≠ Char.ofNat 0) = table.toList :=
    List.takeWhile_eq_self_iff.mpr fun c hc => decide_eq_true fun heq => h (heq ▸ hc)
  refine ⟨?_, decode_unitsRead_iff.mpr h, fun position => ?_⟩
  · rw [Session.tableUnits, unitsRead_encode, hall]
  · rw [Session.tableUnits, List.length_append, List.length_singleton, Nat.add_right_cancel_iff]
    rcases lt_trichotomy position (Utf16.encode table.toList).length with hlt | rfl | hlt
    · rw [List.getElem?_append_left hlt]
      refine iff_of_false (fun hzero => hplain (List.mem_of_getElem? hzero)) hlt.ne
    · simp
    · refine iff_of_false (fun hzero => ?_) hlt.ne'
      have hbound := (List.getElem?_eq_some_iff.mp hzero).1
      rw [List.length_append, List.length_singleton] at hbound
      omega

theorem Run.log_init {run : Run} (h : run.session.phase = .created) (server : Server) :
    (run.init server).2.log = run.log ++ [⟨run.connection, .init run.session.table directionIn,
      run.answer server (.init run.session.table directionIn)⟩] := by
  simp only [init, if_pos h]
  split <;> rfl

/-- Only the name can be at fault if another name would do. -/
theorem Session.create_eq_invalidTableName_iff {connection : Nat} {batch : Batch} :
    create connection batch = .error (.invalidTableName batch.table) ↔
      (∃ session, create connection ⟨"", batch.columns⟩ = .ok session) ∧
        Char.ofNat 0 ∈ batch.table.toList := by
  rw [create_eq_error_iff, exists_create_iff]
  constructor
  · rintro ⟨⟩
    next hcolumns hrows hname => exact ⟨⟨hcolumns, hrows, List.not_mem_nil⟩, hname⟩
  · rintro ⟨haccepted, hname⟩
    exact .tableName haccepted.columns_ne_nil haccepted.rows_eq hname

/-- The server reads the whole name of every table that is accepted, so it confuses no two of them.
A name is refused exactly if the server would not read all of it. -/
theorem whole_name_told (connection : Nat) (batch : Batch) :
    (∀ session, Session.create connection batch = .ok session →
      (∀ server log sink, ∃ status, (Run.init server ⟨session, log, sink⟩).2.log =
        log ++ [⟨connection, .init session.table directionIn, status⟩]) ∧
      Tells session.table batch.table ∧
      ∀ other batch' session', Session.create other batch' = .ok session' →
        unitsRead session'.table = unitsRead session.table → batch'.table = batch.table) ∧
    (Session.create connection batch = .error (.invalidTableName batch.table) ↔
      (∃ session, Session.create connection ⟨"", batch.columns⟩ = .ok session) ∧
        Utf16.decode (unitsRead (Session.tableUnits batch.table)) ≠ some batch.table.toList) := by
  have htells {connection : Nat} {batch : Batch} {session : Session}
      (h : Session.create connection batch = .ok session) : Tells session.table batch.table := by
    have hplain := (Session.exists_create_iff.mp ⟨session, h⟩).plain
    rw [Session.eq_of_create h]
    exact tells_tableUnits hplain
  refine ⟨fun session hsession => ⟨fun server log sink => ?_, htells hsession, ?_⟩, ?_⟩
  · have hcreated := Session.eq_of_create hsession
    have hphase : session.phase = .created := by rw [hcreated]
    have hconnection : session.connection = connection := by rw [hcreated]
    have hlog : (Run.init server ⟨session, log, sink⟩).2.log = _ := Run.log_init hphase server
    simp only [Run.connection, hconnection] at hlog
    exact ⟨_, hlog⟩
  · intro other batch' session' hsession' hread
    have hdecoded := (htells hsession').decode_read
    rw [hread, (htells hsession).decode_read] at hdecoded
    exact String.toList_inj.mp (Option.some.inj hdecoded).symm
  · rw [Session.create_eq_invalidTableName_iff, ne_eq, decode_unitsRead_iff, not_not]

end BulkLoad
