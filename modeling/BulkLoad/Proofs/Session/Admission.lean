import BulkLoad.Proofs.Column.Position
import BulkLoad.Server.Scripted
import BulkLoad.Session.Pool

/-! # The admission of batches

A session is created for a batch with columns that have one number of rows and with a name that has
no zero character. Any other batch is refused for the first of three reasons: it has no columns, a
column has another number of rows than the first one, or the name has a zero character. The rows
that are compared are those of a cursor with those of a storage, which agree for every column that
can be built.
-/
namespace BulkLoad

namespace Batch

/-- The number of rows in the first column. -/
def rows (batch : Batch) : Nat := (batch.columns.head?.map Column.rows).getD 0

/-- Why a batch is refused whose columns are found to have these numbers of rows. -/
inductive Refused (batch : Batch) (size : Column → Nat) : Fault → Prop
  | noColumns (hcolumns : batch.columns = []) : Refused batch size (.noColumns batch.table)
  | rowCount {position : Nat} {column : Column}
    (hfirst : FirstAt (fun other => size other ≠ batch.rows) batch.columns position column) :
    Refused batch size (.rowCountMismatch position column.name batch.rows (size column))
  | tableName (hcolumns : batch.columns ≠ [])
    (hrows : ∀ column ∈ batch.columns, size column = batch.rows)
    (hname : Char.ofNat 0 ∈ batch.table.toList) : Refused batch size (.invalidTableName batch.table)

structure Acceptable (batch : Batch) (size : Column → Nat) : Prop where
  columns_ne_nil : batch.columns ≠ []
  rows_eq : ∀ column ∈ batch.columns, size column = batch.rows
  plain : Char.ofNat 0 ∉ batch.table.toList

variable {batch : Batch} {size size' : Column → Nat} {fault : Fault}

theorem rows_of_columns {first : Column} {rest : List Column}
    (hcolumns : batch.columns = first :: rest) : batch.rows = first.rows := by
  simp [rows, hcolumns]

theorem refused_or_acceptable (batch : Batch) (size : Column → Nat) :
    (∃ fault, batch.Refused size fault) ∨ batch.Acceptable size := by
  by_cases hcolumns : batch.columns = []
  · exact .inl ⟨_, .noColumns hcolumns⟩
  · by_cases hrows : ∀ column ∈ batch.columns, size column = batch.rows
    · by_cases hname : Char.ofNat 0 ∈ batch.table.toList
      · exact .inl ⟨_, .tableName hcolumns hrows hname⟩
      · exact .inr ⟨hcolumns, hrows, hname⟩
    · push Not at hrows
      obtain ⟨position, column, hfirst⟩ := exists_firstAt hrows
      exact .inl ⟨_, .rowCount hfirst⟩

theorem rows_eq_of_same (hsame : ∀ a ∈ batch.columns, ∀ b ∈ batch.columns, a.rows = b.rows) :
    ∀ column ∈ batch.columns, column.rows = batch.rows := by
  intro column hcolumn
  obtain ⟨first, rest, hcolumns⟩ := List.exists_cons_of_ne_nil (List.ne_nil_of_mem hcolumn)
  rw [rows_of_columns hcolumns]
  exact hsame column hcolumn first (hcolumns ▸ List.mem_cons_self)

theorem Refused.congr (hsize : ∀ column ∈ batch.columns, size column = size' column)
    (h : batch.Refused size fault) : batch.Refused size' fault := by
  cases h with
  | noColumns hcolumns => exact .noColumns hcolumns
  | rowCount hfirst =>
    have hfirst' := (firstAt_congr fun column hcolumn => by rw [hsize column hcolumn]).mp hfirst
    rw [hsize _ hfirst.mem]
    exact .rowCount hfirst'
  | tableName hcolumns hrows hname =>
    exact .tableName hcolumns (fun column hcolumn => hsize column hcolumn ▸ hrows column hcolumn)
      hname

theorem Acceptable.congr (hsize : ∀ column ∈ batch.columns, size column = size' column)
    (h : batch.Acceptable size) : batch.Acceptable size' :=
  ⟨h.columns_ne_nil, fun column hcolumn => hsize column hcolumn ▸ h.rows_eq column hcolumn, h.plain⟩

/-- Every column can be read, and they all have the same number of rows. -/
structure Uniform (batch : Batch) : Prop where
  wellFormed : ∀ column ∈ batch.columns, column.WellFormed
  rows_eq : ∀ column ∈ batch.columns, column.rows = batch.rows

theorem Uniform.wellFormed_at (h : batch.Uniform) {number : Nat}
    (hnumber : number < batch.rows) :
    ∀ column ∈ batch.columns, column.WellFormed ∧ number < column.rows := by
  intro column hcolumn
  rw [h.rows_eq column hcolumn]
  exact ⟨h.wellFormed column hcolumn, hnumber⟩

end Batch

namespace Session

variable {batch : Batch} {fault : Fault}

theorem searches_firstMismatch (expected : Nat) :
    Searches (fun column => column.cursor.size ≠ expected)
      (fun position column =>
        .rowCountMismatch position column.name expected column.cursor.size)
      (firstMismatch expected) where
  nil _ := rfl
  cons_of_pos _ _ _ h := if_neg h
  cons_of_neg _ _ _ h := if_pos (not_not.mp h)

theorem firstMismatch_eq_none (hrows : ∀ column ∈ batch.columns, column.cursor.size = batch.rows)
    {first : Column} {rest : List Column} (hcolumns : batch.columns = first :: rest) :
    firstMismatch first.rows 0 (first :: rest) = none := by
  rw [← Batch.rows_of_columns hcolumns, ← hcolumns]
  exact (searches_firstMismatch batch.rows).eq_none_iff.mpr fun column hcolumn =>
    not_not.mpr (hrows column hcolumn)

theorem create_of_refused (h : batch.Refused (·.cursor.size) fault) (connection : Nat) :
    create connection batch = .error fault := by
  cases hcolumns : batch.columns with
  | nil =>
    cases h with
    | noColumns => simp only [create, hcolumns]
    | rowCount hfirst => exact absurd (hcolumns ▸ hfirst) not_firstAt_nil
    | tableName hne => exact absurd hcolumns hne
  | cons first rest =>
    cases h with
    | noColumns hnil => cases hcolumns.symm.trans hnil
    | rowCount hfirst =>
      have hrows := Batch.rows_of_columns hcolumns
      rw [hrows, hcolumns] at hfirst
      have hfound := (searches_firstMismatch first.rows).eq_some_iff.mpr
        ⟨_, _, hfirst, by rw [Nat.zero_add]⟩
      simp only [create, hcolumns, hfound, hrows]
    | tableName _ hrows hname =>
      simp only [create, hcolumns, firstMismatch_eq_none hrows hcolumns, if_pos hname]

theorem exists_create_of_acceptable (h : batch.Acceptable (·.cursor.size)) (connection : Nat) :
    ∃ session, create connection batch = .ok session := by
  obtain ⟨first, rest, hcolumns⟩ := List.exists_cons_of_ne_nil h.columns_ne_nil
  simp only [create, hcolumns, firstMismatch_eq_none h.rows_eq hcolumns, if_neg h.plain]
  exact ⟨_, rfl⟩

theorem create_eq_error_iff {connection : Nat} :
    create connection batch = .error fault ↔ batch.Refused (·.cursor.size) fault := by
  refine ⟨fun h => ?_, fun h => create_of_refused h connection⟩
  rcases batch.refused_or_acceptable (·.cursor.size) with ⟨other, hother⟩ | haccepted
  · obtain rfl := Except.error.inj ((create_of_refused hother connection).symm.trans h)
    exact hother
  · obtain ⟨session, hsession⟩ := exists_create_of_acceptable haccepted connection
    cases hsession.symm.trans h

theorem exists_create_iff {connection : Nat} :
    (∃ session, create connection batch = .ok session) ↔ batch.Acceptable (·.cursor.size) := by
  refine ⟨fun ⟨session, h⟩ => ?_, fun h => exists_create_of_acceptable h connection⟩
  rcases batch.refused_or_acceptable (·.cursor.size) with ⟨fault, hfault⟩ | haccepted
  · cases (create_of_refused hfault connection).symm.trans h
  · exact haccepted

theorem eq_of_create {connection : Nat} {session : Session}
    (h : create connection batch = .ok session) :
    session = {
      connection, batch
      table := tableUnits batch.table
      cursors := batch.columns.map Column.cursor
      slots := batch.columns.map Slot.ofColumn
      phase := .created
      rows := batch.rows
      isOpen := false } := by
  unfold create at h
  split at h
  · cases h
  · next first rest hcolumns =>
    split at h
    · cases h
    · split at h
      · cases h
      · cases h
        simp [Batch.rows, hcolumns]

section Built

variable (built : ∀ column ∈ batch.columns, column.Built)
include built

theorem size_eq_rows : ∀ column ∈ batch.columns, column.cursor.size = column.rows :=
  fun column hcolumn => (built column hcolumn).wellFormed.size_cursor

theorem create_eq_error_iff_of_built {connection : Nat} :
    create connection batch = .error fault ↔ batch.Refused Column.rows fault := by
  rw [create_eq_error_iff]
  exact ⟨.congr (size_eq_rows built), .congr fun column hcolumn =>
    (size_eq_rows built column hcolumn).symm⟩

theorem exists_create_iff_of_built {connection : Nat} :
    (∃ session, create connection batch = .ok session) ↔
      batch.columns ≠ [] ∧ (∀ a ∈ batch.columns, ∀ b ∈ batch.columns, a.rows = b.rows) ∧
        Char.ofNat 0 ∉ batch.table.toList := by
  rw [exists_create_iff]
  constructor
  · intro h
    have hrows := (h.congr (size_eq_rows built)).rows_eq
    exact ⟨h.columns_ne_nil, fun a ha b hb => (hrows a ha).trans (hrows b hb).symm, h.plain⟩
  · rintro ⟨hcolumns, hsame, hplain⟩
    refine ⟨hcolumns, fun column hcolumn => ?_, hplain⟩
    rw [size_eq_rows built column hcolumn]
    exact Batch.rows_eq_of_same hsame column hcolumn

theorem uniform_of_create {connection : Nat} {session : Session}
    (h : create connection batch = .ok session) : batch.Uniform := by
  have haccepted := (exists_create_iff.mp ⟨session, h⟩).congr (size_eq_rows built)
  exact ⟨fun column hcolumn => (built column hcolumn).wellFormed, haccepted.rows_eq⟩

end Built

end Session

theorem Pool.create_of_error {batch : Batch} {fault : Fault} {place : Nat}
    (h : Session.create (connectionOf place) batch = .error fault) (server : Server)
    (pool : Pool) : pool.create server place batch = (.fault fault, pool) := by
  simp only [create, h]

theorem Pool.log_create_of_free {pool : Pool} {place : Nat}
    (hfree : pool.sessions.get? place = none) (server : Server) (batch : Batch) :
    (pool.create server place batch).2.log = pool.log := by
  unfold create
  cases Session.create (connectionOf place) batch with
  | error fault => rfl
  | ok session => simp only [close, hfree]

theorem loadBatch_of_error {connection : Nat} {batch : Batch} {fault : Fault}
    (h : Session.create connection batch = .error fault) (server : Server) (log : Log) :
    loadBatch server connection batch log = (some (.ofFault fault), log) := by
  simp only [loadBatch, h]

/-- Which batches are accepted, why any other is refused, and that neither takes a call. -/
theorem admission_decided {batch : Batch} (built : ∀ column ∈ batch.columns, column.Built)
    (connection : Nat) :
    ((∃ session, Session.create connection batch = .ok session) ↔
      batch.columns ≠ [] ∧ (∀ a ∈ batch.columns, ∀ b ∈ batch.columns, a.rows = b.rows) ∧
        Char.ofNat 0 ∉ batch.table.toList) ∧
    (∀ fault, Session.create connection batch = .error fault ↔
      batch.Refused Column.rows fault) ∧
    (∀ session, Session.create connection batch = .ok session →
      session.phase = .created ∧ ∀ column ∈ batch.columns, session.rows = column.rows) ∧
    ∀ server : Server,
      (∀ log fault, batch.Refused Column.rows fault →
        loadBatch server connection batch log = (some (.ofFault fault), log)) ∧
      ∀ (pool : Pool) (place : Nat),
        (∀ fault, batch.Refused Column.rows fault →
          pool.create server place batch = (.fault fault, pool)) ∧
        (pool.sessions.get? place = none →
          (pool.create server place batch).2.log = pool.log) := by
  refine ⟨Session.exists_create_iff_of_built built,
    fun fault => Session.create_eq_error_iff_of_built built, fun session hsession => ?_,
    fun server => ⟨fun log fault hfault => ?_, fun pool place => ⟨fun fault hfault => ?_, ?_⟩⟩⟩
  · obtain rfl := Session.eq_of_create hsession
    have huniform := Session.uniform_of_create built hsession
    exact ⟨rfl, fun column hcolumn => (huniform.rows_eq column hcolumn).symm⟩
  · exact loadBatch_of_error ((Session.create_eq_error_iff_of_built built).mpr hfault) server log
  · exact Pool.create_of_error ((Session.create_eq_error_iff_of_built built).mpr hfault) server pool
  · exact fun hfree => Pool.log_create_of_free hfree server batch

theorem Batch.built_number_and_content {values : List Bytes} {content : Column}
    (h : Column.ofValues "content" .varBinary values = .ok content) :
    ∀ column ∈ [⟨"number", .tinyInt, .fixed 1 [0, 7], some [true, false]⟩, content],
      column.Built := by
  have hnumber : Column.ofBytes "number" .tinyInt [0, 7] =
      .ok ⟨"number", .tinyInt, .fixed 1 [0, 7], none⟩ := rfl
  have hmarked : Column.markNulls ⟨"number", .tinyInt, .fixed 1 [0, 7], none⟩ [true, false] =
      .ok ⟨"number", .tinyInt, .fixed 1 [0, 7], some [true, false]⟩ := rfl
  intro column hcolumn
  rcases List.mem_cons.mp hcolumn with rfl | hcolumn
  · exact .markNulls (.ofBytes hnumber) hmarked
  · obtain rfl := List.mem_singleton.mp hcolumn
    exact .ofValues h

def Batch.uneven : Batch where
  table := "t\x00"
  columns := [⟨"number", .tinyInt, .fixed 1 [0, 7], some [true, false]⟩,
    ⟨"content", .varBinary, Storage.pack [[1, 2]], none⟩]

theorem Batch.built_uneven : ∀ column ∈ Batch.uneven.columns, column.Built := by
  have hcontent : Column.ofValues "content" .varBinary [[1, 2]] =
      .ok ⟨"content", .varBinary, Storage.pack [[1, 2]], none⟩ := rfl
  exact built_number_and_content hcontent

theorem admission_decided_uneven :
    (∀ column ∈ Batch.uneven.columns, column.Built) ∧
      Session.create 1 Batch.uneven = .error (.rowCountMismatch 1 "content" 2 1) ∧
      loadBatch Script.accepting.server 1 Batch.uneven [] =
        (some ⟨0, [.rowCountMismatch 1 "content" 2 1]⟩, []) := by
  obtain ⟨-, herror, -, hcalls⟩ := admission_decided Batch.built_uneven 1
  have hfirst : FirstAt (fun column => column.rows ≠ 2) Batch.uneven.columns 1
      ⟨"content", .varBinary, Storage.pack [[1, 2]], none⟩ :=
    ⟨[⟨"number", .tinyInt, .fixed 1 [0, 7], some [true, false]⟩], [], rfl, rfl,
      by decide, by decide⟩
  have hrefused : Batch.uneven.Refused Column.rows (.rowCountMismatch 1 "content" 2 1) :=
    .rowCount hfirst
  exact ⟨Batch.built_uneven, (herror _).mpr hrefused,
    (hcalls Script.accepting.server).1 [] _ hrefused⟩

end BulkLoad
