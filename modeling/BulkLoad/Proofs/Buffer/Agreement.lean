import BulkLoad.Proofs.Buffer.Ledger

/-! # Agreement of custody and ledger

Custody has its buffers in places and throws away what it frees. It agrees with the ledger, which
throws nothing away, if every buffer is found at the spot that the ledger says, with the same bytes
and hook, and the hooks that have run are those of the buffers that are freed. The agreement is
kept when one buffer is changed, and when one arrives at a free spot.
-/
namespace BulkLoad

variable {Hook : Type}

namespace Buffer

def record (buffer : Buffer Hook) (fate : Fate) : Record Hook := ⟨buffer.bytes, buffer.hook, fate⟩

theorem ofRange_eq (serial : Nat) (storage : Bytes) (offset length : Nat) :
    (ofRange serial storage offset length : Except Fault (Buffer Hook)) =
      if offset + length ≤ storage.length then
        .ok ⟨serial, (storage.drop offset).take length, none⟩
      else .error (.outsideStorage offset length storage.length) := by
  simp only [ofRange, copyOut, Bytes.slice?, Nat.le_add_right, true_and, Nat.add_sub_cancel_left]
  by_cases h : offset + length ≤ storage.length
  · rw [if_pos h, if_pos h]
    rfl
  · rw [if_neg h, if_neg h]
    rfl

theorem runs_record_freed (buffer : Buffer Hook) :
    (buffer.record .freed).runs buffer.serial = buffer.free := by
  simp only [Record.runs, record, free, if_true]

theorem runs_record (buffer : Buffer Hook) {fate : Fate} (h : fate ≠ .freed) (serial : Nat) :
    (buffer.record fate).runs serial = [] := if_neg h

end Buffer

theorem Record.filter_runs (record : Record Hook) (serial other : Nat) :
    (record.runs serial).filter (·.serial = other) =
      if serial = other then record.runs serial else [] := by
  unfold Record.runs
  split
  · cases record.hook with
    | none => simp
    | some hook => by_cases h : serial = other <;> simp [h]
  · simp

namespace Custody

def find? (custody : Custody Hook) : Spot → Option (Buffer Hook)
  | .held place => custody.buffers.get? place
  | .raw place => (custody.raws.get? place).map RawForm.owner

/-- Custody and ledger agree. -/
structure Accounted (custody : Custody Hook) (ledger : Ledger Hook) : Prop where
  allocated : custody.allocated = ledger.length
  alive : ∀ spot buffer, custody.find? spot = some buffer ↔
    ledger[buffer.serial]? = some (buffer.record (.alive spot))
  runs : ∀ serial, custody.released.filter (·.serial = serial) =
    (ledger[serial]?).elim [] fun record => record.runs serial

/-- Custody after one buffer was changed so that it has this record: it stays, goes to another spot
that is free, or is not alive any more, and then its hook may have run. -/
structure Changes (custody : Custody Hook) (spot : Spot) (buffer : Buffer Hook)
    (record : Record Hook) (after : Custody Hook) : Prop where
  allocated : after.allocated = custody.allocated
  released : after.released = custody.released ++ record.runs buffer.serial
  free : ∀ target, record.fate = .alive target → target = spot ∨ custody.find? target = none
  find : ∀ target, after.find? target =
    if record.fate = .alive target then some ⟨buffer.serial, record.bytes, record.hook⟩
    else if target = spot then none else custody.find? target

namespace Accounted

variable {custody after : Custody Hook} {ledger : Ledger Hook} {spot : Spot} {buffer : Buffer Hook}

theorem ofStorages (storages : List Bytes) :
    Accounted (.ofStorages storages : Custody Hook) [] where
  allocated := rfl
  alive := by
    intro spot buffer
    cases spot <;> simp [find?, Custody.ofStorages, Places.get?]
  runs := by simp [Custody.ofStorages]

theorem not_alive (h : Accounted custody ledger) (hempty : custody.find? spot = none) :
    ∀ record ∈ ledger, record.fate ≠ .alive spot := by
  rintro ⟨bytes, hook, fate⟩ hrecord rfl
  obtain ⟨serial, hserial⟩ := List.mem_iff_getElem?.mp hrecord
  have hfound := (h.alive spot ⟨serial, bytes, hook⟩).mpr hserial
  rw [hempty] at hfound
  cases hfound

theorem change_of_none (h : Accounted custody ledger) (hempty : custody.find? spot = none)
    (f : Record Hook → Record Hook) : ledger.change spot f = ledger := by
  unfold Ledger.change
  refine (List.map_congr_left ?_).trans (List.map_id ledger)
  intro record hrecord
  exact if_neg (h.not_alive hempty record hrecord)

theorem change_of_some (h : Accounted custody ledger) (hfound : custody.find? spot = some buffer)
    (f : Record Hook → Record Hook) (serial : Nat) :
    (ledger.change spot f)[serial]? =
      if serial = buffer.serial then some (f (buffer.record (.alive spot)))
      else ledger[serial]? := by
  have hbuffer := (h.alive spot buffer).mp hfound
  rw [Ledger.change, List.getElem?_map]
  split
  · next hserial =>
    rw [hserial, hbuffer]
    exact congrArg some (if_pos rfl)
  · next hserial =>
    cases hrecord : ledger[serial]? with
    | none => rfl
    | some record =>
      refine congrArg some (if_neg ?_)
      intro hfate
      obtain ⟨bytes, hook, fate⟩ := record
      obtain rfl : fate = .alive spot := hfate
      have hother := (h.alive spot ⟨serial, bytes, hook⟩).mpr hrecord
      rw [hfound] at hother
      cases hother
      exact hserial rfl

theorem spot_unique (h : Accounted custody ledger) (hfound : custody.find? spot = some buffer)
    {target : Spot} {other : Buffer Hook} (hother : custody.find? target = some other)
    (hserial : other.serial = buffer.serial) : target = spot := by
  have hbuffer := (h.alive spot buffer).mp hfound
  have hrecord := (h.alive target other).mp hother
  rw [hserial, hbuffer] at hrecord
  have hfate := congrArg Record.fate (Option.some.inj hrecord)
  exact (Fate.alive.inj hfate).symm

theorem find?_changed (h : Accounted custody ledger) (hfound : custody.find? spot = some buffer)
    {record : Record Hook} (hchange : custody.Changes spot buffer record after) {target : Spot}
    {other : Buffer Hook} (hserial : other.serial = buffer.serial) :
    after.find? target = some other ↔ record = other.record (.alive target) := by
  rw [hchange.find]
  constructor
  · intro hother
    split at hother
    · next hfate =>
      cases hother
      obtain ⟨bytes, hook, fate⟩ := record
      obtain rfl : fate = .alive target := hfate
      rfl
    · split at hother
      · cases hother
      · next hne => exact absurd (h.spot_unique hfound hother hserial) hne
  · rintro rfl
    rw [if_pos (show (other.record (.alive target)).fate = .alive target from rfl), ← hserial]
    rfl

theorem find?_unchanged (hfound : custody.find? spot = some buffer) {record : Record Hook}
    (hchange : custody.Changes spot buffer record after) {target : Spot} {other : Buffer Hook}
    (hserial : other.serial ≠ buffer.serial) :
    after.find? target = some other ↔ custody.find? target = some other := by
  rw [hchange.find]
  constructor
  · intro hother
    split at hother
    · cases hother
      exact absurd rfl hserial
    · split at hother
      · cases hother
      · exact hother
  · intro hother
    have hspot : target ≠ spot := by
      rintro rfl
      rw [hfound] at hother
      cases hother
      exact hserial rfl
    have htarget : record.fate ≠ .alive target := by
      intro hfate
      rcases hchange.free target hfate with hsame | hempty
      · exact hspot hsame
      · rw [hempty] at hother
        cases hother
    rw [if_neg htarget, if_neg hspot, hother]

theorem change (h : Accounted custody ledger) (hfound : custody.find? spot = some buffer)
    {f : Record Hook → Record Hook}
    (hchange : custody.Changes spot buffer (f (buffer.record (.alive spot))) after) :
    Accounted after (ledger.change spot f) := by
  have hget := h.change_of_some hfound f
  constructor
  · rw [hchange.allocated, h.allocated, Ledger.change, List.length_map]
  · intro target other
    rw [hget]
    by_cases hserial : other.serial = buffer.serial
    · rw [if_pos hserial, h.find?_changed hfound hchange hserial, Option.some_inj]
    · rw [if_neg hserial, find?_unchanged hfound hchange hserial, h.alive]
  · intro serial
    rw [hchange.released, List.filter_append, h.runs, Record.filter_runs, hget]
    by_cases hserial : serial = buffer.serial
    · have hbuffer := (h.alive spot buffer).mp hfound
      rw [hserial, hbuffer, if_pos rfl, if_pos rfl]
      exact congrArg (· ++ _) (buffer.runs_record Fate.noConfusion _)
    · rw [if_neg hserial, if_neg (Ne.symm hserial), List.append_nil]

theorem getElem?_concat_eq_ite (ledger : Ledger Hook) (record : Record Hook) (serial : Nat) :
    (ledger ++ [record])[serial]? =
      if serial = ledger.length then some record else ledger[serial]? := by
  rcases lt_trichotomy serial ledger.length with hlt | heq | hgt
  · rw [List.getElem?_append_left hlt, if_neg hlt.ne]
  · rw [heq, List.getElem?_concat_length, if_pos rfl]
  · rw [if_neg hgt.ne', List.getElem?_eq_none hgt.le, List.getElem?_eq_none]
    rw [List.length_append, List.length_singleton]
    exact hgt

theorem arrive (h : Accounted custody ledger) (hempty : custody.find? spot = none) {bytes : Bytes}
    (hallocated : after.allocated = custody.allocated + 1)
    (hreleased : after.released = custody.released)
    (hfind : ∀ target, after.find? target =
      if target = spot then some ⟨custody.allocated, bytes, none⟩ else custody.find? target) :
    Accounted after (ledger ++ [⟨bytes, none, .alive spot⟩]) := by
  have hnew : ledger[ledger.length]? = none := List.getElem?_eq_none le_rfl
  refine ⟨?_, ?_, ?_⟩
  · rw [hallocated, h.allocated, List.length_append, List.length_singleton]
  · intro target other
    rw [hfind, getElem?_concat_eq_ite, h.allocated]
    by_cases hserial : other.serial = ledger.length
    · rw [if_pos hserial]
      constructor
      · intro hother
        split at hother
        · next htarget =>
          cases hother
          rw [htarget]
          rfl
        · have hrecord := (h.alive target other).mp hother
          rw [hserial, hnew] at hrecord
          cases hrecord
      · intro hsame
        obtain ⟨serial, bytes', hook⟩ := other
        cases hsame
        rw [if_pos rfl, ← hserial]
    · rw [if_neg hserial, ← h.alive]
      split
      · next htarget =>
        rw [htarget, hempty]
        constructor
        · intro hother
          cases hother
          exact absurd rfl hserial
        · intro hother
          cases hother
      · rfl
  · intro serial
    rw [hreleased, h.runs, getElem?_concat_eq_ite]
    split
    · next hserial =>
      rw [hserial, hnew]
      rfl
    · rfl

theorem congr (h : Accounted custody ledger) (hallocated : after.allocated = custody.allocated)
    (hreleased : after.released = custody.released)
    (hfind : ∀ target, after.find? target = custody.find? target) : Accounted after ledger where
  allocated := hallocated.trans h.allocated
  alive := by
    intro target other
    rw [hfind, h.alive]
  runs := by
    intro serial
    rw [hreleased, h.runs]

/-- A spot is made free, and its buffer, if there was one, is not alive any more. -/
theorem settle (h : Accounted custody ledger) (spot : Spot) {fate : Fate}
    (hfate : ∀ target, fate ≠ .alive target) (hallocated : after.allocated = custody.allocated)
    (hreleased : after.released = custody.released ++
      (custody.find? spot).elim [] fun buffer => (buffer.record fate).runs buffer.serial)
    (hfind : ∀ target, after.find? target =
      if target = spot then none else custody.find? target) :
    Accounted after (ledger.settle spot fate) := by
  unfold Ledger.settle
  cases hfound : custody.find? spot with
  | none =>
    rw [h.change_of_none hfound]
    rw [hfound, Option.elim_none, List.append_nil] at hreleased
    refine h.congr hallocated hreleased ?_
    intro target
    rw [hfind]
    split
    · next htarget => rw [htarget, hfound]
    · rfl
  | some buffer =>
    rw [hfound, Option.elim_some] at hreleased
    refine h.change hfound ⟨hallocated, hreleased, ?_, ?_⟩
    · intro target htarget
      exact absurd htarget (hfate target)
    · intro target
      rw [hfind, if_neg (hfate target)]

end Accounted

end Custody

end BulkLoad
