import BulkLoad.Proofs.Buffer.Release

/-! # Bounds of a copy

A range of a storage is copied if and only if it ends inside the storage. Its end is the true sum
of offset and length: a sum of words that wraps around is refused like any other end behind the
storage. Whoever asks for a range gets the same answer, and a host sees the copy once, or nothing
at all if there is none.
-/
namespace BulkLoad

section Words

theorem wordSum?_eq_some_iff {a b c : UInt64} :
    wordSum? a b = some c ↔ a.toNat + b.toNat = c.toNat := by
  have ha := a.toNat_lt
  have hb := b.toNat_lt
  have hc := c.toNat_lt
  have hsum : (a + b).toNat = (a.toNat + b.toNat) % 2 ^ 64 := UInt64.toNat_add a b
  simp only [wordSum?, UInt64.lt_iff_toNat_lt]
  split
  · next hwrapped =>
    simp only [reduceCtorEq, false_iff]
    omega
  · next hkept =>
    rw [Option.some_inj, ← UInt64.toNat_inj]
    omega

theorem wordSum?_eq_none_iff {a b : UInt64} :
    wordSum? a b = none ↔ UInt64.size ≤ a.toNat + b.toNat := by
  have ha := a.toNat_lt
  have hb := b.toNat_lt
  have hsum : (a + b).toNat = (a.toNat + b.toNat) % 2 ^ 64 := UInt64.toNat_add a b
  have hsize : UInt64.size = 2 ^ 64 := rfl
  simp only [wordSum?, UInt64.lt_iff_toNat_lt, ite_eq_left_iff, reduceCtorEq, imp_false, not_not]
  omega

/-- Words are enough for a storage whose size is a word: they copy the same, and nothing traps. -/
theorem copyOutWords_eq {storage : Bytes} (hsize : storage.length < UInt64.size)
    (offset length : UInt64) :
    copyOutWords storage offset length =
      (copyOut storage offset.toNat length.toNat).mapError .fault := by
  have hword : (UInt64.ofNat storage.length).toNat = storage.length :=
    UInt64.toNat_ofNat_of_lt hsize
  unfold copyOutWords copyOut
  cases hsum : wordSum? offset length with
  | none =>
    have hlarge := wordSum?_eq_none_iff.mp hsum
    have houtside : storage.slice? offset.toNat (offset.toNat + length.toNat) = none :=
      Bytes.slice?_eq_none_iff.mpr (.inr (hsize.trans_le hlarge))
    rw [houtside]
    rfl
  | some last =>
    have htotal : offset.toNat + length.toNat = last.toNat := wordSum?_eq_some_iff.mp hsum
    have hle : last ≤ UInt64.ofNat storage.length ↔ last.toNat ≤ storage.length := by
      rw [UInt64.le_iff_toNat_le, hword]
    rw [htotal, Option.filter_some]
    by_cases hlast : last.toNat ≤ storage.length
    · have hinside := Bytes.slice?_of_le (Nat.le.intro htotal) hlast
      simp only [hle.mpr hlast, decide_true, ↓reduceIte, hinside, Option.elim_some]
      rfl
    · have houtside : storage.slice? offset.toNat last.toNat = none :=
        Bytes.slice?_eq_none_iff.mpr (.inr (Nat.not_le.mp hlast))
      simp only [mt hle.mp hlast, decide_false, Bool.false_eq_true, ↓reduceIte, houtside]
      rfl

end Words

variable {Hook : Type}

namespace Buffer

/-- A buffer that was just allocated with a range of the storage; no hook is attached yet. -/
structure IsCopy (buffer : Buffer Hook) (serial : Nat) (storage : Bytes) (offset length : Nat) :
    Prop where
  serial : buffer.serial = serial
  hook : buffer.hook = none
  length : buffer.bytes.length = length
  bytes : ∃ before after, storage = before ++ buffer.bytes ++ after ∧ before.length = offset

/-- A range is granted if it ends inside the storage, and then the answer is its copy. -/
structure Bounded (serial : Nat) (storage : Bytes) (offset length : Nat)
    (answer : Except Fault (Buffer Hook)) : Prop where
  granted : (∃ buffer, answer = .ok buffer) ↔ offset + length ≤ storage.length
  copied : ∀ buffer, answer = .ok buffer ↔ buffer.IsCopy serial storage offset length
  refused : ∀ fault, answer = .error fault ↔
    storage.length < offset + length ∧ fault = .outsideStorage offset length storage.length

variable {serial offset length : Nat} {storage : Bytes}

theorem ofRange_eq_ok_iff {buffer : Buffer Hook} :
    ofRange serial storage offset length = .ok buffer ↔
      buffer.serial = serial ∧ copyOut storage offset length = .ok buffer.bytes ∧
        buffer.hook = none := by
  obtain ⟨own, bytes, hook⟩ := buffer
  unfold ofRange
  cases copyOut storage offset length with
  | error fault => simp [Except.map]
  | ok copied => simp [Except.map, eq_comm]

theorem bounded_ofRange (serial : Nat) (storage : Bytes) (offset length : Nat) :
    Bounded serial storage offset length
      (ofRange serial storage offset length : Except Fault (Buffer Hook)) where
  granted := by
    rw [ofRange_eq]
    split
    · next hinside => simp [hinside]
    · next houtside => simp [houtside]
  copied := by
    intro buffer
    rw [ofRange_eq_ok_iff, copyOut_eq_ok_iff, Bytes.slice?_eq_some_iff]
    constructor
    · rintro ⟨hserial, ⟨before, after, hstorage, hbefore, hlast⟩, hhook⟩
      exact ⟨hserial, hhook, by omega, before, after, hstorage, hbefore⟩
    · rintro ⟨hserial, hhook, hlength, before, after, hstorage, hbefore⟩
      exact ⟨hserial, ⟨before, after, hstorage, hbefore, by omega⟩, hhook⟩
  refused := by
    intro fault
    rw [ofRange_eq]
    split
    · next hinside => simp [Nat.not_lt.mpr hinside]
    · next houtside => simp [Nat.not_le.mp houtside, eq_comm]

namespace Bounded

variable {answer : Except Fault (Buffer Hook)}

theorem exists_copy (h : Bounded serial storage offset length answer)
    (hinside : offset + length ≤ storage.length) :
    ∃ buffer, answer = .ok buffer ∧ buffer.IsCopy serial storage offset length := by
  obtain ⟨buffer, hbuffer⟩ := h.granted.mpr hinside
  exact ⟨buffer, hbuffer, (h.copied buffer).mp hbuffer⟩

theorem eq_refused (h : Bounded serial storage offset length answer)
    (houtside : storage.length < offset + length) :
    answer = .error (.outsideStorage offset length storage.length) :=
  (h.refused _).mpr ⟨houtside, rfl⟩

end Bounded

end Buffer

section Hosts

variable {Given State Handle : Type}

/-- A host that also takes down what it is given. -/
def noting (host : Given → State → Handle × State) (given : Given) :
    State × List Given → Handle × State × List Given
  | (state, notes) => ((host given state).1, (host given state).2, notes ++ [given])

namespace Window

theorem bounded_copy (window : Window) (serial : Nat) :
    Buffer.Bounded serial window.storage window.offset window.length
      (window.copy serial : Except Fault (Buffer Hook)) :=
  Buffer.bounded_ofRange serial window.storage window.offset window.length

/-- A host takes a buffer as it is or in its raw form. It is called once, with the copy of the
range in that form, or it is not called and nothing changes. Taking this down changes nothing. -/
structure HandsOver (window : Window) (serial : Nat) (storage : Bytes) (offset length : Nat)
    (form : Buffer Hook → Given) (host : Given → State → Handle × State) (state : State)
    (notes : List Given) : Prop where
  inside : offset + length ≤ storage.length → ∃ buffer : Buffer Hook,
    buffer.IsCopy serial storage offset length ∧
    window.handTo serial (fun buffer => noting host (form buffer)) (state, notes) =
      (.ok (host (form buffer) state).1, (host (form buffer) state).2, notes ++ [form buffer])
  outside : storage.length < offset + length →
    window.handTo serial (fun buffer => noting host (form buffer)) (state, notes) =
      (.error (.outsideStorage offset length storage.length), state, notes)
  unnoted : window.handTo serial (fun buffer => host (form buffer)) state =
    ((window.handTo serial (fun buffer => noting host (form buffer)) (state, notes)).1,
      (window.handTo serial (fun buffer => noting host (form buffer)) (state, notes)).2.1)

theorem handsOver (window : Window) (serial : Nat) (form : Buffer Hook → Given)
    (host : Given → State → Handle × State) (state : State) (notes : List Given) :
    window.HandsOver serial window.storage window.offset window.length form host state notes := by
  refine ⟨?_, ?_, ?_⟩
  · intro hinside
    obtain ⟨buffer, hbuffer, hcopy⟩ := (window.bounded_copy serial).exists_copy hinside
    exact ⟨buffer, hcopy, handTo_of_ok hbuffer _ _⟩
  · intro houtside
    exact handTo_of_error ((window.bounded_copy serial).eq_refused houtside) _ _
  · cases hanswer : (window.copy serial : Except Fault (Buffer Hook)) with
    | ok buffer => rw [handTo_of_ok hanswer, handTo_of_ok hanswer]; rfl
    | error fault => rw [handTo_of_error hanswer, handTo_of_error hanswer]

end Window

end Hosts

def Spot.place : Spot → Nat
  | held place => place
  | raw place => place

namespace Custody

structure Request (Hook : Type) where
  storage : Bytes
  offset : Nat
  length : Nat
  spot : Spot
  reply : Bytes → Outcome Hook

/-- What an action asks for. Most actions ask for no range, and neither does one that names a
storage or a window that is not there. -/
def request? (custody : Custody Hook) : Action Hook → Option (Request Hook)
  | .copy storage offset length place =>
    (custody.storages[storage]?).map fun bytes => ⟨bytes, offset, length, .held place, .copied⟩
  | .copyWindow window place =>
    (custody.windows.get? window).map fun window =>
      ⟨window.storage, window.offset, window.length, .held place, .copied⟩
  | .handWindow window recipient wanted =>
    (custody.windows.get? window).map fun window =>
      ⟨window.storage, window.offset, window.length, Ledger.spotFor custody wanted recipient,
        fun _ => .exposed (Ledger.spotFor custody wanted recipient).place⟩
  | _ => none

/-- The copy arrives at its spot and all other buffers stay where they are, or the range is refused
and nothing changes. -/
structure Settles (custody : Custody Hook) (request : Request Hook)
    (result : Outcome Hook × Custody Hook) : Prop where
  inside : request.offset + request.length ≤ request.storage.length →
    ∃ buffer : Buffer Hook,
      buffer.IsCopy custody.allocated request.storage request.offset request.length ∧
      result.1 = request.reply buffer.bytes ∧
      ∀ target, result.2.find? target =
        if target = request.spot then some buffer else custody.find? target
  outside : request.storage.length < request.offset + request.length →
    result =
      (.fault (.outsideStorage request.offset request.length request.storage.length), custody)

variable (custody : Custody Hook)

theorem find?_keep_allocate (place : Nat) (buffer : Buffer Hook) (target : Spot) :
    (custody.allocate.keep place buffer).find? target =
      if target = .held place then some buffer else custody.find? target := by
  rw [keep_allocate, find?_hold]
  split
  · rfl
  · next hother => exact (custody.find?_freePlace place target).trans (if_neg hother)

theorem handle_expose (wanted : Nat) (recipient : Recipient) (buffer : Buffer Hook) :
    (expose wanted recipient buffer custody).1 =
      (Ledger.spotFor custody wanted recipient).place := by
  cases recipient with
  | adopting => rfl
  | collecting => rfl

theorem settles_receive (place : Nat) (storage : Bytes) (offset length : Nat) :
    custody.Settles ⟨storage, offset, length, .held place, .copied⟩
      (custody.receive place (Buffer.ofRange custody.allocated storage offset length)) := by
  have hbounded := @Buffer.bounded_ofRange Hook custody.allocated storage offset length
  refine ⟨?_, ?_⟩
  · intro hinside
    obtain ⟨buffer, hbuffer, hcopy⟩ := hbounded.exists_copy hinside
    rw [hbuffer]
    exact ⟨buffer, hcopy, rfl, custody.find?_keep_allocate place buffer⟩
  · intro houtside
    rw [hbounded.eq_refused houtside]
    rfl

theorem settles_step {action : Action Hook} {request : Request Hook}
    (h : custody.request? action = some request) :
    custody.Settles request (custody.step action) := by
  cases action with
  | copy storage offset length place =>
    obtain ⟨bytes, hbytes, rfl⟩ := Option.map_eq_some_iff.mp h
    simp only [step, hbytes]
    exact custody.settles_receive place bytes offset length
  | copyWindow place target =>
    obtain ⟨window, hwindow, rfl⟩ := Option.map_eq_some_iff.mp h
    simp only [step, hwindow]
    exact custody.settles_receive target window.storage window.offset window.length
  | handWindow place recipient wanted =>
    obtain ⟨window, hwindow, rfl⟩ := Option.map_eq_some_iff.mp h
    have hbounded := @Window.bounded_copy Hook window custody.allocated
    simp only [step, hwindow]
    refine ⟨?_, ?_⟩
    · intro hinside
      obtain ⟨buffer, hbuffer, hcopy⟩ := hbounded.exists_copy hinside
      rw [Window.handTo_of_ok hbuffer]
      exact ⟨buffer, hcopy,
        congrArg Outcome.exposed (custody.allocate.handle_expose wanted recipient buffer),
        custody.allocate.find?_expose wanted recipient buffer⟩
    · intro houtside
      rw [Window.handTo_of_error (hbounded.eq_refused houtside)]
  | _ => cases h

theorem giveBack_ne_fault (raw : Nat) (release : RawForm Hook → List (Release Hook))
    (fault : Fault) : (custody.giveBack raw release).1 ≠ .fault fault := by
  cases hraw : custody.raws.get? raw with
  | none => simp [giveBack, hraw]
  | some form => simp [giveBack, hraw]

theorem step_ne_fault {action : Action Hook} (h : custody.request? action = none)
    (fault : Fault) : (custody.step action).1 ≠ .fault fault := by
  cases action with
  | copy storage offset length place => simp [step, Option.map_eq_none_iff.mp h]
  | copyWindow place target => simp [step, Option.map_eq_none_iff.mp h]
  | handWindow place recipient wanted => simp [step, Option.map_eq_none_iff.mp h]
  | hook place id =>
    cases hbuffer : custody.buffers.get? place with
    | none => simp [step, hbuffer]
    | some buffer => simp [step, hbuffer]
  | drop place =>
    cases hbuffer : custody.buffers.get? place with
    | none => simp [step, hbuffer]
    | some buffer => simp [step, hbuffer]
  | toRaw place raw =>
    cases hbuffer : custody.buffers.get? place with
    | none => simp [step, hbuffer]
    | some buffer => simp [step, hbuffer]
  | lose raw =>
    cases hraw : custody.raws.get? raw with
    | none => simp [step, hraw]
    | some form => simp [step, hraw]
  | release raw => exact custody.giveBack_ne_fault raw _ fault
  | freeHint hint =>
    cases hint with
    | none => simp [step]
    | some raw => exact custody.giveBack_ne_fault raw _ fault
  | overwrite storage byte =>
    cases hbytes : custody.storages[storage]? with
    | none => simp [step, hbytes]
    | some bytes => simp [step, hbytes]
  | window id storage offset length place =>
    cases hbytes : custody.storages[storage]? with
    | none => simp [step, hbytes]
    | some bytes => simp [step, hbytes]

end Custody

/-- A range of a storage is granted if and only if its end, the sum of offset and length without
wrapping around, is not behind the storage. This is so for a buffer that is asked for directly,
for a window at any offset, and for a window at the start. A host of either kind is called once with
the copy, or not at all. For custody, which holds all buffers, a refused range changes nothing, and
a copy only takes its own spot. Words are enough to copy out of a storage whose size is a word. -/
theorem ranges_bounded (storage : Bytes) (offset length serial id : Nat) :
    Buffer.Bounded serial storage offset length
      (Buffer.ofRange serial storage offset length : Except Fault (Buffer Hook)) ∧
    Buffer.Bounded serial storage offset length
      (Window.copy ⟨id, storage, offset, length⟩ serial : Except Fault (Buffer Hook)) ∧
    Buffer.Bounded serial storage 0 length
      ((Window.ofStart id storage length).copy serial : Except Fault (Buffer Hook)) ∧
    (∀ {Given State Handle : Type} (form : Buffer Hook → Given)
      (host : Given → State → Handle × State) (state : State) (notes : List Given),
      Window.HandsOver ⟨id, storage, offset, length⟩ serial storage offset length form host state
        notes ∧
      (Window.ofStart id storage length).HandsOver serial storage 0 length form host state notes) ∧
    (∀ (custody : Custody Hook) (action : Custody.Action Hook),
      (∀ request, custody.request? action = some request →
        custody.Settles request (custody.step action)) ∧
      (custody.request? action = none → ∀ fault, (custody.step action).1 ≠ .fault fault)) ∧
    (storage.length < UInt64.size → ∀ first count : UInt64,
      copyOutWords storage first count =
        (copyOut storage first.toNat count.toNat).mapError .fault) := by
  refine ⟨Buffer.bounded_ofRange serial storage offset length,
    Window.bounded_copy ⟨id, storage, offset, length⟩ serial,
    (Window.ofStart id storage length).bounded_copy serial, ?_, ?_, copyOutWords_eq⟩
  · intro Given State Handle form host state notes
    exact ⟨Window.handsOver _ serial form host state notes,
      Window.handsOver _ serial form host state notes⟩
  · intro custody action
    exact ⟨fun _ => custody.settles_step, custody.step_ne_fault⟩

theorem ranges_bounded_at_limit :
    let storage : Bytes := [7, 8, 9, 10]
    let last : UInt64 := 18446744073709551615
    let custody : Custody Nat :=
      { Custody.ofStorages [] with windows := [(5, ⟨3, storage, last.toNat, 2⟩)] }
    storage.length < UInt64.size ∧ last + 2 = 1 ∧
      copyOutWords storage last 2 = .error (.fault (.outsideStorage last.toNat 2 4)) ∧
      Buffer.ofRange 0 storage 4 0 = .ok (⟨0, [], none⟩ : Buffer Nat) ∧
      custody.step (.handWindow 5 .adopting 100) =
        (.fault (.outsideStorage last.toNat 2 4), custody) := by
  intro storage last custody
  have hsize : storage.length < UInt64.size := by decide
  have hwraps : last + 2 = 1 := show (18446744073709551615 + 2 : UInt64) = 1 by decide
  obtain ⟨hcopy, -, -, -, hsteps, hwords⟩ := @ranges_bounded Nat storage 4 0 0 3
  have hempty : (⟨0, [], none⟩ : Buffer Nat).IsCopy 0 storage 4 0 :=
    ⟨rfl, rfl, rfl, storage, [], rfl, rfl⟩
  have hsettles := (hsteps custody (.handWindow 5 .adopting 100)).1 _ rfl
  refine ⟨hsize, hwraps, ?_, (hcopy.copied _).mpr hempty, hsettles.outside (by decide)⟩
  rw [hwords hsize]
  rfl

end BulkLoad
