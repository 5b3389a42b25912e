import BulkLoad.Proofs.Buffer.Agreement

/-! # Every hook runs once

Whatever is done with buffers, custody agrees with its ledger. So the hook that was attached last
has run once if its buffer is freed, no other hook has run, and a buffer that is alive in either
form still has the bytes that were copied.
-/
namespace BulkLoad

variable {Hook : Type}

namespace Custody

section Operations

variable (custody : Custody Hook)

theorem find?_take (place : Nat) (target : Spot) :
    (custody.take place).find? target =
      if target = .held place then none else custody.find? target := by
  cases target with
  | raw other => rfl
  | held other => simp only [find?, take, Places.get?_clear, Spot.held.injEq]

theorem find?_takeRaw (raw : Nat) (target : Spot) :
    (custody.takeRaw raw).find? target =
      if target = .raw raw then none else custody.find? target := by
  cases target with
  | held other => rfl
  | raw other =>
    simp only [find?, takeRaw, Places.get?_clear, Spot.raw.injEq]
    split
    · rfl
    · rfl

theorem find?_keepRaw (raw : Nat) (form : RawForm Hook) (target : Spot) :
    (custody.keepRaw raw form).find? target =
      if target = .raw raw then some form.owner else custody.find? target := by
  cases target with
  | held other => rfl
  | raw other =>
    simp only [find?, keepRaw, Places.get?_put, Spot.raw.injEq]
    split
    · rfl
    · rfl

theorem find?_hold (place : Nat) (buffer : Buffer Hook) (target : Spot) :
    (custody.hold place buffer).find? target =
      if target = .held place then some buffer else custody.find? target := by
  cases target with
  | raw other => rfl
  | held other => simp only [find?, hold, Places.get?_put, Spot.held.injEq]

theorem freePlace_eq (place : Nat) :
    custody.freePlace place =
      ((custody.find? (.held place)).elim custody fun buffer =>
        (custody.take place).log buffer.free) := by
  simp only [freePlace, find?]
  cases custody.buffers.get? place with
  | none => rfl
  | some buffer => rfl

theorem allocated_freePlace (place : Nat) :
    (custody.freePlace place).allocated = custody.allocated := by
  rw [freePlace_eq]
  cases custody.find? (.held place) with
  | none => rfl
  | some buffer => rfl

theorem find?_freePlace (place : Nat) (target : Spot) :
    (custody.freePlace place).find? target =
      if target = .held place then none else custody.find? target := by
  rw [freePlace_eq]
  cases hfound : custody.find? (.held place) with
  | none =>
    split
    · next htarget => rw [htarget, Option.elim_none, hfound]
    · rfl
  | some buffer => exact custody.find?_take place target

theorem keep_allocate (place : Nat) (buffer : Buffer Hook) :
    custody.allocate.keep place buffer = (custody.freePlace place).allocate.hold place buffer := by
  simp only [keep, freePlace, allocate]
  cases custody.buffers.get? place with
  | none => rfl
  | some held => rfl

theorem giveBack_eq (raw : Nat) :
    (custody.giveBack raw RawForm.release).2 =
      ((custody.find? (.raw raw)).elim custody fun buffer =>
        (custody.takeRaw raw).log buffer.free) := by
  simp only [giveBack, find?]
  cases custody.raws.get? raw with
  | none => rfl
  | some form => rfl

theorem find?_spotFor (wanted : Nat) (recipient : Recipient) :
    custody.find? (Ledger.spotFor custody wanted recipient) = none := by
  cases recipient with
  | adopting => exact congrArg (Option.map RawForm.owner) (custody.raws.get?_vacant wanted)
  | collecting => exact custody.buffers.get?_vacant wanted

theorem released_expose (wanted : Nat) (recipient : Recipient) (buffer : Buffer Hook) :
    (expose wanted recipient buffer custody).2.released = custody.released := by
  cases recipient with
  | adopting => rfl
  | collecting => rfl

theorem allocated_expose (wanted : Nat) (recipient : Recipient) (buffer : Buffer Hook) :
    (expose wanted recipient buffer custody).2.allocated = custody.allocated := by
  cases recipient with
  | adopting => rfl
  | collecting => rfl

theorem find?_expose (wanted : Nat) (recipient : Recipient) (buffer : Buffer Hook)
    (target : Spot) :
    (expose wanted recipient buffer custody).2.find? target =
      if target = Ledger.spotFor custody wanted recipient then some buffer
      else custody.find? target := by
  cases recipient with
  | adopting => exact custody.find?_keepRaw _ buffer.toRaw target
  | collecting => exact custody.find?_hold _ buffer target

theorem step_handWindow (window wanted : Nat) (recipient : Recipient) :
    (custody.step (.handWindow window recipient wanted)).2 =
      ((custody.windows.get? window).elim custody fun window =>
        (window.handTo custody.allocated
          (fun buffer custody => expose wanted recipient buffer custody.allocate) custody).2) := by
  simp only [step]
  cases custody.windows.get? window with
  | none => rfl
  | some window =>
    simp only [Option.elim_some]
    split
    · next hfault => rw [hfault]
    · next hexposed => rw [hexposed]

theorem step_freeHint_none : (custody.step (.freeHint none)).2 = custody :=
  congrArg (fun released => { custody with released }) (List.append_nil custody.released)

end Operations

namespace Accounted

variable {custody : Custody Hook} {ledger : Ledger Hook}

theorem free (h : Accounted custody ledger) {spot : Spot} {taken : Custody Hook}
    (hallocated : taken.allocated = custody.allocated)
    (hreleased : taken.released = custody.released)
    (hfind : ∀ target, taken.find? target =
      if target = spot then none else custody.find? target) :
    Accounted ((custody.find? spot).elim custody fun buffer => taken.log buffer.free)
      (ledger.settle spot .freed) := by
  cases hfound : custody.find? spot with
  | none =>
    rw [Ledger.settle, h.change_of_none hfound]
    exact h
  | some buffer =>
    refine h.settle spot (fun _ => Fate.noConfusion) hallocated ?_ hfind
    rw [hfound, ← hreleased]
    exact congrArg (taken.released ++ ·) buffer.runs_record_freed.symm

theorem freePlace (h : Accounted custody ledger) (place : Nat) :
    Accounted (custody.freePlace place) (ledger.settle (.held place) .freed) := by
  rw [custody.freePlace_eq]
  exact h.free rfl rfl (custody.find?_take place)

theorem giveBack (h : Accounted custody ledger) (raw : Nat) :
    Accounted (custody.giveBack raw RawForm.release).2 (ledger.settle (.raw raw) .freed) := by
  rw [custody.giveBack_eq]
  exact h.free rfl rfl (custody.find?_takeRaw raw)

theorem takeRaw (h : Accounted custody ledger) (raw : Nat) :
    Accounted (custody.takeRaw raw) (ledger.displace (.raw raw)) := by
  refine h.settle (.raw raw) (Spot.displaced_ne _) rfl ?_ (custody.find?_takeRaw raw)
  cases custody.find? (.raw raw) with
  | none => exact (List.append_nil _).symm
  | some buffer => exact (List.append_nil _).symm

theorem hook (h : Accounted custody ledger) {place : Nat} {buffer : Buffer Hook}
    (hfound : custody.find? (.held place) = some buffer) (id : Hook) :
    Accounted (custody.hold place (buffer.withHook id)) (ledger.attach place id) := by
  refine h.change hfound ⟨rfl, (List.append_nil _).symm, ?_, ?_⟩
  · intro target htarget
    exact .inl (Fate.alive.inj htarget).symm
  · intro target
    rw [find?_hold]
    split
    · next htarget =>
      rw [htarget]
      exact (if_pos rfl).symm
    · next htarget => exact (if_neg fun hfate => htarget (Fate.alive.inj hfate).symm).symm

theorem toRaw (h : Accounted custody ledger) {place : Nat} {buffer : Buffer Hook}
    (hfound : custody.find? (.held place) = some buffer) (raw : Nat) :
    Accounted ((custody.take place).keepRaw raw buffer.toRaw) (ledger.pass place raw) := by
  have hrecord := (h.alive _ _).mp hfound
  have hmem : buffer.record (.alive (.held place)) ∈ ledger := List.mem_of_getElem? hrecord
  have hfree := h.takeRaw raw
  have hstill : (custody.takeRaw raw).find? (.held place) = some buffer := hfound
  rw [Ledger.pass, if_pos ⟨_, hmem, rfl⟩]
  refine hfree.change hstill ⟨rfl, (List.append_nil _).symm, ?_, ?_⟩
  · intro target htarget
    obtain rfl := Fate.alive.inj htarget
    right
    rw [find?_takeRaw, if_pos rfl]
  · intro target
    rw [find?_keepRaw, find?_take, find?_takeRaw]
    by_cases htarget : target = .raw raw
    · rw [htarget, if_pos rfl]
      exact (if_pos rfl).symm
    · rw [if_neg htarget, if_neg htarget]
      exact (if_neg fun hfate => htarget (Fate.alive.inj hfate).symm).symm

theorem enterHeld (h : Accounted custody ledger) (place : Nat) (bytes : Bytes) :
    Accounted (custody.allocate.keep place ⟨custody.allocated, bytes, none⟩)
      (ledger.displace (.held place) ++ [⟨bytes, none, .alive (.held place)⟩]) := by
  rw [custody.keep_allocate, ← custody.allocated_freePlace place]
  refine (h.freePlace place).arrive ?_ rfl rfl (find?_hold _ place _)
  rw [find?_freePlace, if_pos rfl]

theorem receive (h : Accounted custody ledger) (place : Nat) (storage : Bytes)
    (offset length : Nat) :
    Accounted (custody.receive place (Buffer.ofRange custody.allocated storage offset length)).2
      (ledger.enter storage offset length (.held place)) := by
  rw [Buffer.ofRange_eq, Ledger.enter]
  split
  · exact h.enterHeld place _
  · exact h

theorem handOver (h : Accounted custody ledger) (window : Window) (wanted : Nat)
    (recipient : Recipient) :
    Accounted (window.handTo custody.allocated
        (fun buffer custody => Custody.expose wanted recipient buffer custody.allocate) custody).2
      (ledger.deliver window.storage window.offset window.length
        (Ledger.spotFor custody wanted recipient)) := by
  rw [Window.handTo, Window.copy, Buffer.ofRange_eq, Ledger.deliver]
  by_cases hrange : window.offset + window.length ≤ window.storage.length
  · rw [if_pos hrange, if_pos hrange]
    exact h.arrive (custody.find?_spotFor wanted recipient)
      (custody.allocate.allocated_expose wanted recipient _)
      (custody.allocate.released_expose wanted recipient _)
      (custody.allocate.find?_expose wanted recipient _)
  · rw [if_neg hrange, if_neg hrange]
    exact h

theorem step (h : Accounted custody ledger) (action : Action Hook) :
    Accounted (custody.step action).2 (ledger.step custody action) := by
  cases action with
  | copy storage offset length place =>
    simp only [Custody.step, Ledger.step]
    cases custody.storages[storage]? with
    | none => exact h
    | some bytes => exact h.receive place bytes offset length
  | hook place id =>
    simp only [Custody.step, Ledger.step]
    cases hfound : custody.buffers.get? place with
    | none =>
      rw [Ledger.attach, h.change_of_none (show custody.find? (.held place) = none from hfound)]
      exact h
    | some buffer => exact h.hook hfound id
  | drop place =>
    have hdrop : (custody.step (.drop place)).2 = custody.freePlace place := by
      simp only [Custody.step, Custody.freePlace]
      cases custody.buffers.get? place with
      | none => rfl
      | some buffer => rfl
    rw [hdrop]
    exact h.freePlace place
  | toRaw place raw =>
    simp only [Custody.step, Ledger.step]
    cases hfound : custody.buffers.get? place with
    | none =>
      rw [Ledger.pass, if_neg]
      · exact h
      · rintro ⟨record, hrecord, hfate⟩
        exact h.not_alive (show custody.find? (.held place) = none from hfound) record hrecord hfate
    | some buffer => exact h.toRaw hfound raw
  | lose raw =>
    simp only [Custody.step, Ledger.step]
    cases hfound : custody.raws.get? raw with
    | none =>
      have hempty : custody.find? (.raw raw) = none := congrArg (Option.map RawForm.owner) hfound
      rw [Ledger.settle, h.change_of_none hempty]
      exact h
    | some form => exact h.takeRaw raw
  | release raw => exact h.giveBack raw
  | freeHint hint =>
    cases hint with
    | none =>
      rw [custody.step_freeHint_none]
      exact h
    | some raw => exact h.giveBack raw
  | overwrite storage byte =>
    simp only [Custody.step, Ledger.step]
    cases custody.storages[storage]? with
    | none => exact h
    | some bytes => exact h.congr rfl rfl fun _ => rfl
  | window id storage offset length place =>
    simp only [Custody.step, Ledger.step]
    cases custody.storages[storage]? with
    | none => exact h
    | some bytes => exact h.congr rfl rfl fun _ => rfl
  | copyWindow window place =>
    simp only [Custody.step, Ledger.step]
    cases custody.windows.get? window with
    | none => exact h
    | some window => exact h.receive place window.storage window.offset window.length
  | handWindow window recipient wanted =>
    rw [custody.step_handWindow]
    simp only [Ledger.step]
    cases custody.windows.get? window with
    | none => exact h
    | some window => exact h.handOver window wanted recipient

end Accounted

end Custody

structure Account (Hook : Type) where
  custody : Custody Hook
  ledger : Ledger Hook

namespace Account

open Custody (Action)

def step (account : Account Hook) (action : Action Hook) : Account Hook :=
  ⟨(account.custody.step action).2, account.ledger.step account.custody action⟩

/-- The account after actions that begin with no buffers. -/
def after (storages : List Bytes) (actions : List (Action Hook)) : Account Hook :=
  actions.foldl step ⟨.ofStorages storages, []⟩

/-- A hook that was replaced does not run, and neither does the hook of a raw form that is lost. -/
example :
    let replaced : List (Action Nat) :=
      [.copy 0 1 2 0, .hook 0 7, .hook 0 8, .copy 0 0 3 0, .hook 0 9, .toRaw 0 1, .copy 0 0 1 2,
        .toRaw 2 1]
    (after [[10, 11, 12]] replaced).custody.released = [⟨0, 8, 2⟩] := by
  decide

end Account

end BulkLoad
