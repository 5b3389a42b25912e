import BulkLoad.Proofs.Session.Containment
import BulkLoad.Proofs.Session.History
import BulkLoad.Session.Pool

/-! # Sessions side by side

Sessions in a pool share the server and the sink, and their actions alternate in any order. With a
local server and a connection for each place, what happens in a place is what would happen there if
there were no other place: the same outcomes, the same sessions, the same calls and the same faults.
-/
namespace BulkLoad

namespace Pool

/-- What an action did in its place, and what it added to the shared log and sink. -/
structure Event where
  place : Nat
  outcome : Outcome
  session : Option Session
  calls : Log
  faults : Sink

def observe (server : Server) (pool : Pool) (action : Action) : Event :=
  let after := pool.step server action
  { place := action.place
    outcome := after.1
    session := after.2.sessions.get? action.place
    calls := after.2.log.drop pool.log.length
    faults := after.2.sink.drop pool.sink.length }

def trace (server : Server) (pool : Pool) : List Action → List Event
  | [] => []
  | action :: rest => pool.observe server action :: trace server (pool.step server action).2 rest

def perform (server : Server) (pool : Pool) (actions : List Action) : Pool :=
  actions.foldl (fun pool action => (pool.step server action).2) pool

/-- The pool with one place only, the calls on its connection and an empty sink. -/
def alone (pool : Pool) (place connection : Nat) : Pool where
  sessions := pool.sessions.filter (·.1 = place)
  log := pool.log.on connection
  sink := []

/-- Every session is on the connection of its place. -/
def Seated (pool : Pool) (connection : Nat → Nat) : Prop :=
  ∀ place session, pool.sessions.get? place = some session → session.connection = connection place

def Action.begins : Action → Bool
  | create .. | loadBatch .. => true
  | apply .. | look _ | close _ | complete _ => false

def outcomeOf : Except Halt Reply → Outcome
  | .ok reply => .reply reply
  | .error (.fault fault) => .fault fault
  | .error .trap => .trap

/-- From one pool to the next only one place has changed, and log and sink have grown. -/
structure Moves (pool next : Pool) (place : Nat) (left : Option Session) (calls : Log)
    (faults : Sink) : Prop where
  log : next.log = pool.log ++ calls
  sink : next.sink = pool.sink ++ faults
  left : next.sessions.get? place = left
  others : ∀ other, other ≠ place → next.sessions.get? other = pool.sessions.get? other

/-- Given what a place holds and the calls on its connection, an action on the place does the same
in every pool. It leaves the other places alone and makes calls on no other connection. -/
def Confined (act : Pool → Outcome × Pool) (place connection : Nat) (held : Option Session)
    (own : Log) : Prop :=
  ∃ outcome left calls faults,
    (∀ session, left = some session → session.connection = connection) ∧
    (∀ call ∈ calls, call.connection = connection) ∧
    ∀ pool : Pool, pool.sessions.get? place = held → pool.log.on connection = own →
      ∃ next, act pool = (outcome, next) ∧ pool.Moves next place left calls faults

section Step

variable {server : Server} (hlocal : server.IsLocal) (place : Nat) {connection : Nat}
  {held : Option Session} (hheld : ∀ session, held = some session → session.connection = connection)
  (own : Log)

include hheld in
theorem confined_stay (act : Pool → Outcome × Pool) (outcome : Outcome)
    (h : ∀ pool : Pool, pool.sessions.get? place = held → act pool = (outcome, pool)) :
    Confined act place connection held own :=
  ⟨outcome, held, [], [], hheld, by simp, fun pool hget _ => ⟨pool, h pool hget,
    (List.append_nil _).symm, (List.append_nil _).symm, hget, fun _ _ => rfl⟩⟩

include hlocal hheld

theorem exists_close :
    ∃ calls, (∀ call ∈ calls, call.connection = connection) ∧
      ∀ pool : Pool, pool.sessions.get? place = held → pool.log.on connection = own →
        pool.Moves (pool.close server place) place none calls [] := by
  cases held with
  | none =>
    refine ⟨[], by simp, fun pool hget _ => ?_⟩
    have hclose : pool.close server place = pool := by simp only [close, hget]
    rw [hclose]
    exact ⟨(List.append_nil _).symm, (List.append_nil _).symm, hget, fun _ _ => rfl⟩
  | some session =>
    obtain rfl := hheld session rfl
    obtain ⟨_, final, calls, faults, _, hcalls, hrun⟩ :=
      Run.contained_close hlocal session own ()
    refine ⟨calls, hcalls, fun pool hget hlog => ?_⟩
    have hlogged : ((pool.run session).close server).log = pool.log ++ calls :=
      congrArg (fun result => result.2.log) (hrun pool.log pool.sink hlog)
    have hclose : pool.close server place =
        ⟨pool.sessions.clear place, pool.log ++ calls, pool.sink⟩ := by
      simp only [close, hget, hlogged]
    rw [hclose]
    exact ⟨rfl, (List.append_nil _).symm, Places.get?_clear_self _ _,
      fun other hother => Places.get?_clear_of_ne _ hother⟩

theorem confined_create (batch : Batch) (hplace : connectionOf place = connection) :
    Confined (fun pool => pool.create server place batch) place connection held own := by
  cases hcreate : Session.create (connectionOf place) batch with
  | error fault =>
    exact confined_stay place hheld own _ (.fault fault) fun pool _ =>
      create_of_error hcreate server pool
  | ok session =>
    obtain ⟨calls, hcalls, hclose⟩ := exists_close hlocal place hheld own
    refine ⟨.confirmed, some session, calls, [], ?_, hcalls, fun pool hget hlog => ?_⟩
    · rintro _ ⟨⟩
      rw [Session.eq_of_create hcreate]
      exact hplace
    · have hclosed := hclose pool hget hlog
      refine ⟨{ pool.close server place with
        sessions := (pool.close server place).sessions.put place session }, ?_, ?_⟩
      · simp only [create, hcreate]
      · exact ⟨hclosed.log, hclosed.sink, Places.get?_put_self _ _ _, fun other hother =>
          (Places.get?_put_of_ne _ _ hother).trans (hclosed.others other hother)⟩

theorem confined_loadBatch (batch : Batch) (hplace : connectionOf place = connection) :
    Confined (fun pool => pool.step server (.loadBatch place batch)) place connection held own := by
  cases hcreate : Session.create (connectionOf place) batch with
  | error fault =>
    exact confined_stay place hheld own _ (.report (.ofFault fault)) fun pool _ => by
      simp only [step, loadBatch_of_error hcreate]
      rfl
  | ok session =>
    have hconnection : session.connection = connection := by
      rw [Session.eq_of_create hcreate]
      exact hplace
    obtain ⟨report, calls, hcalls, hcomplete⟩ := Run.exists_complete hlocal session own
    rw [hconnection] at hcalls hcomplete
    refine ⟨report.elim .trap .report, held, calls, [], hheld, hcalls,
      fun pool hget hlog => ⟨{ pool with log := pool.log ++ calls }, ?_, ?_⟩⟩
    · simp only [step, BulkLoad.loadBatch, hcreate, hcomplete pool.log hlog]
    · exact ⟨rfl, (List.append_nil _).symm, hget, fun _ _ => rfl⟩

theorem confined_apply (operation : Operation) :
    Confined (fun pool => pool.apply server place operation) place connection held own := by
  cases held with
  | none =>
    exact confined_stay place hheld own _ .absent fun pool hget => by simp only [apply, hget]
  | some session =>
    obtain rfl := hheld session rfl
    obtain ⟨answer, final, calls, faults, hfinal, hcalls, hrun⟩ :=
      Run.contained_apply hlocal session own operation
    refine ⟨outcomeOf answer, some final, calls, faults, ?_, hcalls, fun pool hget hlog =>
      ⟨⟨pool.sessions.put place final, pool.log ++ calls, pool.sink ++ faults⟩, ?_, ?_⟩⟩
    · rintro _ ⟨⟩
      exact hfinal
    · have happly := hrun pool.log pool.sink hlog
      simp only [apply, hget, run, happly]
      rfl
    · exact ⟨rfl, rfl, Places.get?_put_self _ _ _,
        fun other hother => Places.get?_put_of_ne _ _ hother⟩

theorem confined_complete :
    Confined (fun pool => pool.complete server place) place connection held own := by
  cases held with
  | none =>
    exact confined_stay place hheld own _ .absent fun pool hget => by simp only [complete, hget]
  | some session =>
    obtain rfl := hheld session rfl
    obtain ⟨report, calls, hcalls, hcomplete⟩ := Run.exists_complete hlocal session own
    refine ⟨report.elim .trap .report, none, calls, [], by simp, hcalls, fun pool hget hlog =>
      ⟨⟨pool.sessions.clear place, pool.log ++ calls, pool.sink⟩, ?_, ?_⟩⟩
    · simp only [complete, hget, hcomplete pool.log hlog]
    · exact ⟨rfl, (List.append_nil _).symm, Places.get?_clear_self _ _,
        fun other hother => Places.get?_clear_of_ne _ hother⟩

end Step

theorem confined_step {server : Server} (hlocal : server.IsLocal) (action : Action)
    {connection : Nat} {held : Option Session}
    (hheld : ∀ session, held = some session → session.connection = connection) (own : Log)
    (hbegins : action.begins = true → connectionOf action.place = connection) :
    Confined (fun pool => pool.step server action) action.place connection held own := by
  cases action with
  | create place batch => exact confined_create hlocal place hheld own batch (hbegins rfl)
  | loadBatch place batch => exact confined_loadBatch hlocal place hheld own batch (hbegins rfl)
  | apply place operation => exact confined_apply hlocal place hheld own operation
  | look place =>
    refine confined_stay place hheld own _ (if held.isSome then .confirmed else .absent) ?_
    intro pool hget
    simp only [step, hget]
  | close place =>
    obtain ⟨calls, hcalls, hclose⟩ := exists_close hlocal place hheld own
    refine ⟨if held.isSome then .confirmed else .absent, none, calls, [], by simp, hcalls,
      fun pool (hget : pool.sessions.get? place = held) hlog =>
        ⟨pool.close server place, ?_, hclose pool hget hlog⟩⟩
    cases held with
    | none => simp [step, hget, close]
    | some session => simp [step, hget]
  | complete place => exact confined_complete hlocal place hheld own

theorem observe_eq {server : Server} {pool next : Pool} {action : Action} {outcome : Outcome}
    {left : Option Session} {calls : Log} {faults : Sink}
    (hstep : pool.step server action = (outcome, next))
    (hmoves : pool.Moves next action.place left calls faults) :
    pool.observe server action = ⟨action.place, outcome, left, calls, faults⟩ := by
  simp only [observe, hstep, hmoves.left, hmoves.log, hmoves.sink, List.drop_left]

section Places

variable {server : Server} (hlocal : server.IsLocal) {connection : Nat → Nat} {pool lone : Pool}
  (seated : pool.Seated connection) {action : Action}
  (hbegins : action.begins = true → connectionOf action.place = connection action.place)

include hlocal seated hbegins

theorem Seated.exists_moves : ∃ outcome next left calls faults,
    pool.step server action = (outcome, next) ∧ next.Seated connection ∧
      pool.Moves next action.place left calls faults ∧
      ∀ call ∈ calls, call.connection = connection action.place := by
  obtain ⟨outcome, left, calls, faults, hleft, hcalls, hstep⟩ := confined_step hlocal action
    (seated action.place) (pool.log.on (connection action.place)) hbegins
  obtain ⟨next, hnext, hmoves⟩ := hstep pool rfl rfl
  refine ⟨outcome, next, left, calls, faults, hnext, ?_, hmoves, hcalls⟩
  intro place session hsession
  by_cases hplace : place = action.place
  · subst hplace
    exact hleft session (hmoves.left.symm.trans hsession)
  · rw [hmoves.others place hplace] at hsession
    exact seated place session hsession

theorem Seated.step : (pool.step server action).2.Seated connection := by
  obtain ⟨outcome, next, _, _, _, hnext, hseated, _⟩ := seated.exists_moves hlocal hbegins
  rw [hnext]
  exact hseated

theorem Seated.grows :
    (pool.step server action).2.log = pool.log ++ (pool.observe server action).calls ∧
      (pool.step server action).2.sink = pool.sink ++ (pool.observe server action).faults := by
  obtain ⟨outcome, next, left, calls, faults, hnext, _, hmoves, _⟩ :=
    seated.exists_moves hlocal hbegins
  rw [observe_eq hnext hmoves, hnext]
  exact ⟨hmoves.log, hmoves.sink⟩

end Places

/-- A pool that knows of one place of another pool only. -/
structure Mirrors (lone pool : Pool) (place connection : Nat) : Prop where
  held : lone.sessions.get? place = pool.sessions.get? place
  log : lone.log = pool.log.on connection

theorem get?_alone (pool : Pool) (place connection other : Nat) :
    (pool.alone place connection).sessions.get? other =
      if other = place then pool.sessions.get? other else none := by
  change Places.get? (pool.sessions.filter (·.1 = place)) other = _
  induction pool.sessions with
  | nil => simp [Places.get?]
  | cons first rest ih =>
    obtain ⟨number, session⟩ := first
    by_cases hnumber : number = place
    · by_cases hother : other = number
      · simp [Places.get?, hnumber, hother]
      · simpa [Places.get?, hnumber, hnumber ▸ hother] using ih
    · by_cases hother : other = place
      · simpa [Places.get?, hnumber, hother, Ne.symm hnumber] using ih
      · simpa [Places.get?, hnumber, hother] using ih

theorem mirrors_alone (pool : Pool) (place connection : Nat) :
    (pool.alone place connection).Mirrors pool place connection :=
  ⟨(get?_alone pool place connection place).trans (if_pos rfl), rfl⟩

theorem Seated.alone {pool : Pool} {connection : Nat → Nat} (seated : pool.Seated connection)
    (place : Nat) : (pool.alone place (connection place)).Seated connection := by
  intro other session hsession
  rw [get?_alone] at hsession
  split at hsession
  · exact seated other session hsession
  · cases hsession

section Mirrors

variable {server : Server} (hlocal : server.IsLocal) {connection : Nat → Nat} {pool lone : Pool}
  (seated : pool.Seated connection) {action : Action}
  (hbegins : action.begins = true → connectionOf action.place = connection action.place)

include hlocal seated hbegins

theorem Mirrors.step_own (h : lone.Mirrors pool action.place (connection action.place)) :
    lone.observe server action = pool.observe server action ∧
      (lone.step server action).2.Mirrors (pool.step server action).2 action.place
        (connection action.place) := by
  obtain ⟨outcome, left, calls, faults, hleft, hcalls, hstep⟩ := confined_step hlocal action
    (seated action.place) (pool.log.on (connection action.place)) hbegins
  have hown : lone.log.on (connection action.place) = pool.log.on (connection action.place) := by
    rw [h.log, Log.on_on]
  obtain ⟨next, (hnext : pool.step server action = _), hmoves⟩ := hstep pool rfl rfl
  obtain ⟨apart, (hapart : lone.step server action = _), hmoves'⟩ := hstep lone h.held hown
  refine ⟨(observe_eq hapart hmoves').trans (observe_eq hnext hmoves).symm, ?_, ?_⟩
  · rw [hnext, hapart, hmoves.left, hmoves'.left]
  · rw [hnext, hapart, hmoves.log, hmoves'.log, Log.on_append, Log.on_eq_self hcalls, h.log]

theorem Mirrors.step_other (distinct : Function.Injective connection) {place : Nat}
    (hplace : action.place ≠ place) (h : lone.Mirrors pool place (connection place)) :
    lone.Mirrors (pool.step server action).2 place (connection place) := by
  obtain ⟨outcome, next, left, calls, faults, hnext, _, hmoves, hcalls⟩ :=
    seated.exists_moves hlocal hbegins
  have hunseen : calls.on (connection place) = [] :=
    Log.on_eq_nil fun call hcall => by
      rw [hcalls call hcall]
      exact fun heq => hplace (distinct heq)
  rw [hnext]
  refine ⟨?_, ?_⟩
  · rw [h.held, hmoves.others place (Ne.symm hplace)]
  · rw [h.log, hmoves.log, Log.on_append, hunseen, List.append_nil]

end Mirrors

section Whole

variable {server : Server} (hlocal : server.IsLocal) {connection : Nat → Nat} {pool lone : Pool}
  (seated : pool.Seated connection) {actions : List Action}
  (hbegins : ∀ action ∈ actions, action.begins = true →
    connectionOf action.place = connection action.place)

include hlocal seated hbegins

theorem Seated.perform : (pool.perform server actions).Seated connection := by
  induction actions generalizing pool with
  | nil => exact seated
  | cons action rest ih =>
    exact ih (seated.step hlocal (hbegins action List.mem_cons_self))
      fun later hlater => hbegins later (List.mem_cons_of_mem action hlater)

theorem Seated.perform_grows :
    (pool.perform server actions).log =
        pool.log ++ (pool.trace server actions).flatMap Event.calls ∧
      (pool.perform server actions).sink =
        pool.sink ++ (pool.trace server actions).flatMap Event.faults := by
  induction actions generalizing pool with
  | nil => exact ⟨(List.append_nil _).symm, (List.append_nil _).symm⟩
  | cons action rest ih =>
    have hfirst := hbegins action List.mem_cons_self
    obtain ⟨hlog, hsink⟩ := ih (seated.step hlocal hfirst)
      fun later hlater => hbegins later (List.mem_cons_of_mem action hlater)
    obtain ⟨hlog', hsink'⟩ := seated.grows hlocal hfirst
    rw [hlog', List.append_assoc] at hlog
    rw [hsink', List.append_assoc] at hsink
    exact ⟨hlog, hsink⟩

theorem Mirrors.perform (distinct : Function.Injective connection) {place : Nat}
    (h : lone.Mirrors pool place (connection place)) :
    (pool.trace server actions).filter (·.place = place) =
        lone.trace server (actions.filter (·.place = place)) ∧
      (lone.perform server (actions.filter (·.place = place))).Mirrors
        (pool.perform server actions) place (connection place) := by
  induction actions generalizing pool lone with
  | nil => exact ⟨rfl, h⟩
  | cons action rest ih =>
    have hfirst := hbegins action List.mem_cons_self
    have hrest : ∀ later ∈ rest, later.begins = true →
        connectionOf later.place = connection later.place :=
      fun later hlater => hbegins later (List.mem_cons_of_mem action hlater)
    have hseated := seated.step hlocal hfirst
    by_cases hplace : action.place = place
    · subst hplace
      obtain ⟨hobserve, hmirrors⟩ := h.step_own hlocal seated hfirst
      obtain ⟨htrace, hend⟩ := ih hseated hrest hmirrors
      have hkept : (action :: rest).filter (fun later => later.place = action.place) =
          action :: rest.filter (fun later => later.place = action.place) :=
        List.filter_cons_of_pos (by simp)
      rw [hkept]
      refine ⟨?_, hend⟩
      rw [trace, trace, List.filter_cons_of_pos (by simp [observe]), htrace, hobserve]
    · have hmirrors := h.step_other hlocal seated hfirst distinct hplace
      have hskipped : (action :: rest).filter (·.place = place) =
          rest.filter (·.place = place) :=
        List.filter_cons_of_neg (by simpa using hplace)
      obtain ⟨htrace, hend⟩ := ih hseated hrest hmirrors
      rw [hskipped]
      refine ⟨?_, hend⟩
      rw [trace, List.filter_cons_of_neg (by simp [observe, hplace]), htrace]

end Whole

/-- Sessions on different connections do not disturb each other. Whatever happens in a place, with
every call and every fault, happens the same way in a pool with that place alone. -/
theorem undisturbed_perform {server : Server} (hlocal : server.IsLocal) {connection : Nat → Nat}
    (distinct : Function.Injective connection) {pool : Pool} (seated : pool.Seated connection)
    {actions : List Action}
    (hbegins : ∀ action ∈ actions, action.begins = true →
      connectionOf action.place = connection action.place) (place : Nat) :
    let events := pool.trace server actions
    let last := pool.perform server actions
    let lone := pool.alone place (connection place)
    let own := actions.filter (·.place = place)
    let lonely := lone.perform server own
    events.filter (·.place = place) = lone.trace server own ∧
      last.log.on (connection place) = lonely.log ∧
      last.sessions.get? place = lonely.sessions.get? place ∧
      last.log = pool.log ++ events.flatMap Event.calls ∧
      last.sink = pool.sink ++ events.flatMap Event.faults ∧
      lonely.sink = (events.filter (·.place = place)).flatMap Event.faults := by
  intro events last lone own lonely
  obtain ⟨htrace, hmirrors⟩ :=
    (mirrors_alone pool place (connection place)).perform hlocal seated hbegins distinct
  obtain ⟨hlog, hsink⟩ := seated.perform_grows hlocal hbegins
  have hlonely : lonely.sink = [] ++ (lone.trace server own).flatMap Event.faults :=
    ((seated.alone place).perform_grows hlocal fun action haction =>
      hbegins action (List.mem_filter.mp haction).1).2
  rw [List.nil_append, ← htrace] at hlonely
  exact ⟨htrace, hmirrors.log.symm, hmirrors.held.symm, hlog, hsink, hlonely⟩

theorem undisturbed_perform_sample :
    Function.Injective connectionOf ∧ empty.Seated connectionOf ∧
      let actions : List Action :=
        [.create 0 Batch.sample, .create 1 Batch.sample, .apply 0 .init, .apply 1 .init,
          .apply 1 .bind, .apply 0 .bind, .apply 1 .insert, .close 0, .apply 0 .insert,
          .apply 1 .done]
      let last := empty.perform Script.accepting.server actions
      let lonely := (empty.alone 0 1).perform Script.accepting.server
        [.create 0 Batch.sample, .apply 0 .init, .apply 0 .bind, .close 0, .apply 0 .insert]
      last.log.on 1 = lonely.log ∧ lonely.log.length = 4 := by
  have hdistinct : Function.Injective connectionOf := fun _ _ h => Nat.succ.inj h
  have hseated : empty.Seated connectionOf := fun _ _ h => by cases h
  refine ⟨hdistinct, hseated, ?_, by decide⟩
  exact (undisturbed_perform Script.isLocal_accepting hdistinct hseated
    (fun _ _ _ => rfl) 0).2.1

end Pool

end BulkLoad
