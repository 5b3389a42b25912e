import BulkLoad.Places
import BulkLoad.Session.Load

/-! # Pools of sessions

A pool keeps sessions in numbered places. Each place has a connection of its own, and all of them
share one server and one sink.
-/
namespace BulkLoad

structure Pool where
  sessions : Places Session
  log : Log
  sink : Sink

namespace Pool

def empty : Pool := ⟨[], [], []⟩

inductive Action
  | create (place : Nat) (batch : Batch)
  | loadBatch (place : Nat) (batch : Batch)
  | apply (place : Nat) (operation : Operation)
  | look (place : Nat)
  | close (place : Nat)
  | complete (place : Nat)

def Action.place : Action → Nat
  | create place _ | loadBatch place _ | apply place _ | look place | close place
  | complete place => place

inductive Outcome
  | confirmed
  | absent
  | fault (cause : Fault)
  | reply (reply : Reply)
  | report (report : Report)
  | trap

def connectionOf (place : Nat) : Nat := place + 1

def run (pool : Pool) (session : Session) : Run := ⟨session, pool.log, pool.sink⟩

def close (server : Server) (pool : Pool) (place : Nat) : Pool :=
  match pool.sessions.get? place with
  | none => pool
  | some session =>
    { pool with
      sessions := pool.sessions.clear place
      log := ((pool.run session).close server).log }

/-- A session that takes a place closes the one before it. -/
def create (server : Server) (pool : Pool) (place : Nat) (batch : Batch) : Outcome × Pool :=
  match Session.create (connectionOf place) batch with
  | .error fault => (.fault fault, pool)
  | .ok session =>
    let cleared := pool.close server place
    (.confirmed, { cleared with sessions := cleared.sessions.put place session })

def apply (server : Server) (pool : Pool) (place : Nat) (operation : Operation) : Outcome × Pool :=
  match pool.sessions.get? place with
  | none => (.absent, pool)
  | some session =>
    let (result, run) := (pool.run session).apply server operation
    let outcome := match result with
      | .ok reply => .reply reply
      | .error (.fault fault) => .fault fault
      | .error .trap => .trap
    (outcome, ⟨pool.sessions.put place run.session, run.log, run.sink⟩)

def complete (server : Server) (pool : Pool) (place : Nat) : Outcome × Pool :=
  match pool.sessions.get? place with
  | none => (.absent, pool)
  | some session =>
    let (report, log) := session.complete server pool.log
    (report.elim .trap .report, { pool with sessions := pool.sessions.clear place, log })

def step (server : Server) (pool : Pool) : Action → Outcome × Pool
  | .create place batch => pool.create server place batch
  | .loadBatch place batch =>
    let (report, log) := BulkLoad.loadBatch server (connectionOf place) batch pool.log
    (report.elim .trap .report, { pool with log })
  | .apply place operation => pool.apply server place operation
  | .look place => (if (pool.sessions.get? place).isSome then .confirmed else .absent, pool)
  | .close place =>
    if (pool.sessions.get? place).isSome then (.confirmed, pool.close server place)
    else (.absent, pool)
  | .complete place => pool.complete server place

def closeAll (server : Server) (pool : Pool) : Pool :=
  pool.sessions.foldl (fun pool place => pool.close server place.1) pool

end Pool

end BulkLoad
