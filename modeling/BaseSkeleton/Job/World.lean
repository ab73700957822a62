import BaseSkeleton.Job.Run
import BaseSkeleton.Job.Worker

/-!
# Any number of runs on one queue

`PostgresJobQueue` under `JobWorker::run_once`: a `World` is the database, the runs that were
started and the statements that are on their way, on one time axis. An `Event` is one thing that
happens; any event may happen at any time, so that the runs of the machine `world` are all
interleavings.

* A run sends a statement when it enters a phase that waits for the queue (`Phase.statement`).
  The statement takes effect at one instant, at or after that moment (`Event.execute`), and the
  reply reaches the run in a later poll, or never.
* A call can fail at any time (`Event.disconnect`), and a run can stop waiting for it. The
  statement is then an orphan: it may still take effect later (`Event.executeOrphan`), or never.
* `claim` sends two statements, the second after the first has taken effect.

A run that is dropped is a run that is not polled again.
-/

namespace BaseSkeleton.Job

/-- What a call of the queue returns. -/
inductive Reply where
  | claim (answer : Except JobQueueError (Option ClaimedJob))
  | lease (answer : Except JobQueueError Unit)
  | fail (answer : Except JobQueueError JobDisposition)

/-- The adapter's reading of the result of a statement. -/
def Statement.reply (result : Except SqlError (JobTable × List JobRow)) : Statement → Reply
  | .reap _ => .claim (PostgresJobQueue.answer PostgresJobQueue.readClaim result)
  | .claim _ => .claim (PostgresJobQueue.answer PostgresJobQueue.readClaim result)
  | .fail _ _ _ _ _ => .fail (PostgresJobQueue.answer PostgresJobQueue.readFail result)
  | _ => .lease (PostgresJobQueue.answer PostgresJobQueue.readLease result)

/-- The same call without an answer from the database. -/
def Reply.unavailable : Reply → Reply
  | .claim _ => .claim (.error .unavailable)
  | .lease _ => .lease (.error .unavailable)
  | .fail _ => .fail (.error .unavailable)

/-- The call a run is waiting for. -/
inductive Call where
  | idle
  | sent (statement : Statement)
  | answered (reply : Reply)

namespace Call

/-- The statement that has not taken effect yet. -/
def pending : Call → List Statement
  | sent statement => [statement]
  | _ => []

def claimAnswer : Call → Option (Except JobQueueError (Option ClaimedJob))
  | answered (.claim answer) => some answer
  | _ => none

def leaseAnswer : Call → Option (Except JobQueueError Unit)
  | answered (.lease answer) => some answer
  | _ => none

def failAnswer : Call → Option (Except JobQueueError JobDisposition)
  | answered (.fail answer) => some answer
  | _ => none

end Call

/-- The statement a phase waits for; `claim` starts with the reap. -/
def Phase.statement (w : JobWorker) : Phase → Option Statement
  | claiming => some (.reap w.config.leaseTimeout)
  | renewing job _ _ _ => some (.renew job.id w.config.workerId job.attempts)
  | completing job _ => some (.complete job.id w.config.workerId job.attempts)
  | failing job message delay _ =>
    some (.fail job.id w.config.workerId job.attempts message delay)
  | _ => none

/-- One call of `run_once` and the queue call it waits for. -/
structure Execution where
  worker : JobWorker
  run : RunOnce
  call : Call

namespace Execution

/-- The call after its statement took effect with `result`: a reap that went through is followed
by the claim statement. -/
def afterStatement (e : Execution) (s : Statement)
    (result : Except SqlError (JobTable × List JobRow)) : Call :=
  match s, result with
  | .reap _, .ok _ => .sent (.claim e.worker.config.workerId)
  | s, result => .answered (s.reply result)

/-- What the run is shown; a reply is seen only once it has arrived. -/
def pollAt (e : Execution) (now : Instant) (arrived renewalTimer deadlineTimer : Bool)
    (handler : Option HandlerResult) : Poll where
  now := now
  claim := if arrived then e.call.claimAnswer else none
  renewalTimer := renewalTimer
  deadlineTimer := deadlineTimer
  handler := handler
  renew := if arrived then e.call.leaseAnswer else none
  complete := if arrived then e.call.leaseAnswer else none
  fail := if arrived then e.call.failAnswer else none

/-- The run has moved on to `run'`: it sends a statement, or stops waiting, or keeps waiting. -/
def resume (e : Execution) (run' : RunOnce) : Execution :=
  match e.run.phase.statement e.worker, run'.phase.statement e.worker with
  | none, some statement => ⟨e.worker, run', .sent statement⟩
  | some _, none => ⟨e.worker, run', .idle⟩
  | _, _ => ⟨e.worker, run', e.call⟩

/-- The statements a run leaves behind when it stops waiting. -/
def abandoned (e : Execution) (run' : RunOnce) : List Statement :=
  match run'.phase.statement e.worker with
  | some _ => []
  | none => e.call.pending

end Execution

structure World where
  now : Instant
  db : Db
  executions : List Execution
  orphans : List Statement

inductive Event where
  | tick (elapsed : Duration)
  | start (worker : JobWorker)
  /-- an insert or a purge, sent by somebody else -/
  | outside (statement : Statement) (skip : List Uuid)
  | execute (i : Nat) (skip : List Uuid)
  | executeOrphan (i : Nat) (skip : List Uuid)
  | disconnect (i : Nat)
  | poll (i : Nat) (arrived renewalTimer deadlineTimer : Bool) (handler : Option HandlerResult)

namespace World

/-- The call of execution `i` becomes `call`. -/
def setCall (W : World) (i : Nat) (e : Execution) (call : Call) : World :=
  { W with executions := W.executions.set i { e with call := call } }

def step (lease : Duration) (W : World) : Event → Option World
  | .tick elapsed => some { W with now := W.now + elapsed }
  | .start worker =>
    if worker.config.leaseTimeout = lease then
      some { W with
        executions := W.executions ++
          [⟨worker, (worker.runOnce W.now).init, .sent (.reap lease)⟩] }
    else none
  | .outside statement skip =>
    match statement with
    | .insert _ _ => some { W with db := W.db.apply ⟨W.now, statement, skip⟩ }
    | .purge _ _ => some { W with db := W.db.apply ⟨W.now, statement, skip⟩ }
    | _ => none
  | .execute i skip =>
    match W.executions[i]? with
    | none => none
    | some e =>
      match e.call with
      | .sent s =>
        some (({ W with db := W.db.apply ⟨W.now, s, skip⟩ } : World).setCall i e
          (e.afterStatement s (s.exec skip W.now W.db.table)))
      | _ => none
  | .executeOrphan i skip =>
    match W.orphans[i]? with
    | none => none
    | some s =>
      some { W with db := W.db.apply ⟨W.now, s, skip⟩, orphans := W.orphans.eraseIdx i }
  | .disconnect i =>
    match W.executions[i]? with
    | none => none
    | some e =>
      match e.call with
      | .idle => none
      | .sent s =>
        some (({ W with orphans := s :: W.orphans } : World).setCall i e
          (.answered (s.reply (.error .refused))))
      | .answered reply => some (W.setCall i e (.answered reply.unavailable))
  | .poll i arrived renewalTimer deadlineTimer handler =>
    match W.executions[i]? with
    | none => none
    | some e =>
      match e.worker.poll e.run (e.pollAt W.now arrived renewalTimer deadlineTimer handler) with
      | none => none
      | some run' =>
        some { W with
          executions := W.executions.set i (e.resume run')
          orphans := e.abandoned run' ++ W.orphans }

end World

/-- All runs with lease timeout `lease` on one queue, from an empty table. -/
def world (lease : Duration) : Machine World Event where
  init := ⟨0, queue.init, [], []⟩
  step := World.step lease

/-- Statements that no run sends. -/
def Statement.FromOutside (s : Statement) : Prop :=
  (∃ job began, s = .insert job began) ∨
    ∃ completedOlderThan deadOlderThan, s = .purge completedOlderThan deadOlderThan

/-- What an event can do to a world. -/
inductive Happens (lease : Duration) (W : World) : World → Prop where
  | tick (elapsed : Duration) : Happens lease W { W with now := W.now + elapsed }
  | start (worker : JobWorker) (hlease : worker.config.leaseTimeout = lease) :
      Happens lease W
        { W with executions := W.executions ++
            [⟨worker, (worker.runOnce W.now).init, .sent (.reap lease)⟩] }
  | outside (s : Statement) (skip : List Uuid) (hs : s.FromOutside) :
      Happens lease W { W with db := W.db.apply ⟨W.now, s, skip⟩ }
  | execute (i : Nat) (skip : List Uuid) (e : Execution) (s : Statement)
      (he : W.executions[i]? = some e) (hcall : e.call = .sent s) :
      Happens lease W (({ W with db := W.db.apply ⟨W.now, s, skip⟩ } : World).setCall i e
        (e.afterStatement s (s.exec skip W.now W.db.table)))
  | executeOrphan (i : Nat) (skip : List Uuid) (s : Statement) (hs : W.orphans[i]? = some s) :
      Happens lease W
        { W with db := W.db.apply ⟨W.now, s, skip⟩, orphans := W.orphans.eraseIdx i }
  | disconnectSent (i : Nat) (e : Execution) (s : Statement) (he : W.executions[i]? = some e)
      (hcall : e.call = .sent s) :
      Happens lease W (({ W with orphans := s :: W.orphans } : World).setCall i e
        (.answered (s.reply (.error .refused))))
  | disconnectAnswered (i : Nat) (e : Execution) (reply : Reply)
      (he : W.executions[i]? = some e) (hcall : e.call = .answered reply) :
      Happens lease W (W.setCall i e (.answered reply.unavailable))
  | poll (i : Nat) (e : Execution) (run' : RunOnce)
      (arrived renewalTimer deadlineTimer : Bool) (handler : Option HandlerResult)
      (he : W.executions[i]? = some e)
      (hpoll : e.worker.poll e.run (e.pollAt W.now arrived renewalTimer deadlineTimer handler) =
        some run') :
      Happens lease W
        { W with
          executions := W.executions.set i (e.resume run')
          orphans := e.abandoned run' ++ W.orphans }

section Inversion

variable {lease : Duration} {W W' : World} {i : Nat} {skip : List Uuid}

theorem step_tick {elapsed : Duration} (h : (world lease).step W (.tick elapsed) = some W') :
    W' = { W with now := W.now + elapsed } := by
  cases h
  rfl

theorem step_start {worker : JobWorker} (h : (world lease).step W (.start worker) = some W') :
    worker.config.leaseTimeout = lease ∧ W' = { W with executions := W.executions ++
      [⟨worker, (worker.runOnce W.now).init, .sent (.reap lease)⟩] } := by
  simp only [world, World.step] at h
  split at h <;> cases h
  exact ⟨‹_›, rfl⟩

theorem step_outside {s : Statement} (h : (world lease).step W (.outside s skip) = some W') :
    s.FromOutside ∧ W' = { W with db := W.db.apply ⟨W.now, s, skip⟩ } := by
  simp only [world, World.step] at h
  split at h <;> cases h
  · exact ⟨Or.inl ⟨_, _, rfl⟩, rfl⟩
  · exact ⟨Or.inr ⟨_, _, rfl⟩, rfl⟩

theorem step_execute (h : (world lease).step W (.execute i skip) = some W') :
    ∃ e s, W.executions[i]? = some e ∧ e.call = .sent s ∧
      W' = ({ W with db := W.db.apply ⟨W.now, s, skip⟩ } : World).setCall i e
        (e.afterStatement s (s.exec skip W.now W.db.table)) := by
  simp only [world, World.step] at h
  split at h
  · cases h
  · split at h <;> cases h
    exact ⟨_, _, ‹_›, ‹_›, rfl⟩

theorem step_executeOrphan (h : (world lease).step W (.executeOrphan i skip) = some W') :
    ∃ s, W.orphans[i]? = some s ∧
      W' = { W with db := W.db.apply ⟨W.now, s, skip⟩, orphans := W.orphans.eraseIdx i } := by
  simp only [world, World.step] at h
  split at h <;> cases h
  exact ⟨_, ‹_›, rfl⟩

theorem step_disconnect (h : (world lease).step W (.disconnect i) = some W') :
    ∃ e, W.executions[i]? = some e ∧
      ((∃ s, e.call = .sent s ∧ W' = ({ W with orphans := s :: W.orphans } : World).setCall i e
          (.answered (s.reply (.error .refused)))) ∨
        ∃ reply, e.call = .answered reply ∧
          W' = W.setCall i e (.answered reply.unavailable)) := by
  simp only [world, World.step] at h
  split at h
  · cases h
  · next e he =>
    refine ⟨e, he, ?_⟩
    split at h <;> cases h
    · exact Or.inl ⟨_, ‹_›, rfl⟩
    · exact Or.inr ⟨_, ‹_›, rfl⟩

theorem step_poll {arrived renewalTimer deadlineTimer : Bool} {handler : Option HandlerResult}
    (h : (world lease).step W (.poll i arrived renewalTimer deadlineTimer handler) = some W') :
    ∃ e run', W.executions[i]? = some e ∧
      e.worker.poll e.run (e.pollAt W.now arrived renewalTimer deadlineTimer handler) =
        some run' ∧
      W' = { W with
        executions := W.executions.set i (e.resume run')
        orphans := e.abandoned run' ++ W.orphans } := by
  simp only [world, World.step] at h
  split at h
  · cases h
  · split at h <;> cases h
    exact ⟨_, _, ‹_›, ‹_›, rfl⟩

/-- **Inversion of `World.step`.** -/
theorem step_happens {event : Event} (h : (world lease).step W event = some W') :
    Happens lease W W' := by
  cases event with
  | tick elapsed =>
    rw [step_tick h]
    exact .tick elapsed
  | start worker =>
    obtain ⟨hlease, rfl⟩ := step_start h
    exact .start worker hlease
  | outside statement skip =>
    obtain ⟨hs, rfl⟩ := step_outside h
    exact .outside _ skip hs
  | execute i skip =>
    obtain ⟨e, s, he, hcall, rfl⟩ := step_execute h
    exact .execute i skip e s he hcall
  | executeOrphan i skip =>
    obtain ⟨s, hs, rfl⟩ := step_executeOrphan h
    exact .executeOrphan i skip s hs
  | disconnect i =>
    obtain ⟨e, he, ⟨s, hcall, rfl⟩ | ⟨reply, hcall, rfl⟩⟩ := step_disconnect h
    · exact .disconnectSent i e s he hcall
    · exact .disconnectAnswered i e reply he hcall
  | poll i arrived renewalTimer deadlineTimer handler =>
    obtain ⟨e, run', he, hpoll, rfl⟩ := step_poll h
    exact .poll i e run' arrived renewalTimer deadlineTimer handler he hpoll

end Inversion

/-- The database of a world only ever does what the queue can do. -/
theorem world_queue {lease : Duration} {W : World} (h : (world lease).Reachable W) :
    queue.Reachable W.db := by
  refine Machine.Reachable.simulate World.db rfl ?_ h
  intro W event W' _ hstep
  cases step_happens hstep with
  | outside s skip hs => exact Or.inr ⟨⟨W.now, s, skip⟩, rfl⟩
  | execute i skip e s he hcall => exact Or.inr ⟨⟨W.now, s, skip⟩, rfl⟩
  | executeOrphan i skip s hs => exact Or.inr ⟨⟨W.now, s, skip⟩, rfl⟩
  | _ => exact Or.inl rfl

end BaseSkeleton.Job
