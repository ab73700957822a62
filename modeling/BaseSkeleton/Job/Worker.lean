import BaseSkeleton.Lib.Machine
import BaseSkeleton.Job.Model

/-!
# `JobWorker::run_once` — one claimed job, from the claim to the terminal write

`src/application/job/worker.rs` as a machine that is driven by its environment. The future of
`run_once` is cut at every read of the clock and at every poll of something it waits for; a
`Phase` is such a point and carries the local variables that are live there.

* `Poll` — what the environment shows at one step: the clock, the timers that have fired, and
  the answers of the handler and of the queue, `none` standing for `Pending`. A timer may fire
  late or never, but not early.
* `JobWorker.poll` — one step. Both `select!`s are biased, so the earlier branch is asked first;
  `timeout_at` asks its future before its timer.
* `Action` — what the run did, recorded with the instant it did it at.

Time passes between any two steps. A call of the queue is sent at the instant the deadline was
last checked before it: no await lies between. Spans, metrics and log lines are left out.
-/

namespace BaseSkeleton.Job

/-- What a handler returns. -/
abbrev HandlerResult := Except JobHandlerError Unit

inductive RunOutcome where
  | idle
  | completed
  | retryScheduled
  | deadLettered
deriving DecidableEq

/-- The outcome a failed run reports. -/
def JobDisposition.outcome : JobDisposition → RunOutcome
  | .retryScheduled => .retryScheduled
  | .deadLettered => .deadLettered

structure JobWorkerConfig where
  workerId : String
  leaseTimeout : Duration
  retryBase : Duration
  retryMax : Duration

/-- A worker; `handlers` are the job types of the registered handlers. -/
structure JobWorker where
  handlers : List String
  config : JobWorkerConfig

/-- `(lease_timeout / 3).max(Duration::from_nanos(1))`. -/
def JobWorkerConfig.interval (c : JobWorkerConfig) : Duration :=
  max (c.leaseTimeout / 3) 1

/-- `(interval / 4).max(Duration::from_nanos(1))`. -/
def JobWorkerConfig.retryInterval (c : JobWorkerConfig) : Duration :=
  max (c.interval / 4) 1

/-- `retry_delay`. -/
def retryDelay (base maximum : Duration) (attempt : Nat) : Duration :=
  min (base.saturatingMul (2 ^ min (attempt - 1) 31)) maximum

/-! ## The state of a run

Each phase carries the variables of `run_once` that are read after it, under their names in the
source. -/

/-- Where a run is suspended or about to read the clock. -/
inductive Phase where
  /-- `claim(..).await` -/
  | claiming
  /-- the deadline check at the top of the loop -/
  | looping (job : ClaimedJob) (deadline nextRenewal : Instant)
  /-- the first `select!`: the renewal timer or the handler -/
  | selecting (job : ClaimedJob) (deadline nextRenewal : Instant)
  /-- `let renewal_started = Instant::now()` -/
  | renewalDue (job : ClaimedJob) (deadline : Instant)
  /-- the second `select!`, and `renewal.await` once the handler has `finished` -/
  | renewing (job : ClaimedJob) (deadline renewalStarted : Instant)
      (finished : Option HandlerResult)
  /-- the deadline check of `run_once` before the terminal write -/
  | settled (job : ClaimedJob) (result : HandlerResult) (deadline : Instant)
  | completing (job : ClaimedJob) (deadline : Instant)
  | failing (job : ClaimedJob) (message : String) (delay : Duration) (deadline : Instant)
  | returned (result : Except JobQueueError RunOutcome)

/-- The deadline of the phases that give up once it has passed. -/
def Phase.checks : Phase → Option Instant
  | looping _ deadline _ => some deadline
  | renewalDue _ deadline => some deadline
  | settled _ _ deadline => some deadline
  | completing _ deadline => some deadline
  | failing _ _ _ deadline => some deadline
  | _ => none

/-- What a run does that others can see. -/
inductive Action where
  | claimed (job : ClaimedJob)
  | handlerPending
  | handlerReturned (result : HandlerResult)
  | handlerMissing
  | renewSent
  | renewAnswered (answer : Except JobQueueError Unit)
  | renewTimedOut
  | completeSent
  | completeAnswered (answer : Except JobQueueError Unit)
  | failSent (message : String) (delay : Duration)
  | failAnswered (answer : Except JobQueueError JobDisposition)

/-- What a run did so far, newest first. -/
abbrev ActionLog := List (Instant × Action)

/-- A run of `run_once`. -/
structure RunOnce where
  claimedAt : Instant
  now : Instant
  phase : Phase
  log : ActionLog

/-- What the environment shows the run at one step. -/
structure Poll where
  now : Instant
  claim : Option (Except JobQueueError (Option ClaimedJob)) := none
  renewalTimer : Bool := false
  deadlineTimer : Bool := false
  handler : Option HandlerResult := none
  renew : Option (Except JobQueueError Unit) := none
  complete : Option (Except JobQueueError Unit) := none
  fail : Option (Except JobQueueError JobDisposition) := none

namespace RunOnce

/-- Move on without doing anything. -/
def enter (s : RunOnce) (now : Instant) (phase : Phase) : RunOnce :=
  { s with now := now, phase := phase }

/-- Do something and move on. -/
def record (s : RunOnce) (now : Instant) (action : Action) (phase : Phase) : RunOnce :=
  { s with now := now, phase := phase, log := (now, action) :: s.log }

end RunOnce

/-! ## Steps

A step looks at the clock once, and goes on to the next point of the source where the clock is read
again or something is waited for. -/

namespace JobWorker

/-- One poll of the `handler` block; a job type nobody handles is an immediate error. -/
def pollHandler (w : JobWorker) (job : ClaimedJob) (handler : Option HandlerResult) :
    Action × Option HandlerResult :=
  if job.jobType ∈ w.handlers then
    match handler with
    | none => (.handlerPending, none)
    | some result => (.handlerReturned result, some result)
  else
    (.handlerMissing,
      some (.error ⟨"no handler is registered for job type " ++ job.jobType⟩))

/-- The end of a loop iteration: `return` if the handler finished during the renewal. -/
def resume (job : ClaimedJob) (deadline nextRenewal : Instant) : Option HandlerResult → Phase
  | none => .looping job deadline nextRenewal
  | some result => .settled job result deadline

/-- `match renewal { .. }`. -/
def afterRenewal (w : JobWorker) (job : ClaimedJob) (deadline renewalStarted now : Instant)
    (finished : Option HandlerResult) : Except JobQueueError Unit → Phase
  | .ok () =>
    -- counted from before the statement was sent: the row was renewed no earlier
    resume job (renewalStarted + w.config.leaseTimeout) (renewalStarted + w.config.interval)
      finished
  | .error .leaseLost => .returned (.error .leaseLost)
  -- the stored lease is unchanged: the old deadline stays, and the renewal is tried again
  | .error .unavailable => resume job deadline (now + w.config.retryInterval) finished

/-- One step of `run_once`; a run that has returned makes none. -/
def poll (w : JobWorker) (s : RunOnce) (p : Poll) : Option RunOnce :=
  -- the clock is monotonic
  if p.now < s.now then none
  else
    match s.phase with
    | .claiming =>
      match p.claim with
      | none => some (s.enter p.now .claiming)
      | some (.error e) => some (s.enter p.now (.returned (.error e)))
      | some (.ok none) => some (s.enter p.now (.returned (.ok .idle)))
      | some (.ok (some job)) =>
        some (s.record p.now (.claimed job)
          (.looping job (s.claimedAt + w.config.leaseTimeout) (s.claimedAt + w.config.interval)))
    | .looping job deadline nextRenewal =>
      if p.now ≥ deadline then some (s.enter p.now (.returned (.error .leaseLost)))
      else some (s.enter p.now (.selecting job deadline nextRenewal))
    | .selecting job deadline nextRenewal =>
      -- `biased`: the renewal timer is polled before the handler
      if p.renewalTimer ∧ nextRenewal ≤ p.now then some (s.enter p.now (.renewalDue job deadline))
      else
        -- `timeout_at` polls the handler before it looks at the deadline
        match w.pollHandler job p.handler with
        | (action, some result) => some (s.record p.now action (.settled job result deadline))
        | (action, none) =>
          if p.deadlineTimer ∧ deadline ≤ p.now then
            some (s.record p.now action (.returned (.error .leaseLost)))
          else some (s.record p.now action (.selecting job deadline nextRenewal))
    | .renewalDue job deadline =>
      if p.now ≥ deadline then some (s.enter p.now (.returned (.error .leaseLost)))
      else some (s.record p.now .renewSent (.renewing job deadline p.now none))
    | .renewing job deadline renewalStarted finished =>
      -- `biased`: the renewal, and with it its own timeout, is polled before the handler
      match p.renew with
      | some answer =>
        some (s.record p.now (.renewAnswered answer)
          (w.afterRenewal job deadline renewalStarted p.now finished answer))
      | none =>
        if p.deadlineTimer ∧ deadline ≤ p.now then
          some (s.record p.now .renewTimedOut (.returned (.error .leaseLost)))
        else
          match finished with
          -- the handler has returned and is not polled again
          | some result =>
            some (s.enter p.now (.renewing job deadline renewalStarted (some result)))
          | none =>
            match w.pollHandler job p.handler with
            | (action, result) =>
              some (s.record p.now action (.renewing job deadline renewalStarted result))
    | .settled job result deadline =>
      -- nothing is written at or after the deadline
      if p.now ≥ deadline then some (s.enter p.now (.returned (.error .leaseLost)))
      else
        match result with
        | .ok () => some (s.record p.now .completeSent (.completing job deadline))
        | .error error =>
          let delay := retryDelay w.config.retryBase w.config.retryMax job.attempts
          some (s.record p.now (.failSent error.message delay)
            (.failing job error.message delay deadline))
    | .completing job deadline =>
      match p.complete with
      | some answer =>
        some (s.record p.now (.completeAnswered answer)
          (.returned (answer.map fun _ => .completed)))
      | none =>
        if p.deadlineTimer ∧ deadline ≤ p.now then
          some (s.enter p.now (.returned (.error .leaseLost)))
        else some (s.enter p.now (.completing job deadline))
    | .failing job message delay deadline =>
      match p.fail with
      | some answer =>
        some (s.record p.now (.failAnswered answer)
          (.returned (answer.map JobDisposition.outcome)))
      | none =>
        if p.deadlineTimer ∧ deadline ≤ p.now then
          some (s.enter p.now (.returned (.error .leaseLost)))
        else some (s.enter p.now (.failing job message delay deadline))
    | .returned _ => none

/-- `run_once`, called at `start`. -/
def runOnce (w : JobWorker) (start : Instant) : Machine RunOnce Poll where
  init := ⟨start, start, .claiming, []⟩
  step := w.poll

/-! ## What a step can do

The inversion of `poll`. Every invariant of a run is proved by cases on `Move`, without unfolding
`poll`. -/

/-- One step of a run: the phase it leaves, what it does, and the phase it enters. -/
inductive Move (w : JobWorker) (claimedAt : Instant) (p : Poll) :
    Phase → Option Action → Phase → Prop where
  | claimPending (h : p.claim = none) : Move w claimedAt p .claiming none .claiming
  | claimFailed (e : JobQueueError) (h : p.claim = some (.error e)) :
      Move w claimedAt p .claiming none (.returned (.error e))
  | idle (h : p.claim = some (.ok none)) :
      Move w claimedAt p .claiming none (.returned (.ok .idle))
  | claimed (job : ClaimedJob) (h : p.claim = some (.ok (some job))) :
      Move w claimedAt p .claiming (some (.claimed job))
        (.looping job (claimedAt + w.config.leaseTimeout) (claimedAt + w.config.interval))
  | select (job : ClaimedJob) (deadline nextRenewal : Instant) (h : p.now < deadline) :
      Move w claimedAt p (.looping job deadline nextRenewal) none
        (.selecting job deadline nextRenewal)
  | renewalDue (job : ClaimedJob) (deadline nextRenewal : Instant)
      (h : p.renewalTimer ∧ nextRenewal ≤ p.now) :
      Move w claimedAt p (.selecting job deadline nextRenewal) none (.renewalDue job deadline)
  | handled (job : ClaimedJob) (deadline nextRenewal : Instant) (action : Action)
      (result : HandlerResult) (h : w.pollHandler job p.handler = (action, some result)) :
      Move w claimedAt p (.selecting job deadline nextRenewal) (some action)
        (.settled job result deadline)
  | handlerPending (job : ClaimedJob) (deadline nextRenewal : Instant) (action : Action)
      (h : w.pollHandler job p.handler = (action, none)) :
      Move w claimedAt p (.selecting job deadline nextRenewal) (some action)
        (.selecting job deadline nextRenewal)
  | handlerTimedOut (job : ClaimedJob) (deadline nextRenewal : Instant) (action : Action)
      (h : w.pollHandler job p.handler = (action, none)) (hexpired : deadline ≤ p.now) :
      Move w claimedAt p (.selecting job deadline nextRenewal) (some action)
        (.returned (.error .leaseLost))
  | sendRenew (job : ClaimedJob) (deadline : Instant) (h : p.now < deadline) :
      Move w claimedAt p (.renewalDue job deadline) (some .renewSent)
        (.renewing job deadline p.now none)
  | renewAnswered (job : ClaimedJob) (deadline renewalStarted : Instant)
      (finished : Option HandlerResult) (answer : Except JobQueueError Unit)
      (h : p.renew = some answer) :
      Move w claimedAt p (.renewing job deadline renewalStarted finished)
        (some (.renewAnswered answer))
        (w.afterRenewal job deadline renewalStarted p.now finished answer)
  | renewTimedOut (job : ClaimedJob) (deadline renewalStarted : Instant)
      (finished : Option HandlerResult) (h : p.renew = none) (hexpired : deadline ≤ p.now) :
      Move w claimedAt p (.renewing job deadline renewalStarted finished) (some .renewTimedOut)
        (.returned (.error .leaseLost))
  | renewPending (job : ClaimedJob) (deadline renewalStarted : Instant) (result : HandlerResult)
      (h : p.renew = none) :
      Move w claimedAt p (.renewing job deadline renewalStarted (some result)) none
        (.renewing job deadline renewalStarted (some result))
  | renewPendingHandled (job : ClaimedJob) (deadline renewalStarted : Instant) (action : Action)
      (result : Option HandlerResult) (h : p.renew = none)
      (hpoll : w.pollHandler job p.handler = (action, result)) :
      Move w claimedAt p (.renewing job deadline renewalStarted none) (some action)
        (.renewing job deadline renewalStarted result)
  | sendComplete (job : ClaimedJob) (deadline : Instant) (h : p.now < deadline) :
      Move w claimedAt p (.settled job (.ok ()) deadline) (some .completeSent)
        (.completing job deadline)
  | sendFail (job : ClaimedJob) (error : JobHandlerError) (deadline : Instant)
      (h : p.now < deadline) :
      Move w claimedAt p (.settled job (.error error) deadline)
        (some (.failSent error.message
          (retryDelay w.config.retryBase w.config.retryMax job.attempts)))
        (.failing job error.message
          (retryDelay w.config.retryBase w.config.retryMax job.attempts) deadline)
  | completeAnswered (job : ClaimedJob) (deadline : Instant) (answer : Except JobQueueError Unit)
      (h : p.complete = some answer) :
      Move w claimedAt p (.completing job deadline) (some (.completeAnswered answer))
        (.returned (answer.map fun _ => .completed))
  | completePending (job : ClaimedJob) (deadline : Instant) (h : p.complete = none) :
      Move w claimedAt p (.completing job deadline) none (.completing job deadline)
  | failAnswered (job : ClaimedJob) (message : String) (delay : Duration) (deadline : Instant)
      (answer : Except JobQueueError JobDisposition) (h : p.fail = some answer) :
      Move w claimedAt p (.failing job message delay deadline) (some (.failAnswered answer))
        (.returned (answer.map JobDisposition.outcome))
  | failPending (job : ClaimedJob) (message : String) (delay : Duration) (deadline : Instant)
      (h : p.fail = none) :
      Move w claimedAt p (.failing job message delay deadline) none
        (.failing job message delay deadline)
  | expired (phase : Phase) (deadline : Instant) (h : phase.checks = some deadline)
      (hexpired : deadline ≤ p.now) :
      Move w claimedAt p phase none (.returned (.error .leaseLost))

/-- **Inversion of `poll`.** A step is a move, and the log grows by what it does. -/
theorem poll_move {w : JobWorker} {s s' : RunOnce} {p : Poll} (h : w.poll s p = some s') :
    s.now ≤ p.now ∧ ∃ action, Move w s.claimedAt p s.phase action s'.phase ∧
      s'.claimedAt = s.claimedAt ∧ s'.now = p.now ∧
      s'.log = (action.map fun a => (p.now, a)).toList ++ s.log := by
  unfold poll at h
  split at h
  · cases h
  · next hnow =>
    refine ⟨Nat.le_of_not_lt hnow, ?_⟩
    generalize hphase : s.phase = phase at h ⊢
    cases phase with
    | claiming =>
      simp only at h
      split at h <;> cases h
      · exact ⟨none, .claimPending ‹_›, rfl, rfl, rfl⟩
      · exact ⟨none, .claimFailed _ ‹_›, rfl, rfl, rfl⟩
      · exact ⟨none, .idle ‹_›, rfl, rfl, rfl⟩
      · exact ⟨some _, .claimed _ ‹_›, rfl, rfl, rfl⟩
    | looping job deadline nextRenewal =>
      simp only at h
      split at h <;> cases h
      · exact ⟨none, .expired _ deadline rfl ‹_›, rfl, rfl, rfl⟩
      · exact ⟨none, .select job deadline nextRenewal (Nat.lt_of_not_le ‹_›), rfl, rfl, rfl⟩
    -- the biased order: the timer of the renewal, the handler, the deadline
    | selecting job deadline nextRenewal =>
      simp only at h
      split at h
      · cases h
        exact ⟨none, .renewalDue job deadline nextRenewal ‹_›, rfl, rfl, rfl⟩
      · split at h
        · cases h
          exact ⟨some _, .handled job deadline nextRenewal _ _ ‹_›, rfl, rfl, rfl⟩
        · next hpoll =>
          split at h <;> cases h
          · next hexpired =>
            exact ⟨some _, .handlerTimedOut job deadline nextRenewal _ hpoll hexpired.2,
              rfl, rfl, rfl⟩
          · exact ⟨some _, .handlerPending job deadline nextRenewal _ hpoll, rfl, rfl, rfl⟩
    | renewalDue job deadline =>
      simp only at h
      split at h <;> cases h
      · exact ⟨none, .expired _ deadline rfl ‹_›, rfl, rfl, rfl⟩
      · exact ⟨some _, .sendRenew job deadline (Nat.lt_of_not_le ‹_›), rfl, rfl, rfl⟩
    -- the renewal and its timeout are asked first, then the handler
    | renewing job deadline renewalStarted finished =>
      simp only at h
      split at h
      · cases h
        exact ⟨some _, .renewAnswered job deadline renewalStarted finished _ ‹_›, rfl, rfl, rfl⟩
      · next hrenew =>
        split at h
        · next hexpired =>
          cases h
          exact ⟨some _, .renewTimedOut job deadline renewalStarted finished hrenew hexpired.2,
            rfl, rfl, rfl⟩
        · split at h <;> cases h
          · exact ⟨none, .renewPending job deadline renewalStarted _ hrenew, rfl, rfl, rfl⟩
          · exact ⟨some _, .renewPendingHandled job deadline renewalStarted _ _ hrenew rfl,
              rfl, rfl, rfl⟩
    -- the last look at the clock before a terminal write
    | settled job result deadline =>
      simp only at h
      split at h
      · cases h
        exact ⟨none, .expired _ deadline rfl ‹_›, rfl, rfl, rfl⟩
      · split at h <;> cases h
        · exact ⟨some _, .sendComplete job deadline (Nat.lt_of_not_le ‹_›), rfl, rfl, rfl⟩
        · exact ⟨some _, .sendFail job _ deadline (Nat.lt_of_not_le ‹_›), rfl, rfl, rfl⟩
    | completing job deadline =>
      simp only at h
      split at h
      · cases h
        exact ⟨some _, .completeAnswered job deadline _ ‹_›, rfl, rfl, rfl⟩
      · next hcomplete =>
        split at h <;> cases h
        · next hexpired => exact ⟨none, .expired _ deadline rfl hexpired.2, rfl, rfl, rfl⟩
        · exact ⟨none, .completePending job deadline hcomplete, rfl, rfl, rfl⟩
    | failing job message delay deadline =>
      simp only at h
      split at h
      · cases h
        exact ⟨some _, .failAnswered job message delay deadline _ ‹_›, rfl, rfl, rfl⟩
      · next hfail =>
        split at h <;> cases h
        · next hexpired => exact ⟨none, .expired _ deadline rfl hexpired.2, rfl, rfl, rfl⟩
        · exact ⟨none, .failPending job message delay deadline hfail, rfl, rfl, rfl⟩
    | returned result => cases h

end JobWorker

end BaseSkeleton.Job
