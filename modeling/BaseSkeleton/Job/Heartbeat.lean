import BaseSkeleton.Job.WorkerProtocol

/-!
# A healthy heartbeat, seen from the run

Timers fire on time and every call of the run is answered in less than half a lease. Then each
renewal is started with more than half of the lease left, because a third of a lease and the half
that a call may take are less than a lease together, and the deadline is never reached.

* `Phase.WaitsUntil` — how far the clock may go before the run is polled.
* `Timely` — what the clock has left in each phase; `timely_move` and `timely_wait` keep it.
* `Timely.now_lt` — a run that has not returned is not far behind its handler.
-/

namespace BaseSkeleton.Job

/-- More than half of the lease that ends at `deadline` is left at `t`. -/
def HalfLeft (lease : Duration) (deadline t : Instant) : Prop :=
  2 * t + lease < 2 * deadline

/-- At `t` less than half a lease has passed since `started`. -/
def InTime (lease : Duration) (started t : Instant) : Prop :=
  2 * t < 2 * started + lease

instance (lease : Duration) (started t : Instant) : Decidable (InTime lease started t) :=
  inferInstanceAs (Decidable (2 * t < 2 * started + lease))

/-- A handler that returns `result` when it is polled at `ready` or later. -/
structure HandlerRun where
  ready : Instant
  result : HandlerResult

def HandlerRun.poll (handler : HandlerRun) (now : Instant) : Option HandlerResult :=
  if handler.ready ≤ now then some handler.result else none

/-- When the `complete` or the `fail` was sent. -/
def writeStart : ActionLog → Instant
  | [] => 0
  | (t, .completeSent) :: _ => t
  | (t, .failSent _ _) :: _ => t
  | _ :: log => writeStart log

/-- The run need not be polled before `t`: its timers are not due, its handler has no result it
could be shown, and its call has taken less than half a lease. Between two awaits no time passes. -/
def Phase.WaitsUntil (lease : Duration) (handler : HandlerRun) (claimedAt : Instant)
    (log : ActionLog) (t : Instant) : Phase → Prop
  | .claiming => InTime lease claimedAt t
  | .selecting _ _ nextRenewal => t ≤ nextRenewal ∧ t ≤ handler.ready
  | .renewing _ _ renewalStarted none => InTime lease renewalStarted t ∧ t ≤ handler.ready
  | .renewing _ _ renewalStarted (some _) => InTime lease renewalStarted t
  | .completing _ _ => InTime lease (writeStart log) t
  | .failing _ _ _ _ => InTime lease (writeStart log) t
  | .returned _ => True
  | .looping _ _ _ => False
  | .renewalDue _ _ => False
  | .settled _ _ _ => False

instance (lease : Duration) (handler : HandlerRun) (claimedAt : Instant) (log : ActionLog)
    (t : Instant) : (phase : Phase) → Decidable (phase.WaitsUntil lease handler claimedAt log t)
  | .claiming => inferInstanceAs (Decidable (InTime lease claimedAt t))
  | .selecting _ _ nextRenewal =>
    inferInstanceAs (Decidable (t ≤ nextRenewal ∧ t ≤ handler.ready))
  | .renewing _ _ renewalStarted none =>
    inferInstanceAs (Decidable (InTime lease renewalStarted t ∧ t ≤ handler.ready))
  | .renewing _ _ renewalStarted (some _) =>
    inferInstanceAs (Decidable (InTime lease renewalStarted t))
  | .completing _ _ => inferInstanceAs (Decidable (InTime lease (writeStart log) t))
  | .failing _ _ _ _ => inferInstanceAs (Decidable (InTime lease (writeStart log) t))
  | .returned _ => .isTrue trivial
  | .looping _ _ _ => .isFalse id
  | .renewalDue _ _ => .isFalse id
  | .settled _ _ _ => .isFalse id

/-! ## How a run ends

In terms of the handler alone. The theorem says that the run ends so; the lease does not occur in
it. -/

/-- What a failed attempt of the job comes to. -/
def ClaimedJob.disposition (job : ClaimedJob) : JobDisposition :=
  if job.attempts ≥ job.maxAttempts then .deadLettered else .retryScheduled

/-- The outcome of a run of the job, given the result of its handler. -/
def ClaimedJob.outcome (job : ClaimedJob) : HandlerResult → RunOutcome
  | .ok () => .completed
  | .error _ => job.disposition.outcome

/-- The handler of the job was run to `result`; a job type nobody handles is an error. -/
def RanTo (w : JobWorker) (handler : HandlerRun) (job : ClaimedJob) (result : HandlerResult)
    (log : ActionLog) : Prop :=
  (job.jobType ∈ w.handlers ∧ result = handler.result ∧
      ∃ t, handler.ready ≤ t ∧ (t, .handlerReturned result) ∈ log) ∨
    (job.jobType ∉ w.handlers ∧ (∃ error, result = .error error) ∧
      ∃ t, (t, .handlerMissing) ∈ log)

/-- The run has found no job, or has run the handler of its job and reports the outcome. -/
def Concluded (w : JobWorker) (handler : HandlerRun) (log : ActionLog)
    (returned : Except JobQueueError RunOutcome) : Prop :=
  (claimedJob log = none ∧ returned = .ok .idle) ∨
    ∃ job result, claimedJob log = some job ∧ RanTo w handler job result log ∧
      returned = .ok (job.outcome result)

/-! ## What the clock has left

More than half a lease before a call, and some of it after: an invariant with one line for each
phase. -/

/-- The handler has its result by then. -/
def handlerLimit (w : JobWorker) (handler : HandlerRun) (claimedAt : Instant) : Instant :=
  max handler.ready (claimedAt + w.config.leaseTimeout)

/-- Where the clock is in each phase. -/
def Timely (w : JobWorker) (handler : HandlerRun) (claimedAt : Instant) (log : ActionLog)
    (now : Instant) : Phase → Prop
  | .claiming => InTime w.config.leaseTimeout claimedAt now
  | .looping _ deadline nextRenewal =>
    HalfLeft w.config.leaseTimeout deadline now ∧
      nextRenewal + w.config.leaseTimeout = deadline + w.config.interval ∧
      now ≤ handlerLimit w handler claimedAt
  | .selecting _ deadline nextRenewal =>
    HalfLeft w.config.leaseTimeout deadline now ∧
      nextRenewal + w.config.leaseTimeout = deadline + w.config.interval ∧
      now ≤ handlerLimit w handler claimedAt
  | .renewalDue _ deadline =>
    HalfLeft w.config.leaseTimeout deadline now ∧ now ≤ handlerLimit w handler claimedAt
  | .renewing job deadline renewalStarted finished =>
    HalfLeft w.config.leaseTimeout deadline renewalStarted ∧
      InTime w.config.leaseTimeout renewalStarted now ∧
      renewalStarted ≤ handlerLimit w handler claimedAt ∧
      (finished = none → now ≤ handlerLimit w handler claimedAt) ∧
      ∀ result, finished = some result → RanTo w handler job result log
  | .settled job result deadline =>
    HalfLeft w.config.leaseTimeout deadline now ∧
      InTime w.config.leaseTimeout (handlerLimit w handler claimedAt) now ∧
      RanTo w handler job result log
  | .completing job deadline =>
    deadline = ownedUntil w.config.leaseTimeout claimedAt log ∧
      HalfLeft w.config.leaseTimeout deadline (writeStart log) ∧
      InTime w.config.leaseTimeout (handlerLimit w handler claimedAt) (writeStart log) ∧
      InTime w.config.leaseTimeout (writeStart log) now ∧ RanTo w handler job (.ok ()) log
  | .failing job message _ deadline =>
    deadline = ownedUntil w.config.leaseTimeout claimedAt log ∧
      HalfLeft w.config.leaseTimeout deadline (writeStart log) ∧
      InTime w.config.leaseTimeout (handlerLimit w handler claimedAt) (writeStart log) ∧
      InTime w.config.leaseTimeout (writeStart log) now ∧
      RanTo w handler job (.error ⟨message⟩) log
  | .returned returned => Concluded w handler log returned

variable {w : JobWorker} {handler : HandlerRun} {claimedAt now t : Instant} {log : ActionLog}
  {p : Poll} {job : ClaimedJob} {lease : Duration} {deadline started : Instant}

/-- Who has half of the lease left has not reached the deadline. -/
theorem HalfLeft.lt (h : HalfLeft lease deadline t) : t < deadline := by
  unfold HalfLeft at h
  lia

/-- Half a lease after a moment with half a lease left. -/
theorem HalfLeft.lt_of_inTime (h : HalfLeft lease deadline started)
    (ht : InTime lease started t) : t < deadline := by
  unfold HalfLeft at h
  unfold InTime at ht
  lia

/-- A call that has just been started is in time. -/
theorem inTime_self (hlease : 0 < lease) : InTime lease t t := by
  unfold InTime
  lia

/-- The lease that is counted from `started`. -/
theorem halfLeft_add (h : InTime lease started t) : HalfLeft lease (started + lease) t := by
  unfold InTime at h
  unfold HalfLeft
  lia

/-- The timer of a renewal is due before half of the lease is used up. -/
theorem two_interval_lt (hlease : 3 ≤ w.config.leaseTimeout) :
    2 * w.config.interval < w.config.leaseTimeout := by
  have hinterval : w.config.interval = max (w.config.leaseTimeout / 3) 1 := rfl
  lia

/-- An end that was reached stays reached. -/
theorem RanTo.cons {result : HandlerResult} (h : RanTo w handler job result log) (t : Instant)
    (action : Action) : RanTo w handler job result ((t, action) :: log) := by
  rcases h with ⟨hin, hresult, t', hready, hmem⟩ | ⟨hout, herror, t', hmem⟩
  · exact Or.inl ⟨hin, hresult, t', hready, List.mem_cons_of_mem _ hmem⟩
  · exact Or.inr ⟨hout, herror, t', List.mem_cons_of_mem _ hmem⟩

/-- A poll of the handler that yields a result has run it to the result. -/
theorem ranTo_of_pollHandler {action : Action} {result : HandlerResult}
    (h : w.pollHandler job (handler.poll now) = (action, some result)) (log : ActionLog) :
    RanTo w handler job result ((now, action) :: log) := by
  unfold JobWorker.pollHandler HandlerRun.poll at h
  by_cases hin : job.jobType ∈ w.handlers
  · rw [if_pos hin] at h
    by_cases hready : handler.ready ≤ now
    · rw [if_pos hready] at h
      cases h
      exact Or.inl ⟨hin, rfl, now, hready, List.mem_cons_self⟩
    · rw [if_neg hready] at h
      cases h
  · rw [if_neg hin] at h
    cases h
    exact Or.inr ⟨hin, ⟨_, rfl⟩, now, List.mem_cons_self⟩

/-! ## Waiting

The clock moves on while the run waits; how far is what `WaitsUntil` says of each phase. -/

/-- **Waiting keeps the time that is needed.** -/
theorem Timely.wait {phase : Phase} (hlease : 3 ≤ w.config.leaseTimeout)
    (h : Timely w handler claimedAt log now phase)
    (hwait : phase.WaitsUntil w.config.leaseTimeout handler claimedAt log t) :
    Timely w handler claimedAt log t phase := by
  have hlimit : handler.ready ≤ handlerLimit w handler claimedAt := Nat.le_max_left _ _
  cases phase with
  | claiming => exact hwait
  | selecting job deadline nextRenewal =>
    obtain ⟨_, hnext, _⟩ := h
    obtain ⟨htimer, hready⟩ := hwait
    have hinterval := two_interval_lt hlease
    refine ⟨?_, hnext, Nat.le_trans hready hlimit⟩
    show 2 * t + w.config.leaseTimeout < 2 * deadline
    lia
  | renewing job deadline renewalStarted finished =>
    obtain ⟨hhalf, _, hstarted, _, hran⟩ := h
    cases finished with
    | none => exact ⟨hhalf, hwait.1, hstarted, fun _ => Nat.le_trans hwait.2 hlimit, hran⟩
    | some result => exact ⟨hhalf, hwait, hstarted, fun h => (nomatch h), hran⟩
  | completing job deadline =>
    obtain ⟨hdeadline, hhalf, hsent, _, hran⟩ := h
    exact ⟨hdeadline, hhalf, hsent, hwait, hran⟩
  | failing job message delay deadline =>
    obtain ⟨hdeadline, hhalf, hsent, _, hran⟩ := h
    exact ⟨hdeadline, hhalf, hsent, hwait, hran⟩
  | returned returned => exact h
  | looping job deadline nextRenewal => exact False.elim hwait
  | renewalDue job deadline => exact False.elim hwait
  | settled job result deadline => exact False.elim hwait

/-- A run that has not returned is at most one lease behind its handler. -/
theorem Timely.now_lt {phase : Phase} (hlease : 3 ≤ w.config.leaseTimeout)
    (h : Timely w handler claimedAt log now phase)
    (hphase : ∀ returned, phase ≠ .returned returned) :
    now < handlerLimit w handler claimedAt + w.config.leaseTimeout := by
  have hlimit : claimedAt + w.config.leaseTimeout ≤ handlerLimit w handler claimedAt :=
    Nat.le_max_right _ _
  cases phase with
  -- The last call of a run starts within half a lease after the limit of the handler, and every
  -- call is answered within half a lease.
  | claiming =>
    have hclaim : 2 * now < 2 * claimedAt + w.config.leaseTimeout := h
    lia
  | looping job deadline nextRenewal =>
    have hnow := h.2.2
    lia
  | selecting job deadline nextRenewal =>
    have hnow := h.2.2
    lia
  | renewalDue job deadline =>
    have hnow := h.2
    lia
  | renewing job deadline renewalStarted finished =>
    have hcall : 2 * now < 2 * renewalStarted + w.config.leaseTimeout := h.2.1
    have hstarted := h.2.2.1
    lia
  | settled job result deadline =>
    have hnow : 2 * now < 2 * handlerLimit w handler claimedAt + w.config.leaseTimeout := h.2.1
    lia
  | completing job deadline =>
    have hsent : 2 * writeStart log <
        2 * handlerLimit w handler claimedAt + w.config.leaseTimeout := h.2.2.1
    have hcall : 2 * now < 2 * writeStart log + w.config.leaseTimeout := h.2.2.2.1
    lia
  | failing job message delay deadline =>
    have hsent : 2 * writeStart log <
        2 * handlerLimit w handler claimedAt + w.config.leaseTimeout := h.2.2.1
    have hcall : 2 * now < 2 * writeStart log + w.config.leaseTimeout := h.2.2.2.1
    lia
  | returned returned => exact absurd rfl (hphase returned)

/-! ## Moving

A poll moves on in the phases of `run_once`; after each move there is again enough time for the next
wait. -/

/-- The answers a healthy run is shown. -/
structure GoodAnswers (phase : Phase) (p : Poll) : Prop where
  claim : ∀ answer, p.claim = some answer → ∃ found, answer = .ok found
  renew : ∀ answer, p.renew = some answer → answer = .ok ()
  complete : ∀ answer, p.complete = some answer → answer = .ok ()
  fail : ∀ answer job message delay deadline, p.fail = some answer →
    phase = .failing job message delay deadline → answer = .ok job.disposition

/-- Where the code checks the deadline it has not passed. -/
theorem Timely.lt_of_checks {phase : Phase} (h : Timely w handler claimedAt log now phase)
    (hchecks : phase.checks = some deadline) : now < deadline := by
  cases phase with
  | looping job deadline nextRenewal =>
    cases hchecks
    exact h.1.lt
  | renewalDue job deadline =>
    cases hchecks
    exact h.1.lt
  | settled job result deadline =>
    cases hchecks
    exact h.1.lt
  | completing job deadline =>
    cases hchecks
    exact h.2.1.lt_of_inTime h.2.2.2.1
  | failing job message delay deadline =>
    cases hchecks
    exact h.2.1.lt_of_inTime h.2.2.2.1
  | _ => cases hchecks

/-- **The step lemma.** A run that is shown good answers stays in time. -/
theorem timely_move {phase phase' : Phase} {action : Option Action}
    (hlease : 3 ≤ w.config.leaseTimeout) (h : w.Move claimedAt p phase action phase')
    (hs : Suspended w claimedAt log phase) (ht : Timely w handler claimedAt log p.now phase)
    (hhandler : p.handler = handler.poll p.now) (hgood : GoodAnswers phase p) :
    Timely w handler claimedAt ((action.map fun a => (p.now, a)).toList ++ log) p.now phase' := by
  have hlimit : claimedAt + w.config.leaseTimeout ≤ handlerLimit w handler claimedAt :=
    Nat.le_max_right _ _
  have hself : InTime w.config.leaseTimeout p.now p.now := inTime_self (by lia)
  -- a result at the limit of the handler is not late
  have hnotLate : p.now ≤ handlerLimit w handler claimedAt →
      InTime w.config.leaseTimeout (handlerLimit w handler claimedAt) p.now := by
    intro hnow
    show 2 * p.now < 2 * handlerLimit w handler claimedAt + w.config.leaseTimeout
    lia
  cases h with
  | claimPending _ => exact ht
  -- good answers do not fail
  | claimFailed e hclaim =>
    obtain ⟨_, hok⟩ := hgood.claim _ hclaim
    cases hok
  | idle _ =>
    obtain rfl : log = [] := hs
    exact Or.inl ⟨rfl, rfl⟩
  | claimed job _ =>
    refine ⟨halfLeft_add ht, by lia, ?_⟩
    have hclaim : 2 * p.now < 2 * claimedAt + w.config.leaseTimeout := ht
    lia
  | select job deadline nextRenewal _ => exact ht
  | renewalDue job deadline nextRenewal _ => exact ⟨ht.1, ht.2.2⟩
  | handled job deadline nextRenewal action result hpoll =>
    rw [hhandler] at hpoll
    exact ⟨ht.1, hnotLate ht.2.2, ranTo_of_pollHandler hpoll log⟩
  | handlerPending job deadline nextRenewal action _ => exact ht
  -- a renewal has kept the deadline ahead of the clock
  | handlerTimedOut job deadline nextRenewal action _ hexpired =>
    exact absurd ht.1.lt (Nat.not_lt_of_le hexpired)
  | sendRenew job deadline _ =>
    exact ⟨ht.1, hself, ht.2, fun _ => ht.2, fun _ h => (nomatch h)⟩
  | renewAnswered job deadline renewalStarted finished answer hrenew =>
    obtain ⟨_, hcall, hstarted, hpending, hran⟩ := ht
    obtain rfl := hgood.renew _ hrenew
    cases finished with
    | none => exact ⟨halfLeft_add hcall, by lia, hpending rfl⟩
    | some result =>
      refine ⟨halfLeft_add hcall, ?_, (hran result rfl).cons _ _⟩
      have hrenewal : 2 * p.now < 2 * renewalStarted + w.config.leaseTimeout := hcall
      show 2 * p.now < 2 * handlerLimit w handler claimedAt + w.config.leaseTimeout
      lia
  -- the answer is in time, and it was due before the deadline
  | renewTimedOut job deadline renewalStarted finished _ hexpired =>
    exact absurd (ht.1.lt_of_inTime ht.2.1) (Nat.not_lt_of_le hexpired)
  | renewPending job deadline renewalStarted result _ => exact ht
  | renewPendingHandled job deadline renewalStarted action result _ hpoll =>
    obtain ⟨hhalf, hcall, hstarted, hpending, _⟩ := ht
    refine ⟨hhalf, hcall, hstarted, fun _ => hpending rfl, fun result' hresult => ?_⟩
    rw [hhandler, hresult] at hpoll
    exact ranTo_of_pollHandler hpoll log
  | sendComplete job deadline _ =>
    obtain ⟨hhalf, hlate, hran⟩ := ht
    exact ⟨hs.1.deadline_eq, hhalf, hlate, hself, hran.cons _ _⟩
  | sendFail job error deadline _ =>
    obtain ⟨hhalf, hlate, hran⟩ := ht
    exact ⟨hs.1.deadline_eq, hhalf, hlate, hself, hran.cons _ _⟩
  | completeAnswered job deadline answer hcomplete =>
    obtain rfl := hgood.complete _ hcomplete
    exact Or.inr ⟨job, .ok (), hs.1, ht.2.2.2.2.cons _ _, rfl⟩
  | completePending job deadline _ => exact ht
  | failAnswered job message delay deadline answer hfail =>
    obtain rfl := hgood.fail _ job message delay deadline hfail rfl
    exact Or.inr ⟨job, .error ⟨message⟩, hs.1, ht.2.2.2.2.cons _ _, rfl⟩
  | failPending job message delay deadline _ => exact ht
  | expired phase deadline hchecks hexpired =>
    exact absurd (ht.lt_of_checks hchecks) (Nat.not_lt_of_le hexpired)

end BaseSkeleton.Job
