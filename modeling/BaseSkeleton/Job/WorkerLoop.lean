import BaseSkeleton.Environment
import BaseSkeleton.Job.PostgresQueue
import BaseSkeleton.Job.Worker

/-!
# `worker::run`, and the clock

The loop of `src/bootstrap/worker.rs` as a machine around `run_once`. `Instant + Duration` panics
where the sum has no representation; the machine keeps every sum it evaluates, and stops at the
first one that is out of range.

* `JobWorker.sums` — the sums one step of `run_once` evaluates; `poll_instants` finds every deadline
  and every renewal time among them.
* `WorkerLoop.Bounded` / `reachable_bounded` — what is added, and to which instants.
* `accepted_config_iff` — when a configuration that was accepted at startup never fails later.
-/

namespace BaseSkeleton

/-- `Duration::from_millis`. -/
def Duration.fromMillis (millis : Nat) : Duration := millis * 1000000

/-- The instants with a representation: below 2⁶³ seconds. -/
def Instant.InRange (t : Instant) : Prop :=
  t < 2 ^ 63 * 1000000000

instance (t : Instant) : Decidable t.InRange :=
  inferInstanceAs (Decidable (t < 2 ^ 63 * 1000000000))

namespace Job

/-- An `Instant + Duration`. -/
abbrev ClockSum := Instant × Duration

def ClockSum.InRange (sum : ClockSum) : Prop :=
  Instant.InRange (sum.1 + sum.2)

instance (sum : ClockSum) : Decidable sum.InRange :=
  inferInstanceAs (Decidable (Instant.InRange (sum.1 + sum.2)))

/-! ## The sums of `run_once`

A sum is evaluated where its text stands, whether its result is used or not. Deadlines and renewal
times are results of such sums. -/

/-- The sums a step evaluates, in the order of the source. -/
def JobWorker.sums (w : JobWorker) (s : RunOnce) (p : Poll) : List ClockSum :=
  match s.phase with
  | .claiming =>
    match p.claim with
    | some (.ok (some _)) =>
      [(s.claimedAt, w.config.leaseTimeout), (s.claimedAt, w.config.interval)]
    | _ => []
  | .renewing _ _ renewalStarted _ =>
    match p.renew with
    | some (.ok ()) =>
      [(renewalStarted, w.config.leaseTimeout), (renewalStarted, w.config.interval)]
    | some (.error .unavailable) => [(p.now, w.config.retryInterval)]
    | _ => []
  | _ => []

/-- The `deadline` and the `next_renewal` of a phase. -/
def Phase.instants : Phase → List Instant
  | looping _ deadline nextRenewal => [deadline, nextRenewal]
  | selecting _ deadline nextRenewal => [deadline, nextRenewal]
  | renewalDue _ deadline => [deadline]
  | renewing _ deadline _ _ => [deadline]
  | settled _ _ deadline => [deadline]
  | completing _ deadline => [deadline]
  | failing _ _ _ deadline => [deadline]
  | _ => []

variable {w : JobWorker} {s s' : RunOnce} {p : Poll}

theorem mem_instants_resume {job : ClaimedJob} {deadline nextRenewal t : Instant}
    {finished : Option HandlerResult}
    (h : t ∈ (JobWorker.resume job deadline nextRenewal finished).instants) :
    t = deadline ∨ t = nextRenewal := by
  cases finished with
  | none => simpa [JobWorker.resume, Phase.instants] using h
  | some result => exact Or.inl (by simpa [JobWorker.resume, Phase.instants] using h)

/-- **Every deadline and every renewal time is a sum.** -/
theorem poll_instants (h : w.poll s p = some s') {t : Instant} (ht : t ∈ s'.phase.instants) :
    t ∈ s.phase.instants ∨ ∃ sum ∈ w.sums s p, t = sum.1 + sum.2 := by
  obtain ⟨_, action, hmove, _⟩ := JobWorker.poll_move h
  unfold JobWorker.sums
  generalize s.phase = phase at hmove ⊢
  generalize s'.phase = next at hmove ht
  cases hmove with
  | claimed job hclaim => simpa [hclaim, Phase.instants] using ht
  | renewAnswered job deadline renewalStarted finished answer hrenew =>
    simp only [hrenew]
    cases answer with
    | ok _ => exact Or.inr (by simpa using mem_instants_resume ht)
    | error e =>
      cases e with
      | leaseLost => simp [JobWorker.afterRenewal, Phase.instants] at ht
      | unavailable =>
        rcases mem_instants_resume ht with hold | hnew
        · exact Or.inl (by simp [Phase.instants, hold])
        · exact Or.inr (by simp [hnew])
  | _ => simp_all [Phase.instants]

/-! ## The readings of the clock a sum starts from

A run keeps the instants it has read. None of them is ahead of the clock, so that no sum begins in
the future. -/

/-- What `run_once` has read from the clock and still adds to. -/
def RunOnce.readings (s : RunOnce) : List Instant :=
  match s.phase with
  | .claiming => [s.claimedAt]
  | .renewing _ _ renewalStarted _ => [renewalStarted]
  | _ => []

/-- The lease is positive, so that no other duration is longer. -/
theorem JobWorkerConfig.interval_le {c : JobWorkerConfig} (h : 0 < c.leaseTimeout) :
    c.interval ≤ c.leaseTimeout := by
  unfold JobWorkerConfig.interval
  lia

theorem JobWorkerConfig.retryInterval_le {c : JobWorkerConfig} (h : 0 < c.leaseTimeout) :
    c.retryInterval ≤ c.leaseTimeout := by
  have hinterval := c.interval_le h
  have hone : 1 ≤ c.interval := le_max_right _ _
  unfold JobWorkerConfig.retryInterval
  lia

/-- **What a step adds**: a lease at most, to a reading of the clock. -/
theorem mem_sums (hlease : 0 < w.config.leaseTimeout) {sum : ClockSum} (h : sum ∈ w.sums s p) :
    (sum.1 ∈ s.readings ∨ sum.1 = p.now) ∧ sum.2 ≤ w.config.leaseTimeout := by
  have hinterval := w.config.interval_le hlease
  have hretry := w.config.retryInterval_le hlease
  unfold JobWorker.sums at h
  unfold RunOnce.readings
  cases hphase : s.phase with
  | claiming =>
    simp only [hphase] at h ⊢
    split at h
    · simp only [List.mem_cons, List.not_mem_nil, or_false] at h
      rcases h with rfl | rfl
      · exact ⟨Or.inl (by simp), le_refl _⟩
      · exact ⟨Or.inl (by simp), hinterval⟩
    · simp at h
  | renewing job deadline renewalStarted finished =>
    simp only [hphase] at h ⊢
    split at h
    · simp only [List.mem_cons, List.not_mem_nil, or_false] at h
      rcases h with rfl | rfl
      · exact ⟨Or.inl (by simp), le_refl _⟩
      · exact ⟨Or.inl (by simp), hinterval⟩
    · rw [List.mem_singleton] at h
      subst h
      exact ⟨Or.inr rfl, hretry⟩
    · simp at h
  | _ => simp [hphase] at h

/-- A reading is never ahead of the clock. -/
theorem poll_readings (h : w.poll s p = some s') (hs : ∀ t ∈ s.readings, t ≤ s.now) :
    ∀ t ∈ s'.readings, t ≤ s'.now := by
  obtain ⟨hclock, action, hmove, hclaimed, hnow, _⟩ := JobWorker.poll_move h
  rw [hnow]
  unfold RunOnce.readings at hs ⊢
  rw [hclaimed]
  generalize s.phase = phase at hmove hs
  generalize s'.phase = next at hmove ⊢
  intro t ht
  cases hmove with
  | claimPending hclaim => exact (hs t ht).trans hclock
  | renewPending job deadline renewalStarted result hrenew => exact (hs t ht).trans hclock
  | renewPendingHandled job deadline renewalStarted action result hrenew hpoll =>
    exact (hs t ht).trans hclock
  | sendRenew job deadline hbefore => exact le_of_eq (by simpa using ht)
  | renewAnswered job deadline renewalStarted finished answer hrenew =>
    match answer, finished with
    | .ok (), none => cases ht
    | .ok (), some result => cases ht
    | .error .leaseLost, _ => cases ht
    | .error .unavailable, none => cases ht
    | .error .unavailable, some result => cases ht
  | _ => cases ht

/-! ## The loop

A `LoopPhase` is where the future of `worker::run` is suspended, or the place of the source it goes
on from. -/

/-- Where `worker::run` is suspended or about to read the clock. -/
inductive LoopPhase where
  /-- the top of the loop -/
  | checking
  /-- `select!` between the shutdown and `cleanup` -/
  | cleaning
  /-- `next_cleanup = Instant::now() + cleanup_interval` -/
  | cleaned
  /-- `run_once` is about to read the clock -/
  | starting
  | running (run : RunOnce)
  /-- `wait_or_timeout`, entered at `since` -/
  | pausing (since : Instant)
  | stopped
  | panicked

structure WorkerLoop where
  now : Instant
  nextCleanup : Instant
  phase : LoopPhase
  /-- the sums that were evaluated, the latest ones first -/
  sums : List ClockSum

/-- What the environment shows the loop at one step. -/
structure LoopPoll where
  /-- the clock, and what `run_once` waits for -/
  poll : Poll
  /-- the shutdown was requested; in a `select!`, its branch is the one that is taken -/
  shutdown : Bool := false
  /-- the other branch of a `select!` is ready -/
  ready : Bool := false

def LoopPoll.now (p : LoopPoll) : Instant :=
  p.poll.now

/-- What `worker::run` reads of the configuration, besides the worker. -/
structure LoopConfig where
  worker : JobWorker
  pollInterval : Duration
  cleanupInterval : Duration

/-- `worker::run` up to the loop; `drawn` is the identifier of a worker without a configured one. -/
def LoopConfig.ofConfig {IpNet : Type} (config : Config IpNet) (drawn : String) : LoopConfig where
  worker :=
    { handlers := [userCreatedJob]
      config :=
        { workerId := config.jobWorkerId.getD drawn
          leaseTimeout := .fromSecs config.jobLeaseTimeoutSeconds.toNat
          retryBase := .fromSecs config.jobRetryBaseSeconds.toNat
          retryMax := .fromSecs config.jobRetryMaxSeconds.toNat } }
  pollInterval := .fromMillis config.jobPollIntervalMilliseconds.toNat
  cleanupInterval := .fromSecs config.jobCleanupIntervalSeconds.toNat

/-- `iteration`: whether the loop pauses after a `run_once`. -/
def shouldPause : Except JobQueueError RunOutcome → Bool
  | .ok .idle => true
  | .ok _ => false
  | .error _ => true

namespace WorkerLoop

/-- Evaluate `sums` and go on as `next`, unless one of them panics. -/
def evaluate (s : WorkerLoop) (now : Instant) (sums : List ClockSum) (next : LoopPhase) :
    WorkerLoop :=
  { s with
    now := now
    sums := sums ++ s.sums
    phase := if ∀ sum ∈ sums, sum.InRange then next else .panicked }

def enter (s : WorkerLoop) (now : Instant) (phase : LoopPhase) : WorkerLoop :=
  { s with now := now, phase := phase }

/-- One step of `worker::run`. -/
def step (config : LoopConfig) (s : WorkerLoop) (p : LoopPoll) : Option WorkerLoop :=
  if p.now < s.now then none
  else
    match s.phase with
    | .checking =>
      if p.shutdown then some (s.enter p.now .stopped)
      else if p.now ≥ s.nextCleanup then some (s.enter p.now .cleaning)
      else some (s.enter p.now .starting)
    | .cleaning =>
      if p.shutdown then some (s.enter p.now .stopped)
      else if p.ready then some (s.enter p.now .cleaned)
      else some (s.enter p.now .cleaning)
    | .cleaned =>
      some { s.evaluate p.now [(p.now, config.cleanupInterval)] .starting with
        nextCleanup := p.now + config.cleanupInterval }
    | .starting => some (s.enter p.now (.running (config.worker.runOnce p.now).init))
    | .running run =>
      match run.phase with
      | .returned result =>
        if shouldPause result then some (s.enter p.now (.pausing p.now))
        else some (s.enter p.now .checking)
      | _ =>
        (config.worker.poll run p.poll).map fun run' =>
          s.evaluate p.now (config.worker.sums run p.poll) (.running run')
    | .pausing since =>
      if p.shutdown then some (s.enter p.now .stopped)
      -- a timer does not fire early
      else if p.ready ∧ since + config.pollInterval ≤ p.now then some (s.enter p.now .checking)
      else some (s.enter p.now (.pausing since))
    | .stopped => none
    | .panicked => none

/-- `worker::run`, called at `start`. -/
def machine (config : LoopConfig) (start : Instant) : Machine WorkerLoop LoopPoll where
  init := ⟨start, start, .checking, []⟩
  step := step config

end WorkerLoop

/-! ## What the loop adds, and to which instants

No more than a lease or a cleanup interval, to an instant that has been read. -/

namespace WorkerLoop

variable {config : LoopConfig} {start : Instant} {s s' : WorkerLoop} {p : LoopPoll}

/-- The readings of the clock are not ahead of it, and nothing longer than the lease is added to
them but the cleanup interval. -/
structure Bounded (config : LoopConfig) (s : WorkerLoop) : Prop where
  sums : ∀ sum ∈ s.sums, sum.1 ≤ s.now ∧
    (sum.2 ≤ config.worker.config.leaseTimeout ∨ sum.2 = config.cleanupInterval)
  readings : ∀ run, s.phase = .running run → run.now ≤ s.now ∧ ∀ t ∈ run.readings, t ≤ run.now

theorem Bounded.enter (h : Bounded config s) {now : Instant} {phase : LoopPhase}
    (hnow : s.now ≤ now) (hphase : ∀ run, phase ≠ .running run) :
    Bounded config (s.enter now phase) where
  sums sum hsum := ⟨(h.sums sum hsum).1.trans hnow, (h.sums sum hsum).2⟩
  readings run hrun := absurd hrun (hphase run)

theorem Bounded.evaluate (h : Bounded config s) {now : Instant} {sums : List ClockSum}
    {next : LoopPhase} (hnow : s.now ≤ now)
    (hsums : ∀ sum ∈ sums, sum.1 ≤ now ∧
      (sum.2 ≤ config.worker.config.leaseTimeout ∨ sum.2 = config.cleanupInterval))
    (hnext : ∀ run, next = .running run → run.now ≤ now ∧ ∀ t ∈ run.readings, t ≤ run.now) :
    Bounded config (s.evaluate now sums next) where
  sums sum hsum := by
    rcases List.mem_append.mp hsum with hnew | hold
    · exact hsums sum hnew
    · exact ⟨(h.sums sum hold).1.trans hnow, (h.sums sum hold).2⟩
  readings run hrun := by
    unfold WorkerLoop.evaluate at hrun
    simp only at hrun
    split at hrun
    · exact hnext run hrun
    · cases hrun

/-- The step lemma of `Bounded`. -/
theorem step_bounded (hlease : 0 < config.worker.config.leaseTimeout) (h : Bounded config s)
    (hstep : step config s p = some s') : Bounded config s' := by
  unfold step at hstep
  split at hstep
  · cases hstep
  · next hclock =>
    have hnow : s.now ≤ p.now := Nat.le_of_not_lt hclock
    cases hphase : s.phase with
    | checking =>
      simp only [hphase] at hstep
      split_ifs at hstep <;> cases hstep <;> exact h.enter hnow (by simp)
    | cleaning =>
      simp only [hphase] at hstep
      split_ifs at hstep <;> cases hstep <;> exact h.enter hnow (by simp)
    -- the only sum of the loop itself
    | cleaned =>
      simp only [hphase] at hstep
      cases hstep
      have hevaluated :
          Bounded config (s.evaluate p.now [(p.now, config.cleanupInterval)] .starting) :=
        h.evaluate hnow (by simp) (by simp)
      exact ⟨hevaluated.sums, hevaluated.readings⟩
    | starting =>
      simp only [hphase] at hstep
      cases hstep
      have hentered : Bounded config (s.enter p.now .starting) := h.enter hnow (by simp)
      refine ⟨hentered.sums, fun run hrun => ?_⟩
      cases hrun
      simp [JobWorker.runOnce, RunOnce.readings, WorkerLoop.enter]
    | running run =>
      simp only [hphase] at hstep
      obtain ⟨hrun, hreadings⟩ := h.readings run hphase
      split at hstep
      · split_ifs at hstep <;> cases hstep <;> exact h.enter hnow (by simp)
      · obtain ⟨run', hpoll, hs'⟩ := Option.map_eq_some_iff.mp hstep
        rw [← hs']
        refine h.evaluate hnow (fun sum hsum => ?_) (fun run'' hrun' => ?_)
        · -- the sums of the run start from its readings, which the invariant bounds
          obtain ⟨hreading, hle⟩ := mem_sums hlease hsum
          refine ⟨?_, Or.inl hle⟩
          rcases hreading with hmem | hread
          · exact (hreadings _ hmem).trans (hrun.trans hnow)
          · exact le_of_eq hread
        · cases hrun'
          have hpolled := JobWorker.poll_move hpoll
          obtain ⟨_, _, _, _, hnow', _⟩ := hpolled
          exact ⟨le_of_eq hnow', poll_readings hpoll hreadings⟩
    | pausing since =>
      simp only [hphase] at hstep
      split_ifs at hstep <;> cases hstep <;> exact h.enter hnow (by simp)
    | stopped => simp [hphase] at hstep
    | panicked => simp [hphase] at hstep

theorem reachable_bounded (hlease : 0 < config.worker.config.leaseTimeout)
    (h : (machine config start).Reachable s) : Bounded config s := by
  refine Machine.Reachable.invariant ?_ ?_ h
  · exact ⟨by simp [machine], by simp [machine]⟩
  · intro s p s' _ hs hstep
    exact step_bounded hlease hs hstep

/-- Every sum that is evaluated before the clock shows more than `last` is in range. -/
def SumsInRange (config : LoopConfig) (start last : Instant) : Prop :=
  ∀ s, (machine config start).Reachable s → s.now ≤ last → ∀ sum ∈ s.sums, sum.InRange

/-- What is at most added to `last` bounds every sum. -/
theorem sumsInRange_of_bounds (hlease : 0 < config.worker.config.leaseTimeout) {last : Instant}
    (hcleanup : Instant.InRange (last + config.cleanupInterval))
    (hdeadline : Instant.InRange (last + config.worker.config.leaseTimeout)) :
    SumsInRange config start last := by
  intro s hs hnow sum hsum
  obtain ⟨hread, hadded⟩ := (reachable_bounded hlease hs).sums sum hsum
  unfold ClockSum.InRange
  unfold Instant.InRange at *
  rcases hadded with hle | hinterval
  · lia
  · rw [hinterval]
    lia

/-! ## The first iteration

The converse: the loop does evaluate the sums with the largest durations, in its first turn already.
-/

variable {last : Instant}

/-- The first cleanup returns when the clock shows `last`. -/
theorem reachable_cleaned (h : start ≤ last) :
    ∃ nextCleanup phase,
      (machine config start).Reachable
        ⟨last, nextCleanup, phase, [(last, config.cleanupInterval)]⟩ ∧
      (ClockSum.InRange (last, config.cleanupInterval) → phase = .starting) := by
  have hbefore : ¬ last < start := Nat.not_lt.mpr h
  have hchecked : (machine config start).Reachable ⟨last, start, .cleaning, []⟩ := by
    refine Machine.reachable_init.next (i := ⟨{ now := last }, false, false⟩) ?_
    simp [machine, step, enter, LoopPoll.now, hbefore, h]
  have hcleaned : (machine config start).Reachable ⟨last, start, .cleaned, []⟩ := by
    refine hchecked.next (i := ⟨{ now := last }, false, true⟩) ?_
    simp [machine, step, enter, LoopPoll.now]
  have hadded : (machine config start).Reachable
      { evaluate ⟨last, start, .cleaned, []⟩ last [(last, config.cleanupInterval)] .starting with
        nextCleanup := last + config.cleanupInterval } := by
    refine hcleaned.next (i := ⟨{ now := last }, false, false⟩) ?_
    simp [machine, step, LoopPoll.now]
  refine ⟨_, _, hadded, fun hrange => if_pos ?_⟩
  simpa using hrange

/-- The claim of the first iteration is sent when the clock shows `last`, and finds `job`. -/
theorem reachable_claimed (h : start ≤ last) (job : ClaimedJob)
    (hcleanup : ClockSum.InRange (last, config.cleanupInterval)) :
    ∃ s, (machine config start).Reachable s ∧ s.now = last ∧
      (last, config.worker.config.leaseTimeout) ∈ s.sums := by
  obtain ⟨nextCleanup, phase, hcleaned, hphase⟩ := reachable_cleaned h
  rw [hphase hcleanup] at hcleaned
  have hstarted : (machine config start).Reachable
      ⟨last, nextCleanup, .running ⟨last, last, .claiming, []⟩,
        [(last, config.cleanupInterval)]⟩ := by
    refine hcleaned.next (i := ⟨{ now := last }, false, false⟩) ?_
    simp [machine, step, enter, LoopPoll.now, JobWorker.runOnce]
  have hclaimed : (machine config start).Reachable
      (evaluate ⟨last, nextCleanup, .running ⟨last, last, .claiming, []⟩,
          [(last, config.cleanupInterval)]⟩ last
        [(last, config.worker.config.leaseTimeout), (last, config.worker.config.interval)]
        (.running ⟨last, last, .looping job (last + config.worker.config.leaseTimeout)
          (last + config.worker.config.interval), [(last, .claimed job)]⟩)) := by
    refine hstarted.next
      (i := ⟨{ now := last, claim := some (.ok (some job)) }, false, false⟩) ?_
    simp [machine, step, LoopPoll.now, JobWorker.poll, JobWorker.sums, RunOnce.record]
  exact ⟨_, hclaimed, rfl, by simp [evaluate]⟩

/-- **When no sum panics.** -/
theorem sumsInRange_iff (hlease : 0 < config.worker.config.leaseTimeout) (h : start ≤ last) :
    SumsInRange config start last ↔
      Instant.InRange (last + config.cleanupInterval) ∧
        Instant.InRange (last + config.worker.config.leaseTimeout) := by
  constructor
  · intro hsums
    obtain ⟨nextCleanup, phase, hcleaned, _⟩ := reachable_cleaned h
    have hcleanup : ClockSum.InRange (last, config.cleanupInterval) :=
      hsums _ hcleaned (le_refl last) _ List.mem_cons_self
    obtain ⟨s', hs', hnow', hadded'⟩ :=
      reachable_claimed h ⟨0, "", .null, .null, 1, 1⟩ hcleanup
    exact ⟨hcleanup, hsums s' hs' (le_of_eq hnow') _ hadded'⟩
  · intro hrange
    exact sumsInRange_of_bounds hlease hrange.1 hrange.2

end WorkerLoop

/-! ## Accepted configurations

What `Config::from_env` accepts is checked against what the loop evaluates and what the queue
stores. -/

theorem validateMaxAttempts_isSome_iff {value : Nat} (h : 0 < value) :
    (validateMaxAttempts value).isSome = true ↔ (value : Int) ≤ integerMax := by
  unfold validateMaxAttempts
  rw [if_neg (Nat.ne_of_gt h)]
  split
  · next hle => simp [hle]
  · next hgt => simp [hgt]

/-- **When an accepted configuration never fails later.** The budget is admitted by
`validate_max_attempts`, and the worker never panics before the clock shows more than `last`,
exactly if the budget is an `INTEGER` and the clock has room for a cleanup interval and for a lease
after `last`. -/
theorem accepted_config_iff {IpNet : Type} {parseIpNet : String → Except String IpNet}
    {env : Environment} {config : Config IpNet} (h : Config.fromEnv parseIpNet env = .ok config)
    (drawn : String) {start last : Instant} (hstart : start ≤ last) :
    ((validateMaxAttempts config.jobMaxAttempts.toNat).isSome = true ∧
      WorkerLoop.SumsInRange (.ofConfig config drawn) start last) ↔
    (config.jobMaxAttempts.toNat : Int) ≤ integerMax ∧
      Instant.InRange (last + Duration.fromSecs config.jobCleanupIntervalSeconds.toNat) ∧
      Instant.InRange (last + Duration.fromSecs config.jobLeaseTimeoutSeconds.toNat) := by
  have hpositive := (Config.fromEnv_accepted h).positive
  have hattempts : 0 < config.jobMaxAttempts.toNat := hpositive _ (by simp [Config.numericSettings])
  have hsecs : 0 < config.jobLeaseTimeoutSeconds.toNat :=
    hpositive _ (by simp [Config.numericSettings])
  have hlease : 0 < (LoopConfig.ofConfig config drawn).worker.config.leaseTimeout := by
    show 0 < config.jobLeaseTimeoutSeconds.toNat * 1000000000
    omega
  rw [validateMaxAttempts_isSome_iff hattempts, WorkerLoop.sumsInRange_iff hlease hstart]
  rfl

/-- No prefix is read. -/
def noIpNet (_ : String) : Except String Empty :=
  .error "invalid IP address syntax"

theorem accepted_config_iff_defaults :
    (validateMaxAttempts 5).isSome = true ∧
    WorkerLoop.SumsInRange
      (.ofConfig (Config.defaults Empty "postgres://localhost/app") "worker-1") 0 1000 := by
  have haccepted : Config.fromEnv noIpNet (jobEnvironment "postgres://localhost/app" "5" "3600") =
      .ok (.defaults Empty "postgres://localhost/app") :=
    Config.fromEnv_jobEnvironment noIpNet _ rfl (by decide) rfl (by decide)
  have hstart : (0 : Instant) ≤ 1000 := by decide
  exact (accepted_config_iff haccepted "worker-1" hstart).mpr ⟨by decide, by decide, by decide⟩

/-- The largest cleanup interval, and a budget that is no `INTEGER`. -/
theorem largest_settings_accepted :
    ∃ config : Config Empty,
      Config.fromEnv noIpNet (jobEnvironment "postgres://localhost/app" "2147483648"
        "18446744073709551615") = .ok config ∧
      validateMaxAttempts config.jobMaxAttempts.toNat = none ∧
      ∃ s, (WorkerLoop.machine (.ofConfig config "worker-1") 0).Reachable s ∧ s.now = 0 ∧
        s.phase = .panicked ∧ ¬ ∀ sum ∈ s.sums, sum.InRange := by
  have hattempts : parseU32 "2147483648" = .ok 2147483648 := rfl
  have hinterval : parseU64 "18446744073709551615" = .ok 18446744073709551615 := rfl
  refine ⟨_, Config.fromEnv_jobEnvironment noIpNet _ hattempts (by decide) hinterval (by decide),
    by decide, ?_⟩
  -- the first check, the end of the cleanup, and the sum
  exact ⟨_, ⟨[⟨{ now := 0 }, false, false⟩, ⟨{ now := 0 }, false, true⟩,
    ⟨{ now := 0 }, false, false⟩], rfl⟩, rfl, rfl, by decide⟩

end Job

end BaseSkeleton
