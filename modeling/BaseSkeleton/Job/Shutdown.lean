import BaseSkeleton.Lib.Amortised
import BaseSkeleton.Job.WorkerLoop
import BaseSkeleton.Job.WorkerProtocol

/-!
# How `worker::run` stops

The loop looks at the shutdown between two calls of `run_once` only, so that a job that is being
worked on is finished first. Everything else it does after the request is bounded by where it was
suspended (`LoopPhase.remaining`).

* `shutdown_graceful` — what happens between the request and the end of the loop.
* `cleanups_paced` — two cleanups are an interval apart.
-/

namespace BaseSkeleton.Job

/-- The steps the loop itself still makes once the shutdown was requested, at most. -/
def LoopPhase.remaining : LoopPhase → Nat
  | stopped => 0
  | panicked => 0
  | checking => 1
  | pausing _ => 2
  | running _ => 3
  | starting => 4
  | cleaned => 5
  | cleaning => 6

/-- The calls of `run_once` the loop still makes once the shutdown was requested, at most. -/
def LoopPhase.startsLeft : LoopPhase → Nat
  | starting => 1
  | cleaned => 1
  | cleaning => 1
  | _ => 0

namespace WorkerLoop

variable {config : LoopConfig} {start : Instant} {s s' t : WorkerLoop} {p : LoopPoll}
  {inputs : List LoopPoll}

/-- What one step of the loop does to its phase and to `next_cleanup`. -/
inductive Turns (config : LoopConfig) (p : LoopPoll) :
    LoopPhase → Instant → LoopPhase → Instant → Prop where
  | stop (phase : LoopPhase) (next : Instant)
      (hphase : phase = .checking ∨ phase = .cleaning ∨ ∃ since, phase = .pausing since)
      (hshutdown : p.shutdown = true) : Turns config p phase next .stopped next
  | clean (next : Instant) (hdue : next ≤ p.now) (hgo : p.shutdown = false) :
      Turns config p .checking next .cleaning next
  | go (next : Instant) (hdue : p.now < next) (hgo : p.shutdown = false) :
      Turns config p .checking next .starting next
  | cleaned (next : Instant) (hready : p.ready = true) :
      Turns config p .cleaning next .cleaned next
  | cleaning (next : Instant) (hready : p.ready = false) (hgo : p.shutdown = false) :
      Turns config p .cleaning next .cleaning next
  | rearm (next : Instant) (phase : LoopPhase) (hphase : phase = .starting ∨ phase = .panicked) :
      Turns config p .cleaned next phase (p.now + config.cleanupInterval)
  | start (next : Instant) :
      Turns config p .starting next (.running (config.worker.runOnce p.now).init) next
  | finished (run : RunOnce) (result : Except JobQueueError RunOutcome) (next : Instant)
      (phase : LoopPhase) (hreturned : run.phase = .returned result)
      (hphase : phase = .pausing p.now ∨ phase = .checking) :
      Turns config p (.running run) next phase next
  | polled (run run' : RunOnce) (next : Instant) (phase : LoopPhase)
      (hrunning : ∀ result, run.phase ≠ .returned result)
      (hpoll : config.worker.poll run p.poll = some run')
      (hphase : phase = .running run' ∨ phase = .panicked) :
      Turns config p (.running run) next phase next
  | awake (since next : Instant) (hready : p.ready = true) :
      Turns config p (.pausing since) next .checking next
  | asleep (since next : Instant) (hgo : p.shutdown = false)
      (hready : ¬ (p.ready = true ∧ since + config.pollInterval ≤ p.now)) :
      Turns config p (.pausing since) next (.pausing since) next

theorem phase_evaluate (s : WorkerLoop) (now : Instant) (sums : List ClockSum) (next : LoopPhase) :
    (s.evaluate now sums next).phase = next ∨ (s.evaluate now sums next).phase = .panicked := by
  unfold evaluate
  simp only
  split
  · exact Or.inl rfl
  · exact Or.inr rfl

/-- **Inversion of `step`.** -/
theorem step_turns (h : step config s p = some s') :
    s.now ≤ p.now ∧ s'.now = p.now ∧
      Turns config p s.phase s.nextCleanup s'.phase s'.nextCleanup := by
  unfold step at h
  split at h
  · cases h
  · next hclock =>
    refine ⟨Nat.le_of_not_lt hclock, ?_⟩
    cases hphase : s.phase with
    -- the flag, then the time of the next cleanup
    | checking =>
      simp only [hphase] at h
      split at h
      · cases h
        exact ⟨rfl, .stop _ _ (Or.inl rfl) ‹_›⟩
      · next hgo =>
        have hgo := Bool.eq_false_iff.mpr hgo
        split at h <;> cases h
        · exact ⟨rfl, .clean _ ‹_› hgo⟩
        · exact ⟨rfl, .go _ (Nat.lt_of_not_le ‹_›) hgo⟩
    | cleaning =>
      simp only [hphase] at h
      split at h
      · cases h
        exact ⟨rfl, .stop _ _ (Or.inr (Or.inl rfl)) ‹_›⟩
      · next hgo =>
        split at h <;> cases h
        · exact ⟨rfl, .cleaned _ ‹_›⟩
        · exact ⟨rfl, .cleaning _ (Bool.eq_false_iff.mpr ‹_›) (Bool.eq_false_iff.mpr hgo)⟩
    | cleaned =>
      simp only [hphase] at h
      cases h
      exact ⟨rfl, .rearm _ _ (phase_evaluate s p.now _ .starting)⟩
    | starting =>
      simp only [hphase] at h
      cases h
      exact ⟨rfl, .start _⟩
    | running run =>
      simp only [hphase] at h
      split at h
      · -- a run that has returned is never polled again
        next result hreturned =>
        split at h <;> cases h
        · exact ⟨rfl, .finished run result _ _ hreturned (Or.inl rfl)⟩
        · exact ⟨rfl, .finished run result _ _ hreturned (Or.inr rfl)⟩
      · next hrunning =>
        obtain ⟨run', hpoll, rfl⟩ := Option.map_eq_some_iff.mp h
        exact ⟨rfl, .polled run run' _ _ hrunning hpoll (phase_evaluate s p.now _ _)⟩
    | pausing since =>
      simp only [hphase] at h
      split at h
      · cases h
        exact ⟨rfl, .stop _ _ (Or.inr (Or.inr ⟨since, rfl⟩)) ‹_›⟩
      · next hgo =>
        split at h <;> cases h
        · next hready => exact ⟨rfl, .awake since _ hready.1⟩
        · exact ⟨rfl, .asleep since _ (Bool.eq_false_iff.mpr hgo) ‹_›⟩
    | stopped => simp [hphase] at h
    | panicked => simp [hphase] at h

/-! ## After the request

`LoopPhase.remaining` counts the steps from where the loop is suspended to the next look at the
flag, and `startsLeft` the runs that begin on the way. -/

/-- What the loop is shown once the shutdown was requested: the check finds it, and a `select!`
has a branch that is ready, though it may be the other one that is taken. -/
def Requested (config : LoopConfig) (s : WorkerLoop) (p : LoopPoll) : Prop :=
  match s.phase with
  | .checking => p.shutdown = true
  | .cleaning => p.shutdown = true ∨ p.ready = true
  | .pausing since => p.shutdown = true ∨ p.ready = true ∧ since + config.pollInterval ≤ p.now
  | _ => True

instance (config : LoopConfig) (s : WorkerLoop) (p : LoopPoll) :
    Decidable (Requested config s p) := by
  unfold Requested
  split <;> infer_instance

/-- One for a step of the loop itself, none for a step inside of `run_once`. -/
def ownSteps (s : WorkerLoop) (_ : LoopPoll) : Nat :=
  match s.phase with
  | .running run =>
    match run.phase with
    | .returned _ => 1
    | _ => 0
  | _ => 1

/-- One for a call of `run_once`. -/
def starts (s : WorkerLoop) (_ : LoopPoll) : Nat :=
  match s.phase with
  | .starting => 1
  | _ => 0

theorem ownSteps_of_running {run : RunOnce} (hphase : s.phase = .running run)
    (hrunning : ∀ result, run.phase ≠ .returned result) : ownSteps s p = 0 := by
  simp only [ownSteps, hphase]

theorem ownSteps_le_one : ownSteps s p ≤ 1 := by
  unfold ownSteps
  split
  · split <;> simp
  · exact Nat.le_refl 1

/-- **The step lemma.** Every step of the loop itself, and every call of `run_once`, is one
fewer. -/
theorem requested_step (hstep : step config s p = some s')
    (hrequested : Requested config s p) :
    ownSteps s p + s'.phase.remaining ≤ s.phase.remaining ∧
      starts s p + s'.phase.startsLeft ≤ s.phase.startsLeft := by
  obtain ⟨_, _, hturns⟩ := step_turns hstep
  have hown := ownSteps_le_one (s := s) (p := p)
  have hpolled := @ownSteps_of_running s p
  unfold starts
  unfold Requested at hrequested
  generalize s.phase = phase at *
  generalize s'.phase = phase' at *
  generalize s.nextCleanup = next at hturns
  generalize s'.nextCleanup = next' at hturns
  -- The turns that find no shutdown are ruled out. Each of the others brings the phase nearer to
  -- its end, or polls the run.
  cases hturns with
  | stop phase next hphase hshutdown =>
    rcases hphase with rfl | rfl | ⟨since, rfl⟩ <;>
      simp only [LoopPhase.remaining, LoopPhase.startsLeft] <;> omega
  | clean next hdue hgo => simp [hgo] at hrequested
  | go next hdue hgo => simp [hgo] at hrequested
  | cleaned next hready =>
    simp only [LoopPhase.remaining, LoopPhase.startsLeft]
    omega
  | cleaning next hready hgo => simp [hready, hgo] at hrequested
  | rearm next phase hphase =>
    rcases hphase with rfl | rfl <;>
      simp only [LoopPhase.remaining, LoopPhase.startsLeft] <;> omega
  | start next =>
    simp only [LoopPhase.remaining, LoopPhase.startsLeft]
    omega
  | finished run result next phase hreturned hphase =>
    rcases hphase with rfl | rfl <;>
      simp only [LoopPhase.remaining, LoopPhase.startsLeft] <;> omega
  | polled run run' next phase hrunning hpoll hphase =>
    rw [hpolled rfl hrunning]
    rcases hphase with rfl | rfl <;> simp [LoopPhase.remaining, LoopPhase.startsLeft]
  | awake since next hready =>
    simp only [LoopPhase.remaining, LoopPhase.startsLeft]
    omega
  | asleep since next hgo hready =>
    rcases hrequested with hshutdown | hboth
    · simp [hgo] at hshutdown
    · exact absurd hboth hready

/-- The run of `run_once` that was in progress is still the one in progress, or it has returned,
or the clock has run out of range. -/
structure Finishes (config : LoopConfig) (run : RunOnce) (t : WorkerLoop) : Prop where
  reaches : ∃ polls run', (config.worker.runOnce run.claimedAt).runFrom run polls = some run' ∧
    (t.phase = .running run' ∨ (∃ result, run'.phase = .returned result) ∨ t.phase = .panicked)

theorem finishes_step {run : RunOnce} (hstep : step config s p = some s')
    (h : Finishes config run s) : Finishes config run s' := by
  obtain ⟨polls, run', hrun, hat⟩ := h
  obtain ⟨_, _, hturns⟩ := step_turns hstep
  generalize s.nextCleanup = next at hturns
  generalize s'.nextCleanup = next' at hturns
  rcases hat with hphase | hreturned | hphase
  · rw [hphase] at hturns
    generalize hafter : s'.phase = phase' at hturns
    cases hturns with
    | stop _ next hphase hshutdown => rcases hphase with h | h | ⟨since, h⟩ <;> cases h
    | finished _ result next _ hreturned _ =>
      exact ⟨polls, run', hrun, Or.inr (Or.inl ⟨result, hreturned⟩)⟩
    | polled _ run'' next _ _ hpoll hnext =>
      refine ⟨p.poll :: polls, run'', Machine.runFrom_cons.mpr ⟨run', hrun, hpoll⟩, ?_⟩
      rcases hnext with hnext | hnext
      · exact Or.inl (hafter.trans hnext)
      · exact Or.inr (Or.inr (hafter.trans hnext))
  · exact ⟨polls, run', hrun, Or.inr (Or.inl hreturned)⟩
  · -- nothing follows a panic
    rw [hphase] at hturns
    generalize s'.phase = phase' at hturns
    cases hturns with
    | stop _ next hphase hshutdown => rcases hphase with h | h | ⟨since, h⟩ <;> cases h

/-- **A graceful shutdown.** However the loop was suspended when the shutdown was requested, it
calls `run_once` at most once more, and makes at most six steps of its own; and a run of `run_once`
that was in progress is polled until it returns, unless an `Instant` runs out of range and the loop
panics. -/
theorem shutdown_graceful (h : (machine config start).Reachable s)
    (hrequested : (machine config start).Along (Requested config) s inputs)
    (hrun : (machine config start).runFrom s inputs = some t) :
    (machine config start).spent starts s inputs ≤ 1 ∧
    (machine config start).spent ownSteps s inputs + t.phase.remaining ≤ 6 ∧
    ∀ run, s.phase = .running run → Finishes config run t := by
  refine ⟨?_, ?_, ?_⟩
  · have hpaid := h.spent_le starts (fun s => s.phase.startsLeft)
      (fun s p s' _ hp hs => (requested_step hs hp).2) hrequested hrun
    have hleft : s.phase.startsLeft ≤ 1 := by
      cases s.phase <;> simp [LoopPhase.startsLeft]
    omega
  · have hpaid := h.spent_le ownSteps (fun s => s.phase.remaining)
      (fun s p s' _ hp hs => (requested_step hs hp).1) hrequested hrun
    have hleft : s.phase.remaining ≤ 6 := by
      cases s.phase <;> simp [LoopPhase.remaining]
    omega
  · intro run hphase
    refine h.runFrom_invariant (P := Finishes config run)
      (fun s p s' _ hs hstep => finishes_step hstep hs) ?_ hrun
    exact ⟨[], run, rfl, Or.inl hphase⟩

/-! ## The pace of the cleanups

`next_cleanup` is set when a cleanup has ended, an interval ahead of that instant, and is set by
nothing else. -/

/-- `next_cleanup` is never more than an interval ahead, and only moves forward. -/
theorem nextCleanup_le (h : (machine config start).Reachable s) :
    s.nextCleanup ≤ s.now + config.cleanupInterval := by
  refine Machine.Reachable.invariant (P := fun s : WorkerLoop =>
    s.nextCleanup ≤ s.now + config.cleanupInterval) ?_ ?_ h
  · exact Nat.le_add_right _ _
  · intro s p s' _ hs hstep
    obtain ⟨hclock, hnow, hturns⟩ := step_turns hstep
    generalize hnext : s.nextCleanup = next at *
    generalize hnext' : s'.nextCleanup = next' at *
    generalize s.phase = phase at *
    generalize s'.phase = phase' at *
    rw [hnow]
    cases hturns <;> lia

/-- The instant a step may set `next_cleanup` to is not before the one that is set. -/
theorem nextCleanup_mono (h : (machine config start).Reachable s)
    (hstep : (machine config start).step s p = some s') : s.nextCleanup ≤ s'.nextCleanup := by
  have hle := nextCleanup_le h
  obtain ⟨hclock, _, hturns⟩ := step_turns hstep
  generalize s.nextCleanup = next at *
  generalize s'.nextCleanup = next' at *
  generalize s.phase = phase at *
  generalize s'.phase = phase' at *
  cases hturns <;> lia

/-- **Cleanups are paced.** After the end of a cleanup the next one is started no earlier than a
cleanup interval later, whatever the loop did in between. -/
theorem cleanups_paced {s₁ s₂ s₃ : WorkerLoop} {p' : LoopPoll}
    (h : (machine config start).Reachable s) (hcleaned : s.phase = .cleaned)
    (hstep : (machine config start).step s p = some s₁)
    (hrun : (machine config start).runFrom s₁ inputs = some s₂)
    (hchecking : s₂.phase = .checking) (hstep' : (machine config start).step s₂ p' = some s₃)
    (hcleaning : s₃.phase = .cleaning) : p.now + config.cleanupInterval ≤ p'.now := by
  have hset : s₁.nextCleanup = p.now + config.cleanupInterval := by
    obtain ⟨_, _, hturns⟩ := step_turns hstep
    rw [hcleaned] at hturns
    generalize hnext : s₁.nextCleanup = next at hturns ⊢
    generalize s₁.phase = phase at hturns
    cases hturns with
    | stop _ next hphase hshutdown => rcases hphase with h | h | ⟨since, h⟩ <;> cases h
    | rearm next phase hphase => rfl
  have hlater : s₁.nextCleanup ≤ s₂.nextCleanup :=
    (h.next hstep).runFrom_invariant (P := fun t => s₁.nextCleanup ≤ t.nextCleanup)
      (fun s p s' hreach hs hstep => hs.trans (nextCleanup_mono hreach hstep)) (Nat.le_refl _) hrun
  have hdue : s₂.nextCleanup ≤ p'.now := by
    obtain ⟨_, _, hturns⟩ := step_turns hstep'
    rw [hchecking, hcleaning] at hturns
    generalize s₂.nextCleanup = next at hturns ⊢
    generalize s₃.nextCleanup = next' at hturns
    cases hturns with
    | clean next hdue hgo => exact hdue
  rw [← hset]
  exact hlater.trans hdue

/-- A worker that polls every five, and cleans up every hundred. -/
def patientConfig : LoopConfig := ⟨userWorker, 5, 100⟩

/-- The loop in its first cleanup. -/
def cleaningLoop : WorkerLoop :=
  ((machine patientConfig 0).run [⟨{ now := 0 }, false, false⟩]).get rfl

/-- The cleanup ends as the shutdown is requested, and no job is found. -/
def lastPolls : List LoopPoll :=
  [⟨{ now := 4 }, true, false⟩, ⟨{ now := 3 }, false, false⟩,
    ⟨{ now := 2, claim := some (.ok none) }, false, false⟩, ⟨{ now := 1 }, false, false⟩,
    ⟨{ now := 1 }, false, false⟩, ⟨{ now := 1 }, false, true⟩]

theorem shutdown_graceful_cleaning :
    (machine patientConfig 0).spent starts cleaningLoop lastPolls ≤ 1 := by
  refine (shutdown_graceful (Machine.reachable_get rfl) ?_ (Option.some_get (by decide)).symm).1
  refine ⟨⟨⟨⟨⟨⟨trivial, ?_⟩, ?_⟩, ?_⟩, ?_⟩, ?_⟩, ?_⟩
  all_goals
    rintro s ⟨⟩
    decide

/-- The loop at the end of its first cleanup. -/
def cleanedLoop : WorkerLoop :=
  ((machine patientConfig 0).run [⟨{ now := 1 }, false, true⟩, ⟨{ now := 0 }, false, false⟩]).get
    rfl

/-- The cleanup ends at one, and the next one is due at a hundred and one. -/
def rearmPoll : LoopPoll := ⟨{ now := 1 }, false, false⟩

def rearmedLoop : WorkerLoop :=
  ((machine patientConfig 0).step cleanedLoop rearmPoll).get rfl

/-- The loop finds no job, and sleeps for longer than it has to. -/
def idlePolls : List LoopPoll :=
  [⟨{ now := 105 }, false, true⟩, ⟨{ now := 2 }, false, false⟩,
    ⟨{ now := 2, claim := some (.ok none) }, false, false⟩, ⟨{ now := 1 }, false, false⟩]

def idleLoop : WorkerLoop :=
  ((machine patientConfig 0).runFrom rearmedLoop idlePolls).get rfl

def duePoll : LoopPoll := ⟨{ now := 106 }, false, false⟩

/-- The second cleanup of a loop that finds no job. -/
theorem cleanups_paced_patient :
    (machine patientConfig 0).runFrom rearmedLoop idlePolls = some idleLoop ∧
      ∃ cleaning, (machine patientConfig 0).step idleLoop duePoll = some cleaning ∧
        cleaning.phase = .cleaning ∧
        rearmPoll.now + patientConfig.cleanupInterval ≤ duePoll.now := by
  have hcleaned : (machine patientConfig 0).Reachable cleanedLoop := Machine.reachable_get rfl
  have hstep : (machine patientConfig 0).step cleanedLoop rearmPoll = some rearmedLoop := rfl
  have hrun : (machine patientConfig 0).runFrom rearmedLoop idlePolls = some idleLoop := rfl
  have hstep' : (machine patientConfig 0).step idleLoop duePoll = some _ := rfl
  exact ⟨hrun, _, hstep', rfl, cleanups_paced hcleaned rfl hstep hrun rfl hstep' rfl⟩

end WorkerLoop

end BaseSkeleton.Job
