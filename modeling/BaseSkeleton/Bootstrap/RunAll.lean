import BaseSkeleton.Job.Shutdown

/-!
# `run_all` — the server and the worker in one process

`run_all` of `src/bootstrap/mod.rs` with the shutdown channel of `src/bootstrap/shutdown.rs`, as a
machine: the task that waits for a signal, the future of `http::run`, the future of `worker::run`
and the body of `run_all` around the two. Whichever of the two returns first, the other one is told
to stop and awaited.

* `RunAll.step` — one poll of a future, or the signal.
* `Settled` — how far `run_all` is, and which of the two has returned.
* `run_all_drains` — what holds when it returns, and on the way there.

`http::run` is a future that may return anything at any time; of `worker::run` the whole loop is
here. The channel's sender lives until `run_all` returns, so that `wait` wakes for the value only.
-/

namespace BaseSkeleton.Bootstrap

open Job

/-- `Result::and`. -/
def resultAnd {ε : Type} (first second : Except ε Unit) : Except ε Unit :=
  match first with
  | .ok () => second
  | .error e => .error e

variable {ε : Type}

/-- The future of `worker::run`. -/
inductive WorkerTask (ε : Type) where
  | connecting
  | looping (loop : WorkerLoop)
  | returned (result : Except ε Unit)

/-- Where the body of `run_all` is. -/
inductive MainPhase (ε : Type) where
  /-- `select!` between the two futures -/
  | selecting
  | awaitingWorker (httpResult : Except ε Unit)
  | awaitingHttp (workerResult : Except ε Unit)
  | returned (result : Except ε Unit)
  | panicked

structure RunAll (ε : Type) where
  /-- the value of the channel -/
  requested : Bool
  http : Option (Except ε Unit)
  worker : WorkerTask ε
  main : MainPhase ε

inductive RunAllInput (ε : Type) where
  | signal
  | pollHttp (answer : Option (Except ε Unit))
  /-- the pool of the worker connects, or does not -/
  | connect (now : Instant) (answer : Option (Except ε Unit))
  | pollWorker (p : LoopPoll)

namespace MainPhase

def pollsHttp : MainPhase ε → Bool
  | selecting => true
  | awaitingHttp _ => true
  | _ => false

def pollsWorker : MainPhase ε → Bool
  | selecting => true
  | awaitingWorker _ => true
  | _ => false

end MainPhase

namespace RunAll

/-- `http` has returned: the worker is told to stop, or the results are put together. -/
def httpReturned (s : RunAll ε) (result : Except ε Unit) : RunAll ε :=
  match s.main with
  | .awaitingHttp workerResult =>
    { s with http := some result, main := .returned (resultAnd workerResult result) }
  | _ => { s with http := some result, requested := true, main := .awaitingWorker result }

/-- `worker` has returned. -/
def workerReturned (s : RunAll ε) (result : Except ε Unit) : RunAll ε :=
  match s.main with
  | .awaitingWorker httpResult =>
    { s with worker := .returned result, main := .returned (resultAnd httpResult result) }
  | _ => { s with worker := .returned result, requested := true, main := .awaitingHttp result }

/-- What the loop is shown of the channel: never a request that was not made, and one that was
made wakes it. -/
def Shows (config : LoopConfig) (requested : Bool) (loop : WorkerLoop) (p : LoopPoll) : Prop :=
  (p.shutdown = true → requested = true) ∧
    (requested = true → WorkerLoop.Requested config loop p)

instance (config : LoopConfig) (requested : Bool) (loop : WorkerLoop) (p : LoopPoll) :
    Decidable (Shows config requested loop p) :=
  inferInstanceAs (Decidable (_ ∧ _))

/-- One poll of a future, or the signal. -/
def step (config : LoopConfig) (s : RunAll ε) : RunAllInput ε → Option (RunAll ε)
  | .signal =>
    match s.main with
    -- `signal_task.abort()`
    | .returned _ => none
    | .panicked => none
    | _ => some { s with requested := true }
  | .pollHttp answer =>
    if s.main.pollsHttp then
      match answer with
      | none => some s
      | some result => some (s.httpReturned result)
    else none
  | .connect now answer =>
    if s.main.pollsWorker then
      match s.worker, answer with
      | .connecting, none => some s
      | .connecting, some (.ok ()) =>
        some { s with worker := .looping (WorkerLoop.machine config now).init }
      | .connecting, some (.error e) => some (s.workerReturned (.error e))
      | _, _ => none
    else none
  | .pollWorker p =>
    if s.main.pollsWorker then
      match s.worker with
      | .looping loop =>
        if Shows config s.requested loop p then
          match WorkerLoop.step config loop p with
          | none => none
          | some loop' =>
            match loop'.phase with
            | .stopped => some (s.workerReturned (.ok ()))
            -- the panic unwinds the process
            | .panicked => some { s with worker := .looping loop', main := .panicked }
            | _ => some { s with worker := .looping loop' }
        else none
      | _ => none
    else none

end RunAll

/-- `run_all`, once both futures were made. -/
def runAll (ε : Type) (config : LoopConfig) : Machine (RunAll ε) (RunAllInput ε) where
  init := ⟨false, none, .connecting, .selecting⟩
  step := RunAll.step config

/-! ## What a step can do

The body of `run_all` polls a future only while it waits for it: both in the `select!`, and the one
that is left after that. So an input of the machine is a signal, a poll of `http`, or a move of the
worker, and the last one is again one of six. -/

variable {config : LoopConfig} {s s' t : RunAll ε} {inputs : List (RunAllInput ε)}

/-- One step of the worker's future. -/
inductive WorkerMove (config : LoopConfig) (s : RunAll ε) : RunAllInput ε → RunAll ε → Prop where
  | waiting (now : Instant) (hworker : s.worker = .connecting) :
      WorkerMove config s (.connect now none) s
  | connected (now : Instant) (hworker : s.worker = .connecting) :
      WorkerMove config s (.connect now (some (.ok ())))
        { s with worker := .looping (WorkerLoop.machine config now).init }
  | refused (now : Instant) (e : ε) (hworker : s.worker = .connecting) :
      WorkerMove config s (.connect now (some (.error e))) (s.workerReturned (.error e))
  | stopped (p : LoopPoll) (loop loop' : WorkerLoop) (hworker : s.worker = .looping loop)
      (hshows : RunAll.Shows config s.requested loop p)
      (hstep : WorkerLoop.step config loop p = some loop') (hphase : loop'.phase = .stopped) :
      WorkerMove config s (.pollWorker p) (s.workerReturned (.ok ()))
  | panicked (p : LoopPoll) (loop loop' : WorkerLoop) (hworker : s.worker = .looping loop)
      (hshows : RunAll.Shows config s.requested loop p)
      (hstep : WorkerLoop.step config loop p = some loop') (hphase : loop'.phase = .panicked) :
      WorkerMove config s (.pollWorker p) { s with worker := .looping loop', main := .panicked }
  | looped (p : LoopPoll) (loop loop' : WorkerLoop) (hworker : s.worker = .looping loop)
      (hshows : RunAll.Shows config s.requested loop p)
      (hstep : WorkerLoop.step config loop p = some loop')
      (hphase : loop'.phase ≠ .stopped ∧ loop'.phase ≠ .panicked) :
      WorkerMove config s (.pollWorker p) { s with worker := .looping loop' }

/-- What an input does. -/
inductive RunAllMove (config : LoopConfig) (s : RunAll ε) : RunAllInput ε → RunAll ε → Prop where
  | signal (hmain : (∀ result, s.main ≠ .returned result) ∧ s.main ≠ .panicked) :
      RunAllMove config s .signal { s with requested := true }
  | httpPending (hmain : s.main.pollsHttp = true) : RunAllMove config s (.pollHttp none) s
  | http (result : Except ε Unit) (hmain : s.main.pollsHttp = true) :
      RunAllMove config s (.pollHttp (some result)) (s.httpReturned result)
  | worker (input : RunAllInput ε) (s' : RunAll ε) (hmain : s.main.pollsWorker = true)
      (hmove : WorkerMove config s input s') : RunAllMove config s input s'

/-- **Inversion of `step`.** Every later lemma cites it, and none unfolds `step` again. -/
theorem runAll_move {input : RunAllInput ε} (h : (runAll ε config).step s input = some s') :
    RunAllMove config s input s' := by
  have h : RunAll.step config s input = some s' := h
  unfold RunAll.step at h
  cases input with
  | signal =>
    simp only at h
    split at h
    · cases h
    · cases h
    · next hreturned hpanicked =>
      cases h
      exact .signal ⟨hreturned, hpanicked⟩
  | pollHttp answer =>
    simp only at h
    split at h
    · next hmain =>
      cases answer with
      | none =>
        cases h
        exact .httpPending hmain
      | some result =>
        cases h
        exact .http result hmain
    · cases h
  | connect now answer =>
    simp only at h
    split at h
    · next hmain =>
      refine .worker _ _ hmain ?_
      split at h <;> cases h
      · next hworker => exact .waiting now hworker
      · next hworker => exact .connected now hworker
      · next e hworker => exact .refused now e hworker
    · cases h
  | pollWorker p =>
    simp only at h
    split at h
    · next hmain =>
      refine .worker _ _ hmain ?_
      split at h
      · next loop hworker =>
        split at h
        · next hshows =>
          split at h
          · cases h
          · next loop' hstep =>
            -- where the loop has come to decides what becomes of the future around it
            split at h <;> cases h
            · next hphase => exact .stopped p loop loop' hworker hshows hstep hphase
            · next hphase => exact .panicked p loop loop' hworker hshows hstep hphase
            · next hstopped hpanicked =>
              exact .looped p loop loop' hworker hshows hstep ⟨hstopped, hpanicked⟩
        · cases h
      · cases h
    · cases h

/-! ## Every run of `run_all`

`Settled` is the invariant: the worker's loop is a reachable one, and the phase of `run_all` says
which of the two futures has returned, with what, and that the shutdown is requested once one of
them has. -/

/-- The loop of the worker is one `worker::run` can be in, and `Ok` is returned at its end. -/
structure WorkerSound (config : LoopConfig) (worker : WorkerTask ε) : Prop where
  looping : ∀ loop, worker = .looping loop →
    ∃ start, (WorkerLoop.machine config start).Reachable loop
  ended : worker = .returned (.ok ()) →
    ∃ start loop, (WorkerLoop.machine config start).Reachable loop ∧ loop.phase = .stopped

/-- How far `run_all` is, and which of the two has returned. -/
def Progressed (s : RunAll ε) : Prop :=
  match s.main with
  | .selecting => s.http = none ∧ ∀ result, s.worker ≠ .returned result
  | .awaitingWorker httpResult =>
    s.requested = true ∧ s.http = some httpResult ∧ ∀ result, s.worker ≠ .returned result
  | .awaitingHttp workerResult =>
    s.requested = true ∧ s.http = none ∧ s.worker = .returned workerResult
  | .returned result =>
    s.requested = true ∧ ∃ httpResult workerResult, s.http = some httpResult ∧
      s.worker = .returned workerResult ∧
      (result = resultAnd httpResult workerResult ∨ result = resultAnd workerResult httpResult)
  | .panicked => True

/-- The invariant of `run_all`. -/
structure Settled (config : LoopConfig) (s : RunAll ε) : Prop where
  sound : WorkerSound config s.worker
  progressed : Progressed s

/-- The worker is polled in the `select!`, or alone after the server has returned. -/
theorem pollsWorker_cases {main : MainPhase ε} (h : main.pollsWorker = true) :
    main = .selecting ∨ ∃ result, main = .awaitingWorker result := by
  cases main with
  | selecting => exact Or.inl rfl
  | awaitingWorker result => exact Or.inr ⟨result, rfl⟩
  | _ => cases h

/-- The server is polled in the `select!`, or alone after the worker has returned. -/
theorem pollsHttp_cases {main : MainPhase ε} (h : main.pollsHttp = true) :
    main = .selecting ∨ ∃ result, main = .awaitingHttp result := by
  cases main with
  | selecting => exact Or.inl rfl
  | awaitingHttp result => exact Or.inr ⟨result, rfl⟩
  | _ => cases h

/-- Whether the server returns first or last, `run_all` is settled again: it waits for the worker
then, or has both results. -/
theorem Settled.httpReturned (h : Settled config s) (hmain : s.main.pollsHttp = true)
    (result : Except ε Unit) : Settled config (s.httpReturned result) := by
  have hprogressed := h.progressed
  unfold Progressed at hprogressed
  unfold RunAll.httpReturned
  rcases pollsHttp_cases hmain with hselecting | ⟨workerResult, hawaiting⟩
  · rw [hselecting] at hprogressed ⊢
    exact ⟨h.sound, rfl, rfl, hprogressed.2⟩
  · rw [hawaiting] at hprogressed ⊢
    exact ⟨h.sound, hprogressed.1, result, workerResult, rfl, hprogressed.2.2, Or.inr rfl⟩

/-- The same for a worker that returns. -/
theorem Settled.workerReturned (h : Settled config s) (hmain : s.main.pollsWorker = true)
    {result : Except ε Unit} (hsound : WorkerSound config (.returned result)) :
    Settled config (s.workerReturned result) := by
  have hprogressed := h.progressed
  unfold Progressed at hprogressed
  unfold RunAll.workerReturned
  rcases pollsWorker_cases hmain with hselecting | ⟨httpResult, hawaiting⟩
  · rw [hselecting] at hprogressed ⊢
    exact ⟨hsound, rfl, hprogressed.1, rfl⟩
  · rw [hawaiting] at hprogressed ⊢
    exact ⟨hsound, hprogressed.1, httpResult, result, hprogressed.2.1, rfl, Or.inl rfl⟩

theorem sound_looping {loop : WorkerLoop}
    (h : ∃ start, (WorkerLoop.machine config start).Reachable loop) :
    WorkerSound config (.looping loop : WorkerTask ε) where
  looping := by
    rintro _ ⟨⟩
    exact h
  ended := nofun

/-- A worker that has not returned may go on. -/
theorem Settled.looping (h : Settled config s) (hmain : s.main.pollsWorker = true)
    {loop : WorkerLoop} (hsound : WorkerSound config (.looping loop : WorkerTask ε)) :
    Settled config { s with worker := .looping loop } := by
  have hprogressed := h.progressed
  refine ⟨hsound, ?_⟩
  unfold Progressed at hprogressed ⊢
  rcases pollsWorker_cases hmain with hselecting | ⟨httpResult, hawaiting⟩
  · rw [hselecting] at hprogressed ⊢
    exact ⟨hprogressed.1, nofun⟩
  · rw [hawaiting] at hprogressed ⊢
    exact ⟨hprogressed.1, hprogressed.2.1, nofun⟩

/-- **The step lemma.** The cases are those of `RunAllMove`; what the loop does is carried along by
its own reachability. -/
theorem settled_step {input : RunAllInput ε} (h : Settled config s)
    (hmove : RunAllMove config s input s') : Settled config s' := by
  -- A loop that is polled stays a loop of the machine.
  have hreach : ∀ {p : LoopPoll} {loop loop' : WorkerLoop}, s.worker = .looping loop →
      WorkerLoop.step config loop p = some loop' →
      ∃ start, (WorkerLoop.machine config start).Reachable loop' := by
    intro p loop loop' hworker hstep
    have hsound := h.sound
    obtain ⟨start, hloop⟩ := hsound.looping loop hworker
    exact ⟨start, hloop.next (i := p) hstep⟩
  cases hmove with
  -- The signal changes what is waited for, and neither part of the process.
  | signal hmain =>
    refine ⟨h.sound, ?_⟩
    have hprogressed := h.progressed
    unfold Progressed at hprogressed ⊢
    cases hphase : s.main with
    | returned result => exact absurd hphase (hmain.1 result)
    | panicked => exact absurd hphase hmain.2
    | selecting =>
      rw [hphase] at hprogressed
      exact hprogressed
    | awaitingWorker result =>
      rw [hphase] at hprogressed
      exact ⟨rfl, hprogressed.2⟩
    | awaitingHttp result =>
      rw [hphase] at hprogressed
      exact ⟨rfl, hprogressed.2⟩
  | httpPending hmain => exact h
  | http result hmain => exact h.httpReturned hmain result
  | worker input s' hmain hmove =>
    cases hmove with
    | waiting now hworker => exact h
    | connected now hworker =>
      exact h.looping hmain (sound_looping ⟨now, Machine.reachable_init⟩)
    | refused now e hworker => exact h.workerReturned hmain ⟨nofun, nofun⟩
    | stopped p loop loop' hworker hshows hstep hphase =>
      obtain ⟨start, hloop⟩ := hreach hworker hstep
      exact h.workerReturned hmain ⟨nofun, fun _ => ⟨start, loop', hloop, hphase⟩⟩
    | panicked p loop loop' hworker hshows hstep hphase =>
      exact ⟨sound_looping (hreach hworker hstep), trivial⟩
    | looped p loop loop' hworker hshows hstep hphase =>
      exact h.looping hmain (sound_looping (hreach hworker hstep))

/-- **The run lemma.** -/
theorem reachable_settled (h : (runAll ε config).Reachable s) : Settled config s := by
  refine Machine.Reachable.invariant (P := Settled config) ?_ ?_ h
  · exact ⟨⟨nofun, nofun⟩, rfl, nofun⟩
  · intro s input s' _ hs hstep
    exact settled_step hs (runAll_move hstep)

/-! ## A worker that fails

`worker::run` returns an error only where it connects to PostgreSQL, before its loop. So a worker
that has entered the loop is in it, or has returned `Ok`, in every later state. -/

/-- The worker has entered its loop. -/
def WorkerTask.Entered : WorkerTask ε → Prop
  | .looping _ => True
  | .returned (.ok ()) => True
  | _ => False

/-- No run that ends in `s` has come through the loop of the worker. -/
def NeverLooped (config : LoopConfig) (s : RunAll ε) : Prop :=
  ∀ s₀ inputs, (runAll ε config).Reachable s₀ → (runAll ε config).runFrom s₀ inputs = some s →
    ∀ loop, s₀.worker ≠ .looping loop

@[simp] theorem httpReturned_worker (s : RunAll ε) (result : Except ε Unit) :
    (s.httpReturned result).worker = s.worker := by
  unfold RunAll.httpReturned
  split <;> rfl

@[simp] theorem workerReturned_worker (s : RunAll ε) (result : Except ε Unit) :
    (s.workerReturned result).worker = .returned result := by
  unfold RunAll.workerReturned
  split <;> rfl

/-- Who has entered the loop leaves it with `Ok` only. -/
theorem entered_step {input : RunAllInput ε} (hmove : RunAllMove config s input s')
    (h : s.worker.Entered) : s'.worker.Entered := by
  cases hmove with
  | signal hmain => exact h
  | httpPending hmain => exact h
  | http result hmain =>
    rw [httpReturned_worker]
    exact h
  | worker input s' hmain hmove =>
    cases hmove with
    | waiting now hworker => exact h
    | connected now hworker => trivial
    | refused now e hworker =>
      -- it was still connecting
      rw [hworker] at h
      exact h.elim
    | stopped p loop loop' hworker hshows hstep hphase =>
      rw [workerReturned_worker]
      trivial
    | panicked p loop loop' hworker hshows hstep hphase => trivial
    | looped p loop loop' hworker hshows hstep hphase => trivial

/-- **A worker that returned an error never entered its loop.** -/
theorem neverLooped_of_error {e : ε} (hworker : s.worker = .returned (.error e)) :
    NeverLooped config s := by
  intro s₀ inputs hreach hrun loop hloop
  have hentered : s.worker.Entered :=
    hreach.runFrom_invariant (P := fun t : RunAll ε => t.worker.Entered)
      (fun s input s' _ hs hstep => entered_step (runAll_move hstep) hs)
      (by rw [hloop]; trivial) hrun
  rw [hworker] at hentered
  exact hentered

/-! ## After the request

What the loop is shown of the channel is fixed by `Shows`, so that once `requested` is set every
step of the loop is one of `WorkerLoop.requested_step`: the calls of `run_once` are paid out of
`startsLeft`, which is one at most. -/

/-- The calls of `run_once` the worker still makes. -/
def WorkerTask.startsLeft : WorkerTask ε → Nat
  | .looping loop => loop.phase.startsLeft
  | _ => 0

/-- One for a step that calls `run_once`. -/
def RunAll.starts (s : RunAll ε) : RunAllInput ε → Nat
  | .pollWorker p =>
    match s.worker with
    | .looping loop => WorkerLoop.starts loop p
    | _ => 0
  | _ => 0

/-- The request is never taken back. -/
theorem requested_stays {input : RunAllInput ε} (hmove : RunAllMove config s input s')
    (h : s.requested = true) : s'.requested = true := by
  have hhttp : ∀ result, (s.httpReturned result).requested = true := by
    intro result
    unfold RunAll.httpReturned
    split
    · exact h
    · rfl
  have hworker : ∀ result, (s.workerReturned result).requested = true := by
    intro result
    unfold RunAll.workerReturned
    split
    · exact h
    · rfl
  cases hmove with
  | signal hmain => rfl
  | httpPending hmain => exact h
  | http result hmain => exact hhttp result
  | worker input s' hmain hmove =>
    cases hmove with
    | refused now e _ => exact hworker _
    | stopped p loop loop' _ _ _ _ => exact hworker _
    | _ => exact h

/-- After the request every call of `run_once` is one fewer. -/
theorem starts_step {input : RunAllInput ε} (hmove : RunAllMove config s input s')
    (h : s.requested = true) : s.starts input + s'.worker.startsLeft ≤ s.worker.startsLeft := by
  cases hmove with
  | signal hmain => simp [RunAll.starts]
  | httpPending hmain => simp [RunAll.starts]
  | http result hmain => simp [RunAll.starts]
  | worker input s' hmain hmove =>
    cases hmove with
    | waiting now hworker => simp [RunAll.starts]
    | connected now hworker =>
      simp [RunAll.starts, WorkerTask.startsLeft, WorkerLoop.machine, LoopPhase.startsLeft]
    | refused now e hworker => simp [RunAll.starts, WorkerTask.startsLeft]
    | stopped p loop loop' hworker hshows hstep hphase =>
      have hpaid := (WorkerLoop.requested_step hstep (hshows.2 h)).2
      rw [hphase] at hpaid
      simpa [RunAll.starts, WorkerTask.startsLeft, hworker, LoopPhase.startsLeft] using hpaid
    | panicked p loop loop' hworker hshows hstep hphase =>
      have hpaid := (WorkerLoop.requested_step hstep (hshows.2 h)).2
      simpa [RunAll.starts, WorkerTask.startsLeft, hworker] using hpaid
    | looped p loop loop' hworker hshows hstep hphase =>
      have hpaid := (WorkerLoop.requested_step hstep (hshows.2 h)).2
      simpa [RunAll.starts, WorkerTask.startsLeft, hworker] using hpaid

/-! ## The job in progress

Nothing but a panic takes the worker's future away from `run_all` before it has returned, so that a
run of `run_once` goes on through the requests, the end of the server and the end of the loop. -/

/-- A run of `run_once` that was in progress is still polled, or it has returned, unless the
process panicked. -/
def Kept (config : LoopConfig) (run : RunOnce) (s : RunAll ε) : Prop :=
  s.main = .panicked ∨
    ∃ polls run', (config.worker.runOnce run.claimedAt).runFrom run polls = some run' ∧
      ((∃ loop, s.worker = .looping loop ∧ loop.phase = .running run') ∨
        ∃ result, run'.phase = .returned result)

/-- A step polls the run, or leaves it as it is. -/
theorem kept_step {run : RunOnce} {input : RunAllInput ε} (hmove : RunAllMove config s input s')
    (h : Kept config run s) : Kept config run s' := by
  rcases h with hpanicked | ⟨polls, run', hrun, ⟨loop, hworker, hphase⟩ | hreturned⟩
  · -- nothing follows a panic
    cases hmove with
    | signal hmain => exact absurd hpanicked hmain.2
    | httpPending hmain => exact Or.inl hpanicked
    | http result hmain => simp [hpanicked, MainPhase.pollsHttp] at hmain
    | worker input s' hmain hmove => simp [hpanicked, MainPhase.pollsWorker] at hmain
  · have hfinishes : ∀ {p : LoopPoll} {loop' : WorkerLoop},
        WorkerLoop.step config loop p = some loop' → WorkerLoop.Finishes config run loop' :=
      fun hstep => WorkerLoop.finishes_step hstep
        ⟨polls, run', hrun, Or.inl hphase⟩
    have hsame : (∃ loop, s'.worker = .looping loop ∧ loop.phase = .running run') →
        Kept config run s' := fun hloop => Or.inr ⟨polls, run', hrun, Or.inl hloop⟩
    cases hmove with
    | signal hmain => exact hsame ⟨loop, hworker, hphase⟩
    | httpPending hmain => exact hsame ⟨loop, hworker, hphase⟩
    | http result hmain => exact hsame ⟨loop, by rw [httpReturned_worker, hworker], hphase⟩
    | worker input s' hmain hmove =>
      cases hmove with
      | waiting now hconnecting => cases hworker.symm.trans hconnecting
      | connected now hconnecting => cases hworker.symm.trans hconnecting
      | refused now e hconnecting => cases hworker.symm.trans hconnecting
      | panicked p loop₀ loop' hlooping hshows hstep hpanicked => exact Or.inl rfl
      | stopped p loop₀ loop' hlooping hshows hstep hstopped =>
        cases hworker.symm.trans hlooping
        obtain ⟨polls', run'', hrun', hat⟩ := (hfinishes hstep).reaches
        rcases hat with hrunning | hreturned | hpanicked
        · cases hstopped.symm.trans hrunning
        · exact Or.inr ⟨polls', run'', hrun', Or.inr hreturned⟩
        · cases hstopped.symm.trans hpanicked
      | looped p loop₀ loop' hlooping hshows hstep hlive =>
        cases hworker.symm.trans hlooping
        obtain ⟨polls', run'', hrun', hat⟩ := (hfinishes hstep).reaches
        rcases hat with hrunning | hreturned | hpanicked
        · exact Or.inr ⟨polls', run'', hrun', Or.inl ⟨loop', rfl, hrunning⟩⟩
        · exact Or.inr ⟨polls', run'', hrun', Or.inr hreturned⟩
        · exact absurd hpanicked hlive.2
  · exact Or.inr ⟨polls, run', hrun, Or.inr hreturned⟩

/-! ## The theorem -/

/-- **`run_all` drains both components.**

* It goes on after the server has returned only once the shutdown is requested.
* It returns only when both have returned, with the error of one of them if there is any. A worker
  that returned `Ok` has come to the end of its loop, one that returned an error never entered it.
* From the request on `run_once` is called at most once more; and a run of `run_once` that is in
  progress is polled until it returns, whatever the server does, unless the process panics. -/
theorem run_all_drains (h : (runAll ε config).Reachable s) :
    (s.http.isSome → s.main ≠ .panicked → s.requested = true) ∧
    (∀ result, s.main = .returned result →
      ∃ httpResult workerResult, s.http = some httpResult ∧ s.worker = .returned workerResult ∧
        (result = .ok () ↔ httpResult = .ok () ∧ workerResult = .ok ()) ∧
        (∀ e, result = .error e → httpResult = .error e ∨ workerResult = .error e) ∧
        (workerResult = .ok () → ∃ start loop, (WorkerLoop.machine config start).Reachable loop ∧
          loop.phase = .stopped) ∧
        (∀ e, workerResult = .error e → NeverLooped config s)) ∧
    (∀ inputs t, (runAll ε config).runFrom s inputs = some t →
      (s.requested = true → (runAll ε config).spent RunAll.starts s inputs ≤ 1) ∧
      ∀ loop run, s.worker = .looping loop → loop.phase = .running run → Kept config run t) := by
  obtain ⟨hsound, hprogressed⟩ := reachable_settled h
  refine ⟨?_, ?_, ?_⟩
  · intro hhttp hpanicked
    unfold Progressed at hprogressed
    cases hmain : s.main <;> rw [hmain] at hprogressed
    · simp [hprogressed.1] at hhttp
    · exact hprogressed.1
    · exact hprogressed.1
    · exact hprogressed.1
    · exact absurd hmain hpanicked
  · intro result hmain
    unfold Progressed at hprogressed
    rw [hmain] at hprogressed
    obtain ⟨_, httpResult, workerResult, hhttp, hworker, hresult⟩ := hprogressed
    refine ⟨httpResult, workerResult, hhttp, hworker, ?_, ?_, fun hok => ?_, fun e he => ?_⟩
    · rcases hresult with rfl | rfl <;> cases httpResult <;> cases workerResult <;>
        simp [resultAnd]
    · intro e he
      rcases hresult with rfl | rfl <;> cases httpResult <;> cases workerResult <;>
        simp_all [resultAnd]
    · rw [hok] at hworker
      exact hsound.ended hworker
    · rw [he] at hworker
      exact neverLooped_of_error hworker
  · intro inputs t hrun
    refine ⟨fun hrequested => ?_, fun loop run hworker hphase => ?_⟩
    · -- the request stays, and each call is paid out of what is left
      have hpays : ∀ s input s', (runAll ε config).Reachable s → s.requested = true → True →
          (runAll ε config).step s input = some s' →
          False ∨ s'.requested = true ∧
            s.starts input + s'.worker.startsLeft ≤ s.worker.startsLeft + 0 :=
        fun s input s' _ hs _ hstep => Or.inr ⟨requested_stays (runAll_move hstep) hs,
          starts_step (runAll_move hstep) hs⟩
      have hpaid := h.amortised hpays hrequested (Machine.along_of_forall fun _ _ => trivial) hrun
      have hleft : s.worker.startsLeft ≤ 1 := by
        unfold WorkerTask.startsLeft
        split
        · next loop _ => cases loop.phase <;> simp [LoopPhase.startsLeft]
        · exact Nat.zero_le _
      rcases hpaid with ⟨_, _, _, _, _, _, _, hfalse⟩ | ⟨_, hpaid⟩
      · exact hfalse.elim
      · rw [Machine.spent_zero] at hpaid
        omega
    · refine h.runFrom_invariant (P := Kept config run)
        (fun s input s' _ hs hstep => kept_step (runAll_move hstep) hs) ?_ hrun
      exact Or.inr ⟨[], run, rfl, Or.inl ⟨loop, hworker, hphase⟩⟩

/-- The server fails while the worker is looking for a job. -/
def failingServer : List (RunAllInput String) :=
  [.pollWorker ⟨{ now := 5 }, true, false⟩, .pollWorker ⟨{ now := 4 }, false, false⟩,
    .pollWorker ⟨{ now := 4, claim := some (.ok none) }, false, false⟩,
    .pollHttp (some (.error "could not bind server")), .pollWorker ⟨{ now := 3 }, false, false⟩,
    .pollWorker ⟨{ now := 3 }, false, false⟩, .pollWorker ⟨{ now := 2 }, false, true⟩,
    .pollWorker ⟨{ now := 1 }, false, false⟩, .connect 0 (some (.ok ()))]

def failedServer : RunAll String :=
  ((runAll String WorkerLoop.patientConfig).run failingServer).get (by decide)

theorem run_all_drains_failed :
    failedServer.worker = .returned (.ok ()) ∧
      failedServer.http = some (.error "could not bind server") ∧
      ∃ start loop, (WorkerLoop.machine WorkerLoop.patientConfig start).Reachable loop ∧
        loop.phase = .stopped := by
  have hreach : (runAll String WorkerLoop.patientConfig).Reachable failedServer :=
    Machine.reachable_get (by decide)
  obtain ⟨httpResult, workerResult, hhttp, hworker, _, _, hended, _⟩ :=
    (run_all_drains hreach).2.1 (.error "could not bind server") rfl
  cases hhttp
  cases hworker
  exact ⟨rfl, rfl, hended rfl⟩

end BaseSkeleton.Bootstrap
