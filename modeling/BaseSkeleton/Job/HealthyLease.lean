import Mathlib.Control.Monad.Basic
import BaseSkeleton.Lib.Fallible
import BaseSkeleton.Job.Fencing
import BaseSkeleton.Job.Heartbeat
import BaseSkeleton.Job.MutualExclusion

/-!
# A healthy heartbeat never loses the lease

One execution of a world is healthy: its timers fire on time, its calls reach the database and are
answered in less than half a lease. All other executions do what they like, and so do the
statements they have left behind.

* `OnTime` — the events of such runs.
* `HealthyAt` — the clock is where `Timely` has it, every answer is a good one, and nobody else is
  about to close the attempt; `reachable_healthy` is the run lemma.
* `heartbeat_keeps_lease` — the run of the healthy execution ends as its handler does.
-/

namespace BaseSkeleton.Job

variable {lease : Duration} {W W' : World} {i : Nat} {e e' : Execution} {handler : HandlerRun}
  {s : Statement} {skip : List Uuid}

/-- Execution `i` is polled on time, shows its handler what the handler has, and does not lose the
connection. -/
def OnTime (lease : Duration) (i : Nat) (handler : HandlerRun) (W : World) : Event → Prop
  | .tick elapsed =>
    elapsed = 0 ∨ ∀ e ∈ W.executions[i]?,
      e.run.phase.WaitsUntil lease handler e.run.claimedAt e.run.log (W.now + elapsed)
  | .disconnect j => j ≠ i
  | .poll j _ _ _ shown => j = i → shown = handler.poll W.now
  | _ => True

instance (lease : Duration) (i : Nat) (handler : HandlerRun) (W : World) :
    (event : Event) → Decidable (OnTime lease i handler W event)
  | .tick elapsed => inferInstanceAs (Decidable (elapsed = 0 ∨ ∀ e ∈ W.executions[i]?,
      e.run.phase.WaitsUntil lease handler e.run.claimedAt e.run.log (W.now + elapsed)))
  | .disconnect j => inferInstanceAs (Decidable (j ≠ i))
  | .poll j _ _ _ shown => inferInstanceAs (Decidable (j = i → shown = handler.poll W.now))
  | .start _ => .isTrue trivial
  | .outside _ _ => .isTrue trivial
  | .execute _ _ => .isTrue trivial
  | .executeOrphan _ _ => .isTrue trivial

/-- The database has done what it was asked. -/
def Reply.Good (phase : Phase) : Reply → Prop
  | .claim answer => ∃ found, answer = .ok found
  | .lease answer => answer = .ok ()
  | .fail answer => ∀ job message delay deadline,
    phase = .failing job message delay deadline → answer = .ok job.disposition

/-- The statement closes no attempt that a statement of `e` is about to close. -/
def Foreign (e : Execution) (s : Statement) : Prop :=
  ∀ t ∈ e.call.pending, ∀ id workerId attempt, t.Closes id workerId attempt →
    ¬ s.Closes id workerId attempt

/-- What holds of a healthy execution. -/
structure HealthyAt (handler : HandlerRun) (W : World) (e : Execution) : Prop where
  timely : Timely e.worker handler e.run.claimedAt e.run.log W.now e.run.phase
  answers : ∀ reply, e.call = .answered reply → reply.Good e.run.phase
  orphans : ∀ s ∈ W.orphans, Foreign e s
  executed : ∀ entry ∈ W.db.log, Foreign e entry.statement
  budget : ∀ job, e.job = some job →
    ∃ new ∈ insertedJobs W.db.log, new.id = job.id ∧ new.maxAttempts = job.maxAttempts

/-! ## Statements of others

They can end the attempt only by naming it, and every statement that names an attempt was sent by
the run that holds it. So the statements of other runs are foreign to this one, late or not. -/

/-- Nobody outside names an attempt. -/
theorem foreign_of_outside (hs : s.FromOutside) : Foreign e s := by
  intro t _ id workerId attempt _ hcloses
  rcases hs with ⟨job, began, rfl⟩ | ⟨completedOlderThan, deadOlderThan, rfl⟩
  · rcases hcloses with h | ⟨_, _, h⟩ <;> cases h
  · rcases hcloses with h | ⟨_, _, h⟩ <;> cases h

/-- A run that is about to close an attempt has claimed it, and has written. -/
theorem Running.claimed_of_pending {now : Instant} {id : Uuid} {workerId : String} {attempt : Nat}
    (h : Running lease now e) (hs : s ∈ e.call.pending) (hcloses : s.Closes id workerId attempt) :
    e.Claimed id workerId attempt ∧ e.Written := by
  have hcall : e.call = .sent s := by
    unfold Call.pending at hs
    split at hs
    · next hcall => rw [hcall, List.mem_singleton.mp hs]
    · cases hs
  have hsound := h.call
  have hsuspended := h.suspended
  rw [CallSound, hcall] at hsound
  rcases hsound with hstatement | ⟨_, rfl⟩
  · generalize e.run.phase = phase at hstatement hsuspended
    cases phase with
    | completing job deadline =>
      cases hstatement
      rcases hcloses with hcomplete | ⟨_, _, hfail⟩
      · cases hcomplete
        exact ⟨⟨rfl, job, hsuspended.1, rfl, rfl⟩, hsuspended.2⟩
      · cases hfail
    | failing job message delay deadline =>
      cases hstatement
      rcases hcloses with hcomplete | ⟨_, _, hfail⟩
      · cases hcomplete
      · cases hfail
        exact ⟨⟨rfl, job, hsuspended.1, rfl, rfl⟩, hsuspended.2⟩
    | claiming =>
      cases hstatement
      rcases hcloses with h | ⟨_, _, h⟩ <;> cases h
    | renewing job deadline renewalStarted finished =>
      cases hstatement
      rcases hcloses with h | ⟨_, _, h⟩ <;> cases h
    | _ => cases hstatement
  · rcases hcloses with h | ⟨_, _, h⟩ <;> cases h

/-- No other run names the attempt of this one. -/
theorem Inv.foreign_of_pending (hinv : Inv lease W) {j : Nat} {f : Execution}
    (hi : W.executions[i]? = some e) (hj : W.executions[j]? = some f) (hne : j ≠ i)
    (hs : s ∈ f.call.pending) : Foreign e s := by
  intro t ht id workerId attempt hcloses hcloses'
  have he := ((hinv.running e (List.mem_of_getElem? hi)).claimed_of_pending ht hcloses).1
  have hf := ((hinv.running f (List.mem_of_getElem? hj)).claimed_of_pending hs hcloses').1
  exact hne (hinv.claimed_unique hj hi hf he)

/-! ## Events that do not touch the execution

Its run, its call and its clock stay as they are; what has to be checked is the row. -/

/-- The database executes a statement that closes no attempt of `e`. -/
theorem HealthyAt.apply (h : HealthyAt handler W e) (hs : Foreign e s) (skip : List Uuid) :
    HealthyAt handler { W with db := W.db.apply ⟨W.now, s, skip⟩ } e where
  timely := h.timely
  answers := h.answers
  orphans := h.orphans
  executed := by
    show ∀ entry ∈ (W.db.apply ⟨W.now, s, skip⟩).log, _
    rcases Db.apply_cases W.db ⟨W.now, s, skip⟩ with hsame | ⟨rows, _, hlog⟩
    · rw [hsame]
      exact h.executed
    · rw [hlog]
      exact List.forall_mem_cons.mpr ⟨hs, h.executed⟩
  budget job hjob := by
    obtain ⟨new, hnew, hsame⟩ := h.budget job hjob
    exact ⟨new, mem_insertedJobs_apply _ hnew, hsame⟩

/-- What is left on its way closes no attempt of `e`. -/
theorem HealthyAt.withOrphans (h : HealthyAt handler W e) {orphans : List Statement}
    (horphans : ∀ s ∈ orphans, s ∈ W.orphans ∨ Foreign e s) (executions : List Execution) :
    HealthyAt handler { W with executions := executions, orphans := orphans } e where
  timely := h.timely
  answers := h.answers
  orphans s hs := (horphans s hs).elim (h.orphans s) id
  executed := h.executed
  budget := h.budget

/-! ## The answers of its own calls

As long as the deadline has not passed the row is the run's own. So each of its statements finds the
row, and the answer is the one the row makes. -/

/-- While a run waits for the answer to a fenced call, its deadline lies ahead. -/
theorem Running.lt_localDeadline (h : Running lease W.now e)
    (ht : Timely e.worker handler e.run.claimedAt e.run.log W.now e.run.phase)
    (hwaits : (e.run.phase.statement e.worker).isSome) (hclaimed : e.run.phase ≠ .claiming) :
    W.now < e.localDeadline lease := by
  have hsuspended := h.suspended
  unfold Execution.localDeadline
  rw [← h.lease_eq]
  generalize e.run.phase = phase at ht hwaits hclaimed hsuspended
  cases phase with
  | renewing job deadline renewalStarted finished =>
    rw [← hsuspended.1.deadline_eq]
    exact ht.1.lt_of_inTime ht.2.1
  | completing job deadline =>
    rw [← ht.1]
    exact ht.2.1.lt_of_inTime ht.2.2.2.1
  | failing job message delay deadline =>
    rw [← ht.1]
    exact ht.2.1.lt_of_inTime ht.2.2.2.1
  | claiming => exact absurd rfl hclaimed
  | _ => cases hwaits

variable {job : ClaimedJob} {T T' : JobTable} {r : JobRow} {now : Instant}

/-- A renewal or a completion of the owner is acknowledged. -/
theorem readLease_owned (c : Fenced) (hc : ∀ error retryDelay, c ≠ .fail error retryDelay)
    {id : Uuid} {workerId : String} {attempt : Nat} (hr : T.find id = some r)
    (howned : r.ownedBy id workerId attempt = true) :
    PostgresJobQueue.answer PostgresJobQueue.readLease
      ((c.statement id workerId attempt).exec skip now T) = .ok () := by
  obtain ⟨_, _, _, _, disposition, hanswer⟩ := exec_fenced_owned skip now c hr howned
  cases c with
  | complete => exact (Except.map_eq_ok.mp hanswer).choose_spec.1
  | renew => exact (Except.map_eq_ok.mp hanswer).choose_spec.1
  | fail error retryDelay => exact absurd rfl (hc error retryDelay)

/-- A failure of the owner is answered according to the budget that is left. -/
theorem readFail_owned {workerId error : String} {retryDelay : Duration}
    (hr : T.find job.id = some r) (howned : r.ownedBy job.id workerId job.attempts = true)
    (hmax : r.maxAttempts = job.maxAttempts) :
    PostgresJobQueue.answer PostgresJobQueue.readFail
      ((Statement.fail job.id workerId job.attempts error retryDelay).exec skip now T) =
        .ok job.disposition := by
  obtain ⟨T', hexec, _⟩ := exec_fenced_owned skip now (.fail error retryDelay) hr howned
  have hattempts := (JobRow.ownedBy_iff.mp howned).2.2.2
  have hrows : (Statement.fail job.id workerId job.attempts error retryDelay).exec skip now T =
      .ok (T', [r.failed now error retryDelay]) := hexec
  have hstatus : (r.failed now error retryDelay).status = r.releasedStatus := rfl
  rw [hrows]
  show PostgresJobQueue.readFail [r.failed now error retryDelay] = _
  unfold PostgresJobQueue.readFail
  simp only [hstatus, JobRow.releasedStatus, ClaimedJob.disposition]
  by_cases hbudget : job.attempts ≥ job.maxAttempts
  · rw [if_pos (by omega), if_pos hbudget]
  · rw [if_neg (by omega), if_neg hbudget]

/-- The statement of a healthy execution is answered as it should be. -/
theorem HealthyAt.reply_good (h : HealthyAt handler W e) (hinv : Inv lease W)
    (hqueue : queue.Reachable W.db) (hd : DistinctIds W.db.log) (he : e ∈ W.executions)
    (hcall : e.call = .sent s) {reply : Reply}
    (hreply : e.afterStatement s (s.exec skip W.now W.db.table) = .answered reply) :
    reply.Good e.run.phase := by
  have hrun := hinv.running e he
  have hsuspended := hrun.suspended
  have hsound := hrun.call
  rw [CallSound, hcall] at hsound
  -- a fenced call finds the row of its own attempt
  have howned : (e.run.phase.statement e.worker).isSome → e.run.phase ≠ .claiming →
      ∀ job, claimedJob e.run.log = some job →
      (∀ entry ∈ W.db.log,
        ¬ entry.statement.Closes job.id e.worker.config.workerId job.attempts) →
      ∃ r, W.db.table.find job.id = some r ∧
        r.ownedBy job.id e.worker.config.workerId job.attempts = true ∧
        r.maxAttempts = job.maxAttempts := by
    intro hwaits hclaimed job hjob hopen
    obtain ⟨r, hr, howned⟩ :=
      hinv.owned he hjob (hrun.lt_localDeadline h.timely hwaits hclaimed) hopen
    obtain ⟨new, hnew, hid, hmax⟩ := h.budget job (hrun.job_of_claimed hjob)
    obtain ⟨it, _, htracks, _, hbudget⟩ := reachable_item hqueue hd hnew
    rw [hid, hr] at htracks
    cases htracks with
    | present hshows _ =>
      refine ⟨r, hr, howned, ?_⟩
      rw [hshows.maxAttempts, hbudget, hmax]
  -- and its attempt is still open while its own closing is on the way
  have hown : ∀ job : ClaimedJob, s.Closes job.id e.worker.config.workerId job.attempts →
      ∀ entry ∈ W.db.log,
        ¬ entry.statement.Closes job.id e.worker.config.workerId job.attempts := by
    intro job hcloses entry hentry
    have hpending : s ∈ e.call.pending := by
      rw [hcall]
      exact List.mem_singleton_self s
    exact h.executed entry hentry s hpending _ _ _ hcloses
  rcases hsound with hstatement | ⟨hphase, rfl⟩
  · generalize hphase : e.run.phase = phase at hstatement howned hsuspended
    cases phase with
    | claiming =>
      cases hstatement
      obtain ⟨T', rows, hexec⟩ :=
        reap_succeeds W.db.table skip W.now e.worker.config.leaseTimeout
      rw [hexec] at hreply
      cases hreply
    | renewing job deadline renewalStarted finished =>
      cases hstatement
      cases hreply
      have hjob := hsuspended.1.job_claimed
      obtain ⟨r, hr, howned', _⟩ := howned rfl (by simp) job hjob fun entry hentry =>
        hinv.not_closes_of_unwritten he ⟨rfl, job, hjob, rfl, rfl⟩ hsuspended.1.unwritten
          (hinv.executed entry hentry)
      exact readLease_owned .renew (by simp) hr howned'
    | completing job deadline =>
      cases hstatement
      cases hreply
      obtain ⟨r, hr, howned', _⟩ := howned rfl (by simp) job hsuspended.1
        (hown job (Or.inl rfl))
      exact readLease_owned .complete (by simp) hr howned'
    | failing job message delay deadline =>
      cases hstatement
      cases hreply
      obtain ⟨r, hr, howned', hmax⟩ := howned rfl (by simp) job hsuspended.1
        (hown job (Or.inr ⟨_, _, rfl⟩))
      intro job' message' delay' deadline' hsame
      cases hsame
      exact readFail_owned hr howned' hmax
    | _ => cases hstatement
  · cases hreply
    obtain ⟨T', rows, hexec⟩ :=
      claim_succeeds W.db.table skip W.now e.worker.config.workerId
    show ∃ found, PostgresJobQueue.answer PostgresJobQueue.readClaim _ = .ok found
    rw [hexec]
    cases rows with
    | nil => exact ⟨none, rfl⟩
    | cons row rows =>
      have hchecks : row.Checks :=
        T'.checked row (JobTable.mem_of_update hexec List.mem_cons_self)
      show ∃ found, row.intoApplication.map some = .ok found
      rw [intoApplication_ok hchecks]
      exact ⟨_, rfl⟩

/-! ## Its own events

Its statement takes effect, or it is polled. A poll is where the clock matters: every wait of the
run ends before its deadline. -/

/-- After a statement nothing is left in flight, but the second statement of a claim. -/
theorem afterStatement_pending (e : Execution) (s : Statement)
    (result : Except SqlError (JobTable × List JobRow)) :
    ∀ t ∈ (e.afterStatement s result).pending, t = .claim e.worker.config.workerId := by
  intro t ht
  unfold Execution.afterStatement at ht
  split at ht
  · exact List.mem_singleton.mp ht
  · cases ht

/-- Only a claim tells a run of a job. -/
theorem job_afterStatement (hcall : e.call = .sent s) (hs : ∀ workerId, s ≠ .claim workerId)
    {result : Except SqlError (JobTable × List JobRow)}
    (hjob : ({ e with call := e.afterStatement s result } : Execution).job = some job) :
    e.job = some job := by
  rw [Execution.job_of_sent hcall]
  cases s with
  | claim workerId => exact absurd rfl (hs workerId)
  | reap lease =>
    cases result with
    | ok rows => exact hjob
    | error error => exact hjob
  | _ => exact hjob

/-- The database executes the statement of a healthy execution. -/
theorem HealthyAt.execute (h : HealthyAt handler W e) (hinv : Inv lease W)
    (hqueue : queue.Reachable W.db) (hd : DistinctIds W.db.log) (he : e ∈ W.executions)
    (hcall : e.call = .sent s)
    (hd' : DistinctIds (W.db.apply ⟨W.now, s, skip⟩).log) :
    HealthyAt handler
      (({ W with db := W.db.apply ⟨W.now, s, skip⟩ } : World).setCall i e
        (e.afterStatement s (s.exec skip W.now W.db.table)))
      { e with call := e.afterStatement s (s.exec skip W.now W.db.table) } := by
  -- what it sends next is a claim, which closes nothing
  have hforeign : ∀ t, Foreign
      { e with call := e.afterStatement s (s.exec skip W.now W.db.table) } t := by
    intro t t' ht' id workerId attempt hcloses
    rw [afterStatement_pending e s _ t' ht'] at hcloses
    rcases hcloses with h | ⟨_, _, h⟩ <;> cases h
  refine ⟨h.timely, fun reply hreply => h.reply_good hinv hqueue hd he hcall hreply,
    fun t _ => hforeign t, fun entry _ => hforeign entry.statement, fun job hjob => ?_⟩
  by_cases hclaim : ∃ workerId, s = .claim workerId
  · obtain ⟨workerId, rfl⟩ := hclaim
    have hrun := hinv.running e he
    have hsound := hrun.call
    rw [CallSound, hcall] at hsound
    have hphase : e.run.phase = .claiming := by
      rcases hsound with hstatement | ⟨hphase, _⟩
      · generalize e.run.phase = phase at hstatement
        cases phase <;> cases hstatement
      · exact hphase
    have hanswer := job_of_claim_answered (hrun.log_of_claiming hphase) hjob
    obtain ⟨r, rows, T', _, _, happly, hfind, _, _, hmax⟩ := claim_returned hanswer
    have hreach : queue.Reachable (W.db.apply ⟨W.now, .claim workerId, skip⟩) :=
      hqueue.next (i := ⟨W.now, .claim workerId, skip⟩) rfl
    have htable : (W.db.apply ⟨W.now, .claim workerId, skip⟩).table.find job.id =
        some (r.claimed W.now workerId) := by
      rw [happly]
      exact hfind
    obtain ⟨new, hnew, hid, hsame⟩ := insertedJob_of_find hreach hd' htable
    refine ⟨new, hnew, hid, ?_⟩
    have hbudget : r.maxAttempts = new.maxAttempts := hsame
    omega
  · have hold := job_afterStatement hcall (fun workerId hs => hclaim ⟨workerId, hs⟩) hjob
    obtain ⟨new, hnew, hsame⟩ := h.budget job hold
    exact ⟨new, mem_insertedJobs_apply _ hnew, hsame⟩

variable {w : JobWorker} {claimedAt : Instant} {p : Poll} {phase phase' : Phase}
  {action : Option Action} {run' : RunOnce}

/-- A run that waits for the answer to its `fail` has just sent it, or was waiting for it before. -/
theorem move_failing (h : w.Move claimedAt p phase action phase') {message : String}
    {delay : Duration} {deadline : Instant}
    (hphase : phase' = .failing job message delay deadline) :
    phase.statement w = none ∨ phase = .failing job message delay deadline := by
  cases h with
  | sendFail job error deadline _ => exact Or.inl rfl
  | failPending job message delay deadline _ => exact Or.inr hphase
  | renewAnswered job deadline renewalStarted finished answer _ =>
    have hnone := congrArg (Phase.statement w) hphase
    rw [statement_afterRenewal] at hnone
    cases hnone
  | _ => cases hphase

/-- A statement that closes an attempt is sent when the handler of the job has its result. -/
theorem move_closes (h : w.Move claimedAt p phase action phase') {id : Uuid} {workerId : String}
    {attempt : Nat} (hbefore : phase.statement w = none) (hafter : phase'.statement w = some s)
    (hcloses : s.Closes id workerId attempt) :
    ∃ job result deadline, phase = .settled job result deadline ∧ w.config.workerId = workerId ∧
      job.id = id ∧ job.attempts = attempt := by
  cases h with
  | sendComplete job deadline _ =>
    cases hafter
    rcases hcloses with hcomplete | ⟨_, _, hfail⟩
    · cases hcomplete
      exact ⟨job, _, deadline, rfl, rfl, rfl, rfl⟩
    · cases hfail
  | sendFail job error deadline _ =>
    cases hafter
    rcases hcloses with hcomplete | ⟨_, _, hfail⟩
    · cases hcomplete
    · cases hfail
      exact ⟨job, _, deadline, rfl, rfl, rfl, rfl⟩
  | sendRenew job deadline _ =>
    cases hafter
    rcases hcloses with h | ⟨_, _, h⟩ <;> cases h
  | claimPending _ => cases hbefore
  | renewPending job deadline renewalStarted result _ => cases hbefore
  | renewPendingHandled job deadline renewalStarted action result _ _ => cases hbefore
  | renewAnswered job deadline renewalStarted finished answer _ => cases hbefore
  | completePending job deadline _ => cases hbefore
  | failPending job message delay deadline _ => cases hbefore
  | _ => cases hafter

/-- The answer of a `fail` is one. -/
theorem failAnswer_eq_some {call : Call} {a : Except JobQueueError JobDisposition}
    (h : call.failAnswer = some a) : call = .answered (.fail a) := by
  unfold Call.failAnswer at h
  split at h <;> cases h
  rfl

/-- Good answers of the call are good answers to the poll. -/
theorem HealthyAt.goodAnswers (h : HealthyAt handler W e)
    (arrived renewalTimer deadlineTimer : Bool) (shown : Option HandlerResult) :
    GoodAnswers e.run.phase (e.pollAt W.now arrived renewalTimer deadlineTimer shown) where
  claim _ hanswer := h.answers _ (claimAnswer_eq_some (of_ite_some hanswer))
  renew _ hanswer := h.answers _ (leaseAnswer_eq_some (of_ite_some hanswer))
  complete _ hanswer := h.answers _ (leaseAnswer_eq_some (of_ite_some hanswer))
  fail _ job message delay deadline hanswer hphase :=
    h.answers _ (failAnswer_eq_some (of_ite_some hanswer)) job message delay deadline hphase

/-- A statement that closes no attempt of `e` closes none of the run that `e` becomes. -/
theorem foreign_resume (hpolled : Polled lease W.now e run' p action) (hinv : Inv lease W)
    (he : e ∈ W.executions) (hbacked : Backed lease W.executions s) (hs : Foreign e s) :
    Foreign (e.resume run') s := by
  intro t ht id workerId attempt hcloses
  rcases resume_call e run' with ⟨t', hcall, hafter, hbefore⟩ | ⟨hcall, _⟩ | ⟨hcall, _⟩
  · rw [hcall] at ht
    obtain rfl := List.mem_singleton.mp ht
    obtain ⟨job, result, deadline, hphase, hworker, hid, hattempts⟩ :=
      move_closes hpolled.move hbefore hafter hcloses
    have hsuspended := hpolled.running.suspended
    rw [hphase] at hsuspended
    exact hinv.not_closes_of_unwritten he ⟨hworker, job, hsuspended.1.job_claimed, hid, hattempts⟩
      hsuspended.1.unwritten hbacked
  · rw [hcall] at ht
    cases ht
  · rw [hcall] at ht
    exact hs t ht id workerId attempt hcloses

/-- A run that stops waiting is about to close nothing. -/
theorem foreign_abandoned (hpolled : Polled lease W.now e run' p action)
    (hs : s ∈ e.abandoned run') : Foreign (e.resume run') s := by
  intro t ht
  exfalso
  unfold Execution.abandoned at hs
  split at hs
  · cases hs
  · next hafter =>
    rcases resume_call e run' with ⟨t', _, hsome, _⟩ | ⟨hcall, _⟩ | ⟨hcall, hkept⟩
    · cases hafter.symm.trans hsome
    · rw [hcall] at ht
      cases ht
    · rw [hafter] at hkept
      have hbefore : e.run.phase.statement e.worker = none :=
        Option.not_isSome_iff_eq_none.mp (by simp [← hkept])
      rw [hcall, hpolled.running.call.idle hbefore] at ht
      cases ht

/-- A healthy execution is polled. -/
theorem HealthyAt.poll (h : HealthyAt handler W e) (hinv : Inv lease W) (hlease : 3 ≤ lease)
    (he : e ∈ W.executions) {arrived renewalTimer deadlineTimer : Bool}
    (hpoll : e.worker.poll e.run
      (e.pollAt W.now arrived renewalTimer deadlineTimer (handler.poll W.now)) = some run') :
    HealthyAt handler
      { W with
        executions := W.executions.set i (e.resume run')
        orphans := e.abandoned run' ++ W.orphans } (e.resume run') := by
  have hrun := hinv.running e he
  obtain ⟨action, hnow, hpolled⟩ := polled_of_poll hrun hpoll
  have hgood := h.goodAnswers arrived renewalTimer deadlineTimer (handler.poll W.now)
  refine ⟨?_, ?_, ?_, ?_, fun job hjob => h.budget job (hpolled.job_eq hjob)⟩
  · have hmoved := timely_move (by rw [hrun.lease_eq]; exact hlease) hpolled.move hrun.suspended
      h.timely rfl hgood
    rw [resume_worker, resume_run, hpolled.claimedAt, hpolled.log]
    exact hmoved
  · intro reply hreply
    rw [resume_run]
    -- An answer that is still there was there before, because a new call has none yet.
    rcases resume_call e run' with ⟨t, hcall, _⟩ | ⟨hcall, _⟩ | ⟨hcall, _⟩
    · cases hcall.symm.trans hreply
    · cases hcall.symm.trans hreply
    · have hsame : e.call = .answered reply := hcall.symm.trans hreply
      have hanswer := h.answers reply hsame
      cases reply with
      | claim answer => exact hanswer
      | lease answer => exact hanswer
      | fail answer =>
        intro job message delay deadline hphase
        rcases move_failing hpolled.move hphase with hnone | hfailing
        · cases (hrun.call.idle hnone).symm.trans hsame
        · exact hanswer job message delay deadline hfailing
  · intro s hs
    rcases List.mem_append.mp hs with hs | hs
    · exact foreign_abandoned hpolled hs
    · exact foreign_resume hpolled hinv he (hinv.orphans s hs) (h.orphans s hs)
  · intro entry hentry
    exact foreign_resume hpolled hinv he (hinv.executed entry hentry) (h.executed entry hentry)

/-! ## Every run

One case for each event of the world. An event of another execution leaves this one as it is, or
touches the database with a foreign statement. -/

/-- An execution that is not touched keeps its place. -/
theorem getElem?_of_set {j : Nat} {f : Execution} (hne : j ≠ i)
    (h : (W.executions.set j f)[i]? = some e) : W.executions[i]? = some e := by
  rwa [List.getElem?_set_ne hne] at h

/-- What stands at the place is what was put there. -/
theorem eq_of_getElem?_set {f : Execution} (hf : W.executions[i]? = some f)
    (h : (W.executions.set i e')[i]? = some e) : e = e' := by
  rw [List.getElem?_set_self (List.getElem?_eq_some_iff.mp hf).1] at h
  exact (Option.some.inj h).symm

/-- **The step lemma.** -/
theorem healthy_step {event : Event} (hlease : 3 ≤ lease) (hinv : Inv lease W)
    (hqueue : queue.Reachable W.db) (hallowed : OnTime lease i handler W event)
    (h : (world lease).step W event = some W') (hd : DistinctIds W'.db.log)
    (hhealthy : ∀ e, W.executions[i]? = some e → HealthyAt handler W e) :
    ∀ e, W'.executions[i]? = some e → HealthyAt handler W' e := by
  have hdistinct := distinctIds_of_happens (step_happens h) hd
  intro e he
  cases event with
  | tick elapsed =>
    rw [step_tick h] at he ⊢
    have hold := hhealthy e he
    rcases hallowed with rfl | hwait
    · exact hold
    · have hwait' := hwait e he
      have hlease' := (hinv.running e (List.mem_of_getElem? he)).lease_eq
      rw [← hlease'] at hwait'
      exact ⟨hold.timely.wait (by rw [hlease']; exact hlease) hwait', hold.answers, hold.orphans,
        hold.executed, hold.budget⟩
  | start worker =>
    obtain ⟨hworker, rfl⟩ := step_start h
    rcases Indexed.getElem?_append_cases he with he | ⟨_, rfl⟩
    · have hold := hhealthy e he
      exact ⟨hold.timely, hold.answers, hold.orphans, hold.executed, hold.budget⟩
    · -- a new run has sent its reap, and knows of no job
      have hforeign : ∀ s, Foreign
          ⟨worker, (worker.runOnce W.now).init, .sent (.reap lease)⟩ s := by
        intro s t ht id workerId attempt hcloses
        rw [List.mem_singleton.mp ht] at hcloses
        rcases hcloses with h | ⟨_, _, h⟩ <;> cases h
      refine ⟨inTime_self (by rw [hworker]; lia), ?_, fun s _ => hforeign s,
        fun entry _ => hforeign entry.statement, ?_⟩
      · intro reply hreply
        cases hreply
      · intro job hjob
        cases hjob
  -- a foreign statement changes nothing the execution knows of
  | outside s skip =>
    obtain ⟨hs, rfl⟩ := step_outside h
    exact (hhealthy e he).apply (foreign_of_outside hs) skip
  | execute j skip =>
    obtain ⟨f, s, hf, hcall, rfl⟩ := step_execute h
    by_cases hji : j = i
    · subst hji
      rw [eq_of_getElem?_set hf he]
      exact (hhealthy f hf).execute hinv hqueue hdistinct (List.mem_of_getElem? hf) hcall hd
    · have hold := getElem?_of_set hji he
      have hpending : s ∈ f.call.pending := by
        rw [hcall]
        exact List.mem_singleton_self s
      -- the statement of another execution is foreign to this one
      have happly := (hhealthy e hold).apply (hinv.foreign_of_pending hold hf hji hpending) skip
      exact ⟨happly.timely, happly.answers, happly.orphans, happly.executed, happly.budget⟩
  -- what was sent for a run that is gone is foreign as well
  | executeOrphan j skip =>
    obtain ⟨s, hs, rfl⟩ := step_executeOrphan h
    have hold := hhealthy e he
    have happly := hold.apply (hold.orphans s (List.mem_of_getElem? hs)) skip
    exact happly.withOrphans (fun t ht => Or.inl (List.mem_of_mem_eraseIdx ht)) W.executions
  | disconnect j =>
    obtain ⟨f, hf, hcases⟩ := step_disconnect h
    rcases hcases with ⟨s, hcall, rfl⟩ | ⟨reply, _, rfl⟩
    · have hold := getElem?_of_set hallowed he
      have hpending : s ∈ f.call.pending := by
        rw [hcall]
        exact List.mem_singleton_self s
      refine (hhealthy e hold).withOrphans (fun t ht => ?_) _
      rcases List.mem_cons.mp ht with rfl | ht
      · exact Or.inr (hinv.foreign_of_pending hold hf hallowed hpending)
      · exact Or.inl ht
    · have hold := getElem?_of_set hallowed he
      exact (hhealthy e hold).withOrphans (fun t ht => Or.inl ht) _
  | poll j arrived renewalTimer deadlineTimer shown =>
    obtain ⟨f, run', hf, hpoll, rfl⟩ := step_poll h
    by_cases hji : j = i
    · subst hji
      rw [hallowed rfl] at hpoll
      rw [eq_of_getElem?_set hf he]
      exact (hhealthy f hf).poll hinv hlease (List.mem_of_getElem? hf) hpoll
    · have hold := getElem?_of_set hji he
      refine (hhealthy e hold).withOrphans (fun t ht => ?_) _
      rcases List.mem_append.mp ht with ht | ht
      · right
        unfold Execution.abandoned at ht
        split at ht
        · cases ht
        · exact hinv.foreign_of_pending hold hf hji ht
      · exact Or.inl ht

/-- **The run lemma.** -/
theorem reachable_healthy (hlease : 3 ≤ lease)
    (h : ((world lease).restrict (OnTime lease i handler)).Reachable W)
    (hd : DistinctIds W.db.log) : ∀ e, W.executions[i]? = some e → HealthyAt handler W e := by
  revert hd
  refine Machine.Reachable.restrict_invariant (P := fun W => DistinctIds W.db.log →
    ∀ e, W.executions[i]? = some e → HealthyAt handler W e) ?_ ?_ h
  · intro _ e he
    cases he
  · intro W event W' hreach ih hallowed hstep hd
    have hd' := distinctIds_of_happens (step_happens hstep) hd
    exact healthy_step hlease (reachable_inv hreach hd') (world_queue hreach) hallowed hstep hd
      (ih hd')

/-- **A healthy heartbeat never loses the lease.** A run whose timers fire on time and whose calls
are answered in less than half a lease returns an outcome, never an error: `Idle` if there was no
job, and otherwise the one that the result of the handler and the budget of the job ask for. And it
does return, at most a lease after its handler or two leases after its start. -/
theorem heartbeat_keeps_lease (hlease : Duration.fromSecs 1 ≤ lease)
    (h : ((world lease).restrict (OnTime lease i handler)).Reachable W)
    (hd : DistinctIds W.db.log) (he : W.executions[i]? = some e) :
    (∀ returned, e.run.phase = .returned returned →
      (claimedJob e.run.log = none ∧ returned = .ok .idle) ∨
        ∃ job result, claimedJob e.run.log = some job ∧
          RanTo e.worker handler job result e.run.log ∧ returned = .ok (job.outcome result)) ∧
    (max handler.ready (e.run.claimedAt + lease) + lease ≤ W.now →
      ∃ returned, e.run.phase = .returned returned) := by
  have hlease' : 3 ≤ lease := Nat.le_trans (by decide) hlease
  have htimely := (reachable_healthy hlease' h hd e he).timely
  refine ⟨fun returned hphase => ?_, fun hnow => ?_⟩
  · rw [hphase] at htimely
    exact htimely
  · by_contra hrunning
    have hinv := reachable_inv h.of_restrict hd
    have heq := (hinv.running e (List.mem_of_getElem? he)).lease_eq
    have hlt := htimely.now_lt (by rw [heq]; exact hlease')
      fun returned hphase => hrunning ⟨returned, hphase⟩
    unfold handlerLimit at hlt
    rw [heq] at hlt
    exact absurd hnow (Nat.not_le_of_lt hlt)

/-! ## A handler that outlives its lease

A lease of three seconds, and a handler that takes five: the renewals carry it over. -/

def steadyWorker : JobWorker := ⟨["user.created"], ⟨"worker", Duration.fromSecs 3, 5, 60⟩⟩

def steadyHandler : HandlerRun := ⟨Duration.fromSecs 5, .ok ()⟩

/-- The renewal is due, and takes a second. -/
def renewalRound : List Event :=
  [.poll 0 true false false none, .execute 0 [], .tick (Duration.fromSecs 1),
    .poll 0 false false false none, .poll 0 false true false none, .poll 0 false false false none]

/-- Every call takes a second; the handler returns while its fourth renewal is on its way. -/
def steadyRun : List Event :=
  [.poll 0 true false false (some (.ok ())), .execute 0 [], .tick (Duration.fromSecs 1),
    .poll 0 false false false (some (.ok ())), .poll 0 true false false (some (.ok ())),
    .execute 0 [], .poll 0 false false false (some (.ok ())), .tick (Duration.fromSecs 1),
    .poll 0 false false false none, .poll 0 false true false none,
    .poll 0 false false false none] ++
  renewalRound ++ renewalRound ++ renewalRound ++
  [.poll 0 true false false none, .tick (Duration.fromSecs 1), .execute 0 [], .execute 0 [],
    .start steadyWorker, .outside (.insert ⟨7, "user.created", .null, .null, 3⟩ 0) []]

theorem steadyRun_possible :
    (((world (Duration.fromSecs 3)).restrict
      (OnTime (Duration.fromSecs 3) 0 steadyHandler)).run steadyRun).isSome := by
  decide

def steadyWorld : World :=
  (((world (Duration.fromSecs 3)).restrict
    (OnTime (Duration.fromSecs 3) 0 steadyHandler)).run steadyRun).get steadyRun_possible

def steadyExecution : Execution :=
  steadyWorld.executions[0]?.get (by decide)

theorem heartbeat_keeps_lease_steady :
    steadyExecution.run.phase = .returned (.ok .completed) ∧
      ∃ job result, claimedJob steadyExecution.run.log = some job ∧
        RanTo steadyExecution.worker steadyHandler job result steadyExecution.run.log ∧
        job.outcome result = .completed := by
  refine ⟨rfl, ?_⟩
  have hdistinct : DistinctIds steadyWorld.db.log := by
    unfold DistinctIds
    decide
  obtain ⟨hnone, _⟩ | ⟨job, result, hjob, hran, houtcome⟩ :=
    (heartbeat_keeps_lease (by decide) (Machine.reachable_get steadyRun_possible) hdistinct
      (Option.some_get _).symm).1 (.ok .completed) rfl
  · cases hnone
  · exact ⟨job, result, hjob, hran, (Except.ok.inj houtcome).symm⟩

end BaseSkeleton.Job
