import BaseSkeleton.Lib.Indexed
import BaseSkeleton.Job.Lease
import BaseSkeleton.Job.World
import BaseSkeleton.Job.WorkerProtocol

/-!
# The invariant of a world

Runs and statements interleave in any order, and statements may arrive late. The invariant of a
world says that the attempt of every run whose deadline has not passed stands (`Holds`), and why
no other run ends it: no two runs hold the same attempt of a job, and a statement that names an
attempt was sent by the run that holds it.

* `Backed` — a statement belongs to a run that has claimed its attempt.
* `Inv` — the invariant of a world; it is kept by time, new runs, statements and their answers.
-/

namespace BaseSkeleton.Job

/-! ## Runs, their jobs and their statements

What a run has is spread over its log, its phase and the answer it has not seen yet; the invariant
is stated over the three of them. -/

namespace Execution

/-- The job the run has claimed, or will learn it has claimed. -/
def job (e : Execution) : Option ClaimedJob :=
  match e.call with
  | .answered (.claim (.ok (some job))) => some job
  | _ => claimedJob e.run.log

/-- The run has sent its own `complete` or `fail`. -/
def Written (e : Execution) : Prop :=
  Happened Action.isTerminalWrite e.run.log

/-- The local deadline: `claimed_at + L`, moved by each successful renewal. -/
def localDeadline (lease : Duration) (e : Execution) : Instant :=
  ownedUntil lease e.run.claimedAt e.run.log

/-- The start of a renewal that has succeeded, when the run does not know it yet. -/
def renewedAt (e : Execution) : Option Instant :=
  match e.run.phase, e.call with
  | .renewing _ _ renewalStarted _, .answered (.lease (.ok ())) => some renewalStarted
  | _, _ => none

/-- The run has learned that it claimed this attempt of this job under this worker id. -/
def Claimed (e : Execution) (id : Uuid) (workerId : String) (attempt : Nat) : Prop :=
  e.worker.config.workerId = workerId ∧
    ∃ job, claimedJob e.run.log = some job ∧ job.id = id ∧ job.attempts = attempt

end Execution

/-- A statement was sent by a run that may send it. -/
def Backed (lease : Duration) (executions : List Execution) : Statement → Prop
  | .reap l => l = lease
  | .renew id workerId attempt => ∃ e ∈ executions, e.Claimed id workerId attempt
  | .complete id workerId attempt => ∃ e ∈ executions, e.Claimed id workerId attempt ∧ e.Written
  | .fail id workerId attempt _ _ => ∃ e ∈ executions, e.Claimed id workerId attempt ∧ e.Written
  | _ => True

/-- The call a run waits for is the one its phase is about. -/
def CallSound (e : Execution) : Prop :=
  match e.call with
  | .idle => e.run.phase.statement e.worker = none
  | .sent s => e.run.phase.statement e.worker = some s ∨
      (e.run.phase = .claiming ∧ s = .claim e.worker.config.workerId)
  | .answered (.claim _) => e.run.phase = .claiming
  | .answered _ => e.run.phase ≠ .claiming ∧ (e.run.phase.statement e.worker).isSome

/-- A run as `run_once` makes it, at most as far as the clock. -/
structure Running (lease : Duration) (now : Instant) (e : Execution) : Prop where
  lease_eq : e.worker.config.leaseTimeout = lease
  reachable : (e.worker.runOnce e.run.claimedAt).Reachable e.run
  claimedAt_le : e.run.claimedAt ≤ now
  now_le : e.run.now ≤ now
  call : CallSound e

/-- The database backs the deadline of a run, also the one a renewal it does not know of yet will
give it. -/
def Held (lease : Duration) (now : Instant) (db : Db) (e : Execution) : Prop :=
  ∀ job, e.job = some job →
    Holds lease now db job.id e.worker.config.workerId job.attempts (e.localDeadline lease) ∧
      ∀ renewalStarted, e.renewedAt = some renewalStarted →
        Holds lease now db job.id e.worker.config.workerId job.attempts (renewalStarted + lease)

/-- The invariant of a world. -/
structure Inv (lease : Duration) (W : World) : Prop where
  running : ∀ e ∈ W.executions, Running lease W.now e
  orphans : ∀ s ∈ W.orphans, Backed lease W.executions s
  pending : ∀ e ∈ W.executions, ∀ s ∈ e.call.pending, Backed lease W.executions s
  executed : ∀ entry ∈ W.db.log, Backed lease W.executions entry.statement
  counted : ∀ e ∈ W.executions, ∀ job, e.job = some job →
    job.attempts ∈ claimedAttempts job.id W.db.log
  distinct : ∀ (i j : Nat) (e f : Execution) (job job' : ClaimedJob),
    W.executions[i]? = some e → W.executions[j]? = some f → e.job = some job →
    f.job = some job' → job.id = job'.id → job.attempts = job'.attempts → i = j
  held : ∀ e ∈ W.executions, Held lease W.now W.db e

/-! ## What a run's own log says

A run learns of its job from the answer of its claim, and of nothing else. So what it works on can
be read off its log, and a statement it has sent names it. -/

variable {lease : Duration} {now : Instant} {e e' : Execution} {W : World}
  {executions executions' : List Execution} {s : Statement}

/-- The log of a run is lawful. -/
theorem Running.suspended (h : Running lease now e) :
    Suspended e.worker e.run.claimedAt e.run.log e.run.phase :=
  (reachable_lawful h.reachable).2.1

/-- What a run has learned it has claimed, it has claimed. -/
theorem Running.job_of_claimed {job : ClaimedJob} (h : Running lease now e)
    (hjob : claimedJob e.run.log = some job) : e.job = some job := by
  have hsuspended := h.suspended
  have hcall := h.call
  unfold CallSound at hcall
  unfold Execution.job
  split
  · next hanswered =>
    rw [hanswered] at hcall
    rw [hcall] at hsuspended
    rw [show e.run.log = [] from hsuspended] at hjob
    cases hjob
  · exact hjob

/-- The statement of a phase is one the run may send. -/
theorem Running.backed (h : Running lease now e) (hmem : e ∈ executions)
    (hs : e.run.phase.statement e.worker = some s) : Backed lease executions s := by
  have hsuspended := h.suspended
  generalize e.run.phase = phase at hs hsuspended
  cases phase with
  | claiming =>
    cases hs
    exact h.lease_eq
  | renewing job deadline renewalStarted finished =>
    cases hs
    exact ⟨e, hmem, rfl, job, hsuspended.1.job_claimed, rfl, rfl⟩
  | completing job deadline =>
    cases hs
    exact ⟨e, hmem, ⟨rfl, job, hsuspended.1, rfl, rfl⟩, hsuspended.2⟩
  | failing job message delay deadline =>
    cases hs
    exact ⟨e, hmem, ⟨rfl, job, hsuspended.1, rfl, rfl⟩, hsuspended.2⟩
  | _ => cases hs

/-- What `e` has learned and done, `e'` has too. -/
structure Extended (e e' : Execution) : Prop where
  worker : e'.worker = e.worker
  claimed : ∀ job, claimedJob e.run.log = some job → claimedJob e'.run.log = some job
  written : e.Written → e'.Written

/-- A run extends itself. -/
theorem Extended.refl (e : Execution) : Extended e e :=
  ⟨rfl, fun _ h => h, fun h => h⟩

/-- A statement stays backed while the runs go on. -/
theorem Backed.mono (h : Backed lease executions s)
    (hext : ∀ e ∈ executions, ∃ e' ∈ executions', Extended e e') :
    Backed lease executions' s := by
  have hclaimed : ∀ {id workerId attempt} {e e' : Execution}, Extended e e' →
      e.Claimed id workerId attempt → e'.Claimed id workerId attempt := by
    rintro id workerId attempt e e' hext ⟨hworker, job, hjob, hid, hattempts⟩
    exact ⟨hext.worker ▸ hworker, job, hext.claimed job hjob, hid, hattempts⟩
  cases s with
  | renew id workerId attempt =>
    obtain ⟨e, hmem, hc⟩ := h
    obtain ⟨e', hmem', he⟩ := hext e hmem
    exact ⟨e', hmem', hclaimed he hc⟩
  | complete id workerId attempt =>
    obtain ⟨e, hmem, hc, hw⟩ := h
    obtain ⟨e', hmem', he⟩ := hext e hmem
    exact ⟨e', hmem', hclaimed he hc, he.written hw⟩
  | fail id workerId attempt error retryDelay =>
    obtain ⟨e, hmem, hc, hw⟩ := h
    obtain ⟨e', hmem', he⟩ := hext e hmem
    exact ⟨e', hmem', hclaimed he hc, he.written hw⟩
  | _ => exact h

/-! ## Changing one execution

Every event changes one execution at most. `inv_set` asks what is needed of the one that changes,
and takes the rest from the invariant before. -/

variable {i : Nat}

/-- When one run goes on, the others are extended by themselves. -/
theorem extended_set (he : W.executions[i]? = some e) (hext : Extended e e') :
    ∀ f ∈ W.executions, ∃ f' ∈ W.executions.set i e', Extended f f' := by
  intro f hf
  obtain ⟨j, hj⟩ := List.mem_iff_getElem?.mp hf
  by_cases hij : j = i
  · subst hij
    obtain rfl : e = f := Option.some.inj (he.symm.trans hj)
    have hlen : j < W.executions.length := (List.getElem?_eq_some_iff.mp he).1
    exact ⟨e', List.mem_set hlen e', hext⟩
  · have hj' : (W.executions.set i e')[j]? = some f := by
      rw [List.getElem?_set_ne (Ne.symm hij)]
      exact hj
    exact ⟨f, List.mem_of_getElem? hj', Extended.refl f⟩

/-- Replacing one execution by one that extends it keeps the invariant, if the new one satisfies
it where it differs. -/
theorem inv_set (hinv : Inv lease W) (he : W.executions[i]? = some e) (hext : Extended e e')
    (hrun : Running lease W.now e')
    (hpending : ∀ s ∈ e'.call.pending, Backed lease (W.executions.set i e') s)
    {orphans : List Statement}
    (horphans : ∀ s ∈ orphans, s ∈ W.orphans ∨ s ∈ e.call.pending)
    (hjob : ∀ job, e'.job = some job → e.job = some job ∨
      (job.attempts ∈ claimedAttempts job.id W.db.log ∧
        ∀ f ∈ W.executions, ∀ job', f.job = some job' → job'.id = job.id →
          job'.attempts ≠ job.attempts))
    (hheld : Held lease W.now W.db e') :
    Inv lease { W with executions := W.executions.set i e', orphans := orphans } := by
  have hmem : e ∈ W.executions := List.mem_of_getElem? he
  -- a run only adds to its log, so what it stood for it still stands for
  have hback : ∀ s, Backed lease W.executions s → Backed lease (W.executions.set i e') s :=
    fun s hs => hs.mono (extended_set he hext)
  have hcases : ∀ f ∈ W.executions.set i e', f = e' ∨ f ∈ W.executions := by
    intro f hf
    rcases List.mem_or_eq_of_mem_set hf with hf | hf
    · exact Or.inr hf
    · exact Or.inl hf
  refine ⟨?_, ?_, ?_, ?_, ?_, ?_, ?_⟩
  · intro f hf
    rcases hcases f hf with rfl | hf
    · exact hrun
    · exact hinv.running f hf
  · intro s hs
    rcases horphans s hs with hs | hs
    · exact hback s (hinv.orphans s hs)
    · exact hback s (hinv.pending e hmem s hs)
  · intro f hf s hs
    rcases hcases f hf with rfl | hf
    · exact hpending s hs
    · exact hback s (hinv.pending f hf s hs)
  · exact fun entry hentry => hback _ (hinv.executed entry hentry)
  · intro f hf job hfjob
    rcases hcases f hf with rfl | hf
    · rcases hjob job hfjob with hold | ⟨hcounted, _⟩
      · exact hinv.counted e hmem job hold
      · exact hcounted
    · exact hinv.counted f hf job hfjob
  · intro j k f g job job' hj hk hfjob hgjob hid hattempts
    -- the replaced run has the job it had, or one that no other run has had
    rcases Indexed.getElem?_set_cases hj with ⟨rfl, rfl⟩ | ⟨_, hjold⟩ <;>
      rcases Indexed.getElem?_set_cases hk with ⟨rfl, rfl⟩ | ⟨_, hkold⟩
    · rfl
    · rcases hjob job hfjob with hold | ⟨_, hnew⟩
      · exact hinv.distinct j k e g job job' he hkold hold hgjob hid hattempts
      · exact absurd hattempts.symm (hnew g (List.mem_of_getElem? hkold) job' hgjob hid.symm)
    · rcases hjob job' hgjob with hold | ⟨_, hnew⟩
      · exact hinv.distinct j k f e job job' hjold he hfjob hold hid hattempts
      · exact absurd hattempts (hnew f (List.mem_of_getElem? hjold) job hfjob hid)
    · exact hinv.distinct j k f g job job' hjold hkold hfjob hgjob hid hattempts
  · intro f hf
    rcases hcases f hf with rfl | hf
    · exact hheld
    · exact hinv.held f hf

/-! ## Time, new runs, statements

The events that no run hears of at once. -/

/-- Time passes. -/
theorem inv_tick (hinv : Inv lease W) (elapsed : Duration) :
    Inv lease { W with now := W.now + elapsed } where
  running f hf :=
    have h := hinv.running f hf
    { h with
      claimedAt_le := Nat.le_trans h.claimedAt_le (Nat.le_add_right _ _)
      now_le := Nat.le_trans h.now_le (Nat.le_add_right _ _) }
  orphans := hinv.orphans
  pending := hinv.pending
  executed := hinv.executed
  counted := hinv.counted
  distinct := hinv.distinct
  held f hf job hjob :=
    have h := hinv.held f hf job hjob
    ⟨h.1.tick elapsed, fun renewalStarted hrenewed => (h.2 renewalStarted hrenewed).tick elapsed⟩

/-- A run starts, and sends the reap of its claim. -/
theorem inv_start (hinv : Inv lease W) {worker : JobWorker}
    (hlease : worker.config.leaseTimeout = lease) :
    Inv lease
      { W with executions := W.executions ++
          [⟨worker, (worker.runOnce W.now).init, .sent (.reap lease)⟩] } := by
  have hback : ∀ s, Backed lease W.executions s → Backed lease (W.executions ++
      [⟨worker, (worker.runOnce W.now).init, .sent (.reap lease)⟩]) s :=
    fun s hs => hs.mono fun f hf => ⟨f, List.mem_append_left _ hf, Extended.refl f⟩
  have hcases : ∀ f ∈ W.executions ++
      [⟨worker, (worker.runOnce W.now).init, .sent (.reap lease)⟩], f ∈ W.executions ∨
      f = ⟨worker, (worker.runOnce W.now).init, .sent (.reap lease)⟩ := by
    intro f hf
    simpa using hf
  refine ⟨?_, ?_, ?_, ?_, ?_, ?_, ?_⟩
  · intro f hf
    rcases hcases f hf with hf | rfl
    · exact hinv.running f hf
    · refine ⟨hlease, Machine.reachable_init, Nat.le_refl _, Nat.le_refl _, Or.inl ?_⟩
      show some (Statement.reap worker.config.leaseTimeout) = _
      rw [hlease]
  · intro s hs
    exact hback s (hinv.orphans s hs)
  · intro f hf s hs
    rcases hcases f hf with hf | rfl
    · exact hback s (hinv.pending f hf s hs)
    · obtain rfl : s = .reap lease := List.mem_singleton.mp hs
      exact rfl
  · exact fun entry hentry => hback _ (hinv.executed entry hentry)
  · intro f hf job hjob
    rcases hcases f hf with hf | rfl
    · exact hinv.counted f hf job hjob
    · cases hjob
  · intro j k f g job job' hj hk hfjob hgjob hid hattempts
    -- the new run has claimed nothing
    have hold : ∀ {n : Nat} {x : Execution} {jx : ClaimedJob}, (W.executions ++
        [⟨worker, (worker.runOnce W.now).init, .sent (.reap lease)⟩])[n]? = some x →
        x.job = some jx → W.executions[n]? = some x := by
      intro n x jx hn hx
      rcases Indexed.getElem?_append_cases hn with hn | ⟨_, rfl⟩
      · exact hn
      · cases hx
    exact hinv.distinct j k f g job job' (hold hj hfjob) (hold hk hgjob) hfjob hgjob hid hattempts
  · intro f hf
    rcases hcases f hf with hf | rfl
    · exact hinv.held f hf
    · intro job hjob
      cases hjob

/-- An attempt that was claimed stays claimed. -/
theorem mem_claimedAttempts_apply {db : Db} {id : Uuid} {k : Nat} (q : Request)
    (h : k ∈ claimedAttempts id db.log) : k ∈ claimedAttempts id (db.apply q).log := by
  rcases Db.apply_cases db q with hsame | ⟨rows, _, hlog⟩
  · rwa [hsame]
  · rw [hlog, claimedAttempts]
    split
    · exact List.mem_cons_of_mem _ h
    · exact h

/-- The database executes a statement that is on its way. -/
theorem inv_apply (hinv : Inv lease W) (hqueue : queue.Reachable W.db) (skip : List Uuid)
    (hbacked : Backed lease W.executions s)
    (hd : DistinctIds (W.db.apply ⟨W.now, s, skip⟩).log) :
    Inv lease { W with db := W.db.apply ⟨W.now, s, skip⟩ } where
  running := hinv.running
  orphans := hinv.orphans
  pending := hinv.pending
  executed := by
    rcases Db.apply_cases W.db ⟨W.now, s, skip⟩ with hsame | ⟨rows, _, hlog⟩
    · rw [hsame]
      exact hinv.executed
    · show ∀ entry ∈ (W.db.apply ⟨W.now, s, skip⟩).log, _
      rw [hlog]
      exact List.forall_mem_cons.mpr ⟨hbacked, hinv.executed⟩
  counted f hf job hjob := mem_claimedAttempts_apply _ (hinv.counted f hf job hjob)
  distinct := hinv.distinct
  held := by
    intro f hf job hjob
    have hreap : ∀ l, s = .reap l → l = lease := by
      rintro l rfl
      exact hbacked
    have h := hinv.held f hf job hjob
    exact ⟨h.1.apply skip hqueue hd hreap,
      fun renewalStarted hrenewed => (h.2 renewalStarted hrenewed).apply skip hqueue hd hreap⟩

/-! ## Answers

A claim that is answered brings a job to a run. That no other run has the attempt follows from the
log: each attempt is claimed once. -/

/-- A claim that returned a job: the row backs the deadline the run will start with, and no run
has had this attempt before. -/
def FreshClaim (lease : Duration) (W : World) (workerId : String) (job : ClaimedJob) : Prop :=
  (∀ claimedAt ≤ W.now, Holds lease W.now W.db job.id workerId job.attempts
      (claimedAt + lease)) ∧
    job.attempts ∈ claimedAttempts job.id W.db.log ∧
    ∀ f ∈ W.executions, ∀ job', f.job = some job' → job'.id = job.id →
      job'.attempts ≠ job.attempts

/-- A run whose call is on its way knows what its log says. -/
theorem Execution.job_of_sent (hcall : e.call = .sent s) : e.job = claimedJob e.run.log := by
  rw [Execution.job, hcall]

/-- A renewal that was answered, and not heard of yet, is one of a run that is renewing. -/
theorem renewedAt_eq_some {renewalStarted : Instant} (h : e.renewedAt = some renewalStarted) :
    e.call = .answered (.lease (.ok ())) ∧
      ∃ job deadline finished, e.run.phase = .renewing job deadline renewalStarted finished := by
  unfold Execution.renewedAt at h
  split at h
  · next hphase hcall =>
    cases h
    exact ⟨hcall, _, _, _, hphase⟩
  · cases h

/-- A run that is claiming has done nothing before. -/
theorem Running.log_of_claiming (h : Running lease now e) (hphase : e.run.phase = .claiming) :
    e.run.log = [] := by
  have hsuspended := h.suspended
  rw [hphase] at hsuspended
  exact hsuspended

/-- The job of a claim that is answered is the one in the answer. -/
theorem job_of_claim_answered {job : ClaimedJob} {workerId : String}
    {result : Except SqlError (JobTable × List JobRow)} (hlog : e.run.log = [])
    (h : ({ e with call := e.afterStatement (.claim workerId) result } : Execution).job =
      some job) : PostgresJobQueue.answer PostgresJobQueue.readClaim result = .ok (some job) := by
  unfold Execution.job at h
  split at h
  · next hcall =>
    cases h
    exact Reply.claim.inj (Call.answered.inj hcall)
  · rw [show e.run.log = [] from hlog] at h
    cases h

/-- A run that waits for another call keeps the job it had, or has a fresh one. -/
theorem inv_setCall (hinv : Inv lease W) (he : W.executions[i]? = some e) {call : Call}
    {orphans : List Statement} (horphans : ∀ t ∈ orphans, t ∈ W.orphans ∨ t ∈ e.call.pending)
    (hsound : CallSound { e with call := call })
    (hpending : ∀ t ∈ call.pending, t = .claim e.worker.config.workerId)
    (hjob : ∀ job, ({ e with call := call } : Execution).job = some job → e.job = some job ∨
      FreshClaim lease W e.worker.config.workerId job)
    (hheld : Held lease W.now W.db { e with call := call }) :
    Inv lease (({ W with orphans := orphans } : World).setCall i e call) := by
  show Inv lease
    { W with executions := W.executions.set i { e with call := call }, orphans := orphans }
  have hrun := hinv.running e (List.mem_of_getElem? he)
  have hrun' : Running lease W.now { e with call := call } :=
    ⟨hrun.lease_eq, hrun.reachable, hrun.claimedAt_le, hrun.now_le, hsound⟩
  have hext : Extended e { e with call := call } := ⟨rfl, fun _ h => h, fun h => h⟩
  refine inv_set hinv he hext hrun' ?_ horphans ?_ hheld
  · intro t ht
    rw [hpending t ht]
    trivial
  · intro job h
    rcases hjob job h with hold | ⟨_, hnew⟩
    · exact Or.inl hold
    · exact Or.inr hnew

/-- A run that is not renewing holds its lease as before, whatever it is answered. -/
theorem Held.setCall {db : Db} (hheld : Held lease now db e) {call : Call}
    (hjob : e.job = ({ e with call := call } : Execution).job)
    (hphase : ∀ job deadline renewalStarted finished,
      e.run.phase ≠ .renewing job deadline renewalStarted finished) :
    Held lease now db { e with call := call } := by
  intro job h
  refine ⟨(hheld job (hjob.trans h)).1, fun started hstarted => ?_⟩
  obtain ⟨_, _, _, _, hrenewing⟩ := renewedAt_eq_some hstarted
  exact absurd hrenewing (hphase _ _ _ _)

/-- The outstanding statement of a run is answered with `result`. -/
theorem inv_answered (hinv : Inv lease W) (he : W.executions[i]? = some e)
    (hcall : e.call = .sent s) (result : Except SqlError (JobTable × List JobRow))
    (orphans : List Statement) (horphans : ∀ t ∈ orphans, t ∈ W.orphans ∨ t = s)
    (hclaim : ∀ job, s = .claim e.worker.config.workerId →
      PostgresJobQueue.answer PostgresJobQueue.readClaim result = .ok (some job) →
      FreshClaim lease W e.worker.config.workerId job)
    (hrenew : ∀ id workerId attempt, s = .renew id workerId attempt →
      PostgresJobQueue.answer PostgresJobQueue.readLease result = .ok () →
      ∀ renewalStarted ≤ W.now,
        Holds lease W.now W.db id workerId attempt (renewalStarted + lease)) :
    Inv lease (({ W with orphans := orphans } : World).setCall i e
      (e.afterStatement s result)) := by
  have hmem : e ∈ W.executions := List.mem_of_getElem? he
  have hrun := hinv.running e hmem
  have hheld := hinv.held e hmem
  have hejob := e.job_of_sent hcall
  have hback : ∀ t ∈ orphans, t ∈ W.orphans ∨ t ∈ e.call.pending := by
    intro t ht
    rcases horphans t ht with h | rfl
    · exact Or.inl h
    · exact Or.inr (by rw [hcall]; exact List.mem_singleton_self t)
  have hsound := hrun.call
  rw [CallSound, hcall] at hsound
  rcases hsound with hstatement | ⟨hphase, rfl⟩
  · generalize hphase : e.run.phase = phase at hstatement
    cases phase with
    | claiming =>
      -- the reap is followed by the claim statement, or the call fails
      cases hstatement
      have hidle : ∀ job deadline renewalStarted finished,
          e.run.phase ≠ .renewing job deadline renewalStarted finished := by
        simp [hphase]
      cases result with
      | error error =>
        exact inv_setCall hinv he hback hphase nofun (fun job hjob => Or.inl (hejob.trans hjob))
          (hheld.setCall hejob hidle)
      | ok rows =>
        exact inv_setCall hinv he hback (Or.inr ⟨hphase, rfl⟩)
          (fun t ht => List.mem_singleton.mp ht) (fun job hjob => Or.inl (hejob.trans hjob))
          (hheld.setCall hejob hidle)
    | renewing job deadline renewalStarted finished =>
      cases hstatement
      have hsuspended := hrun.suspended
      rw [hphase] at hsuspended
      refine inv_setCall hinv he hback ⟨by simp [hphase], by simp [hphase, Phase.statement]⟩ nofun
        (fun job' hjob' => Or.inl (hejob.trans hjob')) ?_
      intro job' hjob'
      obtain rfl : job' = job :=
        Option.some.inj ((Eq.symm hjob').trans hsuspended.1.job_claimed)
      refine ⟨(hheld job' (hejob.trans hjob')).1, fun started hstarted => ?_⟩
      obtain ⟨hok, _, _, _, hphase'⟩ := renewedAt_eq_some hstarted
      cases hphase.symm.trans hphase'
      have hanswer : PostgresJobQueue.answer PostgresJobQueue.readLease result = .ok () := by
        have hreply := Call.answered.inj hok
        exact Reply.lease.inj hreply
      have hstart : renewalStarted ≤ W.now := by
        rw [← hsuspended.2.1]
        exact (renewalStart_le hrun.reachable).trans hrun.now_le
      exact hrenew _ _ _ rfl hanswer renewalStarted hstart
    | completing job deadline =>
      cases hstatement
      exact inv_setCall hinv he hback ⟨by simp [hphase], by simp [hphase, Phase.statement]⟩ nofun
        (fun job' hjob' => Or.inl (hejob.trans hjob')) (hheld.setCall hejob (by simp [hphase]))
    | failing job message delay deadline =>
      cases hstatement
      exact inv_setCall hinv he hback ⟨by simp [hphase], by simp [hphase, Phase.statement]⟩ nofun
        (fun job' hjob' => Or.inl (hejob.trans hjob')) (hheld.setCall hejob (by simp [hphase]))
    | _ => cases hstatement
  · -- the claim statement: either it returned a job nobody had, or the run has nothing
    have hlog := hrun.log_of_claiming hphase
    refine inv_setCall hinv he hback hphase nofun ?_ ?_
    · intro job hjob
      have hanswer := job_of_claim_answered hlog hjob
      exact Or.inr (hclaim job rfl hanswer)
    · intro job hjob
      have hanswer := job_of_claim_answered hlog hjob
      refine ⟨?_, fun started hstarted => ?_⟩
      · show Holds lease W.now W.db job.id e.worker.config.workerId job.attempts
          (ownedUntil lease e.run.claimedAt e.run.log)
        rw [hlog]
        exact (hclaim job rfl hanswer).1 e.run.claimedAt hrun.claimedAt_le
      · obtain ⟨_, _, _, _, hphase'⟩ := renewedAt_eq_some hstarted
        cases hphase.symm.trans hphase'

/-- The statement a run waits for takes effect. -/
theorem inv_execute (hinv : Inv lease W) (hqueue : queue.Reachable W.db)
    (he : W.executions[i]? = some e) (hcall : e.call = .sent s) (skip : List Uuid)
    (hd : DistinctIds (W.db.apply ⟨W.now, s, skip⟩).log) :
    Inv lease (({ W with db := W.db.apply ⟨W.now, s, skip⟩ } : World).setCall i e
      (e.afterStatement s (s.exec skip W.now W.db.table))) := by
  have hmem : e ∈ W.executions := List.mem_of_getElem? he
  have hbacked : Backed lease W.executions s :=
    hinv.pending e hmem s (by rw [hcall]; exact List.mem_singleton_self s)
  refine inv_answered (inv_apply hinv hqueue skip hbacked hd) he hcall _ W.orphans
    (fun t ht => Or.inl ht) ?_ ?_
  · rintro job rfl hanswer
    have hattempts := (holds_of_claimed lease (Nat.le_refl W.now) hanswer).2
    have hnodup := claimedAttempts_nodup (hqueue.next rfl) hd job.id
    rw [hattempts, List.nodup_cons] at hnodup
    refine ⟨fun claimedAt hle => (holds_of_claimed lease hle hanswer).1, ?_, ?_⟩
    · rw [hattempts]
      exact List.mem_cons_self
    · intro f hf job' hjob' hid hsame
      have hcounted := hinv.counted f hf job' hjob'
      rw [hid, hsame] at hcounted
      exact hnodup.1 hcounted
  · rintro id workerId attempt rfl hanswer renewalStarted hstarted
    exact holds_of_renewed hstarted hanswer

/-- A call that had its answer fails instead. -/
theorem inv_disconnected {reply : Reply} (hinv : Inv lease W) (he : W.executions[i]? = some e)
    (hcall : e.call = .answered reply) :
    Inv lease (W.setCall i e (.answered reply.unavailable)) := by
  have hmem : e ∈ W.executions := List.mem_of_getElem? he
  have hrun := hinv.running e hmem
  have hsound : CallSound { e with call := .answered reply.unavailable } := by
    have hold := hrun.call
    rw [CallSound, hcall] at hold
    cases reply <;> exact hold
  have hrun' : Running lease W.now { e with call := .answered reply.unavailable } :=
    ⟨hrun.lease_eq, hrun.reachable, hrun.claimedAt_le, hrun.now_le, hsound⟩
  have hext : Extended e { e with call := .answered reply.unavailable } :=
    ⟨rfl, fun _ h => h, fun h => h⟩
  -- a claim whose answer is lost is forgotten; the row stays claimed until it is reaped
  have hjob : ∀ job, ({ e with call := .answered reply.unavailable } : Execution).job = some job →
      e.job = some job := by
    intro job hjob
    have hclaimed : claimedJob e.run.log = some job := by
      cases reply <;> exact hjob
    exact hrun.job_of_claimed hclaimed
  show Inv lease { W with
    executions := W.executions.set i { e with call := .answered reply.unavailable }
    orphans := W.orphans }
  refine inv_set hinv he hext hrun' nofun (fun t ht => Or.inl ht)
    (fun job h => Or.inl (hjob job h)) ?_
  intro job h
  refine ⟨(hinv.held e hmem job (hjob job h)).1, fun started hstarted => ?_⟩
  have hok := (renewedAt_eq_some hstarted).1
  cases reply <;> cases hok

end BaseSkeleton.Job
