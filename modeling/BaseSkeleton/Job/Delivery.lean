import BaseSkeleton.Job.MutualExclusion
import BaseSkeleton.Job.Retention

/-!
# What a row says did happen

A row that is over, or that went back to `pending`, names an outcome. In every interleaving that
outcome was produced by the run that held the attempt the row counts.

* `Sourced` — a `complete` or `fail` was sent by a run that had claimed its attempt, after the
  matching result of the handler. Every statement is sourced, in flight or executed
  (`reachable_sourced`).
* `Effect` — what one event does to the executions, the statements in flight and the database.
* `reachable_carried` — every run works on a job as it was enqueued.
* `outcomes_truthful` — from a row to the handler that made it so.
-/

namespace BaseSkeleton.Job

/-! ## What a run has written

A run that took an action had claimed its job before. The statements that name an attempt point to
such a run, and go on pointing to it while its log grows. -/

/-- The run has taken `action` after it had claimed `job`. -/
def Execution.Took (e : Execution) (job : ClaimedJob) (action : Action) : Prop :=
  ∃ newer t older, e.run.log = newer ++ (t, action) :: older ∧ claimedJob older = some job

/-- Some run has taken `action` for this attempt of this job. -/
def Reported (executions : List Execution) (id : Uuid) (workerId : String) (attempt : Nat)
    (action : Action) : Prop :=
  ∃ e ∈ executions, e.worker.config.workerId = workerId ∧
    ∃ job, e.Took job action ∧ job.id = id ∧ job.attempts = attempt

/-- A terminal write was sent by a run that wrote it. -/
def Sourced (executions : List Execution) : Statement → Prop
  | .complete id workerId attempt => Reported executions id workerId attempt .completeSent
  | .fail id workerId attempt error retryDelay =>
    Reported executions id workerId attempt (.failSent error retryDelay)
  | _ => True

/-- The log of `e` is the older part of the log of `e'`. -/
structure Grown (e e' : Execution) : Prop where
  worker : e'.worker = e.worker
  log : ∃ newer, e'.run.log = newer ++ e.run.log

variable {lease : Duration} {W W' : World} {e e' : Execution} {i : Nat} {s : Statement}
  {executions executions' : List Execution} {job : ClaimedJob}

/-- A log is a part of itself. -/
theorem Grown.refl (e : Execution) : Grown e e := ⟨rfl, [], rfl⟩

/-- What a run took it has taken. -/
theorem Execution.Took.grown {action : Action} (h : e.Took job action) (hgrown : Grown e e') :
    e'.Took job action := by
  obtain ⟨newer, t, older, hlog, hjob⟩ := h
  obtain ⟨newest, hnewest⟩ := hgrown.log
  exact ⟨newest ++ newer, t, older, by rw [hnewest, hlog, List.append_assoc], hjob⟩

/-- A statement keeps its source while the runs go on. -/
theorem Sourced.mono (h : Sourced executions s)
    (hgrown : ∀ e ∈ executions, ∃ e' ∈ executions', Grown e e') : Sourced executions' s := by
  have hreported : ∀ {id workerId attempt action}, Reported executions id workerId attempt action →
      Reported executions' id workerId attempt action := by
    rintro id workerId attempt action ⟨e, he, hworker, job, htook, hjob⟩
    obtain ⟨e', he', hee'⟩ := hgrown e he
    exact ⟨e', he', hee'.worker ▸ hworker, job, htook.grown hee', hjob⟩
  cases s with
  | complete id workerId attempt => exact hreported h
  | fail id workerId attempt error retryDelay => exact hreported h
  | _ => trivial

/-- When one run goes on, the others stay as they are. -/
theorem grown_set (he : W.executions[i]? = some e) (hgrown : Grown e e') :
    ∀ f ∈ W.executions, ∃ f' ∈ W.executions.set i e', Grown f f' := by
  intro f hf
  obtain ⟨j, hj⟩ := List.mem_iff_getElem?.mp hf
  by_cases hij : j = i
  · subst hij
    obtain rfl : e = f := Option.some.inj (he.symm.trans hj)
    exact ⟨e', List.mem_set (List.getElem?_eq_some_iff.mp he).1 e', hgrown⟩
  · refine ⟨f, List.mem_of_getElem? (i := j) ?_, Grown.refl f⟩
    rw [List.getElem?_set_ne (Ne.symm hij)]
    exact hj

/-! ## One run

Facts about a single execution of `run_once`, whatever the world answers: a write is sent once the
handler has returned, and the claim comes first and only once. -/

/-- A run that waits for its terminal write has sent it. -/
def Sent (log : ActionLog) : Phase → Prop
  | .completing job _ => ∃ newer t older,
      log = newer ++ (t, .completeSent) :: older ∧ claimedJob older = some job
  | .failing job message delay _ => ∃ newer t older,
      log = newer ++ (t, .failSent message delay) :: older ∧ claimedJob older = some job
  | _ => True

section Run

variable {w : JobWorker} {start : Instant} {run : RunOnce} {p : Poll} {phase phase' : Phase}
  {action : Option Action} {log : ActionLog} {claimedAt : Instant}

/-- A move into the wait for a terminal write logs that it was sent. -/
theorem move_sent (h : w.Move claimedAt p phase action phase')
    (hsuspended : Suspended w claimedAt log phase) (hs : Sent log phase) :
    Sent ((action.map fun a => (p.now, a)).toList ++ log) phase' := by
  cases h with
  | sendComplete job deadline _ => exact ⟨[], p.now, log, rfl, hsuspended.1.job_claimed⟩
  | sendFail job error deadline _ => exact ⟨[], p.now, log, rfl, hsuspended.1.job_claimed⟩
  | completePending job deadline _ => exact hs
  | failPending job message delay deadline _ => exact hs
  | renewAnswered job deadline renewalStarted finished answer _ =>
    match answer, finished with
    | .ok (), none => trivial
    | .ok (), some result => trivial
    | .error .leaseLost, _ => trivial
    | .error .unavailable, none => trivial
    | .error .unavailable, some result => trivial
  | _ => trivial

/-- **The run lemma.** -/
theorem reachable_sent (h : (w.runOnce start).Reachable run) : Sent run.log run.phase := by
  refine Machine.Reachable.invariant (P := fun run : RunOnce => Sent run.log run.phase)
    ?_ ?_ h
  · trivial
  · intro s p s' hreach hs hstep
    obtain ⟨hclaimedAt, hsuspended, _⟩ := reachable_lawful hreach
    obtain ⟨_, action, hmove, _, _, hlog⟩ := JobWorker.poll_move hstep
    rw [hclaimedAt] at hmove
    rw [hlog]
    exact move_sent hmove hsuspended hs

/-- A result is one of a handler that is registered for the job. -/
theorem move_registered (h : w.Move claimedAt p phase action phase')
    (hsuspended : Suspended w claimedAt log phase) {result : HandlerResult}
    (hresult : action = some (.handlerReturned result)) :
    ∃ job, claimedJob log = some job ∧ job.jobType ∈ w.handlers := by
  have hregistered : ∀ {job : ClaimedJob} {handler answer : Option HandlerResult},
      w.pollHandler job handler = (.handlerReturned result, answer) →
        job.jobType ∈ w.handlers := by
    intro job handler answer hpoll
    unfold JobWorker.pollHandler at hpoll
    split at hpoll
    · assumption
    · cases hpoll
  cases h with
  | handled job deadline nextRenewal action _ hpoll =>
    cases hresult
    exact ⟨job, hsuspended.1.job_claimed, hregistered hpoll⟩
  | handlerPending job deadline nextRenewal action hpoll =>
    cases hresult
    exact ⟨job, hsuspended.1.job_claimed, hregistered hpoll⟩
  | handlerTimedOut job deadline nextRenewal action hpoll _ =>
    cases hresult
    exact ⟨job, hsuspended.1.job_claimed, hregistered hpoll⟩
  | renewPendingHandled job deadline renewalStarted action answer _ hpoll =>
    cases hresult
    exact ⟨job, hsuspended.1.job_claimed, hregistered hpoll⟩
  | _ => cases hresult

/-- A run claims once, before anything else. -/
theorem reachable_claimed_once (h : (w.runOnce start).Reachable run) {newer older : ActionLog}
    (hlog : run.log = newer ++ older) (hjob : claimedJob older = some job) :
    claimedJob run.log = some job := by
  refine Machine.Reachable.invariant (P := fun run : RunOnce => ∀ newer,
    run.log = newer ++ older → claimedJob run.log = some job) ?_ ?_ h newer hlog
  · intro newer hlog
    obtain rfl := (List.append_eq_nil_iff.mp hlog.symm).2
    cases hjob
  · intro s p s' hreach ih hstep newer hlog
    cases newer with
    | nil => rw [hlog, List.nil_append, hjob]
    | cons newest newer =>
      obtain ⟨hclaimedAt, hsuspended, _⟩ := reachable_lawful hreach
      obtain ⟨_, action, hmove, _, _, hlog'⟩ := JobWorker.poll_move hstep
      rw [hclaimedAt] at hmove
      cases action with
      | none =>
        rw [hlog'] at hlog ⊢
        exact ih (newest :: newer) hlog
      | some a =>
        have hold : s.log = newer ++ older := (List.cons.inj (hlog'.symm.trans hlog)).2
        rw [hlog']
        refine (claimedJob_cons ?_ p.now s.log).trans (ih newer hold)
        rintro job' rfl
        have hempty := (move_claimed hmove).1 ▸ hsuspended
        rw [show s.log = [] from hempty] at hold
        obtain rfl := (List.append_eq_nil_iff.mp hold.symm).2
        cases hjob

/-- Only a registered handler returns results. -/
theorem reachable_registered (h : (w.runOnce start).Reachable run) {t : Instant}
    {result : HandlerResult} (hmem : (t, .handlerReturned result) ∈ run.log) :
    ∃ job, claimedJob run.log = some job ∧ job.jobType ∈ w.handlers := by
  revert hmem
  refine Machine.Reachable.invariant (P := fun run : RunOnce =>
    (t, .handlerReturned result) ∈ run.log →
      ∃ job, claimedJob run.log = some job ∧ job.jobType ∈ w.handlers) ?_ ?_ h
  · intro hmem
    cases hmem
  · intro s p s' hreach ih hstep hmem
    obtain ⟨hclaimedAt, hsuspended, _⟩ := reachable_lawful hreach
    obtain ⟨_, action, hmove, _, _, hlog⟩ := JobWorker.poll_move hstep
    rw [hclaimedAt] at hmove
    have hprev : ∃ job, claimedJob s.log = some job ∧ job.jobType ∈ w.handlers := by
      rw [hlog] at hmem
      rcases List.mem_append.mp hmem with hnew | hold
      · obtain ⟨a, rfl, hresult⟩ :
            ∃ a, action = some a ∧ (p.now, a) = (t, .handlerReturned result) := by
          cases action with
          | none => cases hnew
          | some a => exact ⟨a, rfl, (List.mem_singleton.mp hnew).symm⟩
        obtain ⟨_, rfl⟩ := Prod.mk.inj hresult
        exact move_registered hmove hsuspended rfl
      · exact ih hold
    obtain ⟨job, hjob, hhandled⟩ := hprev
    exact ⟨job, reachable_claimed_once (hreach.next hstep) hlog hjob, hhandled⟩

end Run

/-! ## One event

`Effect` is a coarser inversion than `Happens`: it forgets who did what, and keeps what the
invariants of this file and the next are about. -/

/-- The statements that have been sent and may still take effect. -/
def World.inFlight (W : World) : List Statement :=
  W.executions.flatMap (fun e => e.call.pending) ++ W.orphans

/-- What an event makes of one execution. -/
inductive Turn (W W' : World) (e : Execution) : Execution → Prop where
  | same : Turn W W' e e
  | executed (s : Statement) (skip : List Uuid) (hcall : e.call = .sent s)
      (hdb : W'.db = W.db.apply ⟨W.now, s, skip⟩) :
      Turn W W' e { e with call := e.afterStatement s (s.exec skip W.now W.db.table) }
  | disconnected (reply : Reply) (hfailed : reply.unavailable = reply) :
      Turn W W' e { e with call := .answered reply }
  | polled (run' : RunOnce) (arrived renewalTimer deadlineTimer : Bool)
      (handler : Option HandlerResult)
      (hpoll : e.worker.poll e.run (e.pollAt W.now arrived renewalTimer deadlineTimer handler) =
        some run') :
      Turn W W' e (e.resume run')

/-- A turn only adds to the log of its run. -/
theorem Turn.grown (h : Turn W W' e e') : Grown e e' := by
  cases h with
  | polled run' arrived renewalTimer deadlineTimer handler hpoll =>
    obtain ⟨_, action, _, _, _, hlog⟩ := JobWorker.poll_move hpoll
    exact ⟨resume_worker, _, by rw [resume_run, hlog]⟩
  | _ => exact ⟨rfl, [], rfl⟩

/-- What an event does to the executions, the statements in flight and the database. -/
structure Effect (lease : Duration) (W W' : World) : Prop where
  turned : ∀ e' ∈ W'.executions, (∃ e ∈ W.executions, Turn W W' e e') ∨
    ∃ worker : JobWorker, e' = ⟨worker, (worker.runOnce W.now).init, .sent (.reap lease)⟩
  grown : ∀ e ∈ W.executions, ∃ e' ∈ W'.executions, Grown e e'
  applied : W'.db = W.db ∨ ∃ s skip, (s ∈ W.inFlight ∨ s.FromOutside) ∧
    W'.db = W.db.apply ⟨W.now, s, skip⟩
  sent : ∀ s ∈ W'.inFlight, s ∈ W.inFlight ∨ (∃ l, s = .reap l) ∨ (∃ workerId, s = .claim workerId) ∨
    ∃ e' ∈ W'.executions, e'.run.phase.statement e'.worker = some s

/-- A statement is in flight while its call waits for it, or as an orphan. -/
theorem mem_inFlight : s ∈ W.inFlight ↔
    (∃ e ∈ W.executions, s ∈ e.call.pending) ∨ s ∈ W.orphans := by
  simp [World.inFlight]

/-- A statement that was sent is in flight. -/
theorem mem_inFlight_of_sent (he : W.executions[i]? = some e) (hcall : e.call = .sent s) :
    s ∈ W.inFlight :=
  mem_inFlight.mpr (Or.inl ⟨e, List.mem_of_getElem? he, by simp [hcall, Call.pending]⟩)

/-- One execution makes a turn, and the others stay as they are. -/
theorem effect_set (orphans : List Statement) (he : W.executions[i]? = some e)
    (hturn : Turn W W' e e') (hexecutions : W'.executions = W.executions.set i e')
    (horphans : W'.orphans = orphans ++ W.orphans)
    (happlied : W'.db = W.db ∨ ∃ s skip, (s ∈ W.inFlight ∨ s.FromOutside) ∧
      W'.db = W.db.apply ⟨W.now, s, skip⟩)
    (hleft : ∀ s ∈ orphans, s ∈ e.call.pending)
    (hcall : ∀ s ∈ e'.call.pending, s ∈ e.call.pending ∨ (∃ workerId, s = .claim workerId) ∨
      e'.run.phase.statement e'.worker = some s) : Effect lease W W' := by
  have hmem := List.mem_of_getElem? he
  have hold : ∀ s ∈ e.call.pending, s ∈ W.inFlight :=
    fun s hs => mem_inFlight.mpr (Or.inl ⟨e, hmem, hs⟩)
  have hmem' : e' ∈ W'.executions := by
    rw [hexecutions]
    exact List.mem_set (List.getElem?_eq_some_iff.mp he).1 e'
  refine ⟨?_, ?_, happlied, ?_⟩
  · intro f' hf'
    rw [hexecutions] at hf'
    rcases List.mem_or_eq_of_mem_set hf' with hf' | rfl
    · exact Or.inl ⟨f', hf', .same⟩
    · exact Or.inl ⟨e, hmem, hturn⟩
  · rw [hexecutions]
    exact grown_set he hturn.grown
  · intro s hs
    rw [mem_inFlight, hexecutions, horphans, List.mem_append] at hs
    rcases hs with ⟨f, hf, hs⟩ | hs | hs
    · rcases List.mem_or_eq_of_mem_set hf with hf | rfl
      · exact Or.inl (mem_inFlight.mpr (Or.inl ⟨f, hf, hs⟩))
      · -- What the execution has pending now it had before, or it claims, or its run has just sent
        -- it.
        rcases hcall s hs with hs | hs | hs
        · exact Or.inl (hold s hs)
        · exact Or.inr (Or.inr (Or.inl hs))
        · exact Or.inr (Or.inr (Or.inr ⟨f, hmem', hs⟩))
    · exact Or.inl (hold s (hleft s hs))
    · exact Or.inl (mem_inFlight.mpr (Or.inr hs))

/-- After its statement a call waits for nothing, or for the second statement of a claim. -/
theorem pending_afterStatement {result : Except SqlError (JobTable × List JobRow)} {t : Statement}
    (h : t ∈ (e.afterStatement s result).pending) : t = .claim e.worker.config.workerId := by
  unfold Execution.afterStatement at h
  split at h
  · exact List.mem_singleton.mp h
  · cases h

/-- **The effect of an event.** -/
theorem happens_effect (h : Happens lease W W') : Effect lease W W' := by
  have hsame : ∀ e ∈ W.executions, ∃ e' ∈ W.executions, Grown e e' := fun e he => ⟨e, he, .refl e⟩
  cases h with
  | tick elapsed =>
    exact ⟨fun e he => Or.inl ⟨e, he, .same⟩, hsame, Or.inl rfl, fun s hs => Or.inl hs⟩
  -- a new execution has its reap on the way and nothing else
  | start worker hlease =>
    refine ⟨?_, fun e he => ⟨e, List.mem_append_left _ he, .refl e⟩, Or.inl rfl, ?_⟩
    · intro e he
      rcases List.mem_append.mp he with he | he
      · exact Or.inl ⟨e, he, .same⟩
      · exact Or.inr ⟨worker, List.mem_singleton.mp he⟩
    · intro s hs
      rcases mem_inFlight.mp hs with ⟨e, he, hs⟩ | hs
      · rcases List.mem_append.mp he with he | he
        · exact Or.inl (mem_inFlight.mpr (Or.inl ⟨e, he, hs⟩))
        · rw [List.mem_singleton.mp he] at hs
          exact Or.inr (Or.inl ⟨lease, List.mem_singleton.mp hs⟩)
      · exact Or.inl (mem_inFlight.mpr (Or.inr hs))
  | outside s skip hs =>
    exact ⟨fun e he => Or.inl ⟨e, he, .same⟩, hsame, Or.inr ⟨s, skip, Or.inr hs, rfl⟩,
      fun s hs => Or.inl hs⟩
  | execute i skip e s he hcall =>
    refine effect_set [] he (.executed s skip hcall rfl) rfl rfl
      (Or.inr ⟨s, skip, Or.inl (mem_inFlight_of_sent he hcall), rfl⟩) nofun ?_
    exact fun t ht => Or.inr (Or.inl ⟨_, pending_afterStatement ht⟩)
  | executeOrphan i skip s hs =>
    refine ⟨fun e he => Or.inl ⟨e, he, .same⟩, hsame, Or.inr ⟨s, skip, Or.inl ?_, rfl⟩, ?_⟩
    · exact mem_inFlight.mpr (Or.inr (List.mem_of_getElem? hs))
    · intro t ht
      rcases mem_inFlight.mp ht with ht | ht
      · exact Or.inl (mem_inFlight.mpr (Or.inl ht))
      · exact Or.inl (mem_inFlight.mpr (Or.inr (List.mem_of_mem_eraseIdx ht)))
  -- the statement stays on the way as an orphan, and its caller is told an error
  | disconnectSent i e s he hcall =>
    have hfailed : (s.reply (.error .refused)).unavailable = s.reply (.error .refused) := by
      cases s <;> rfl
    refine effect_set [s] he (.disconnected _ hfailed) rfl rfl (Or.inl rfl) ?_ nofun
    rw [hcall]
    exact fun t ht => ht
  | disconnectAnswered i e reply he hcall =>
    have hfailed : reply.unavailable.unavailable = reply.unavailable := by
      cases reply <;> rfl
    exact effect_set [] he (.disconnected _ hfailed) rfl rfl (Or.inl rfl) nofun nofun
  -- what the run has stopped waiting for is an orphan; what it sends is new
  | poll i e run' arrived renewalTimer deadlineTimer handler he hpoll =>
    refine effect_set (e.abandoned run') he
      (.polled run' arrived renewalTimer deadlineTimer handler hpoll) rfl rfl (Or.inl rfl) ?_ ?_
    · intro t ht
      unfold Execution.abandoned at ht
      split at ht
      · cases ht
      · exact ht
    · intro t ht
      rcases resume_call e run' with ⟨t', hcall, hafter, _⟩ | ⟨hcall, _⟩ | ⟨hcall, _⟩
      · rw [hcall] at ht
        obtain rfl := List.mem_singleton.mp ht
        rw [resume_run, resume_worker]
        exact Or.inr (Or.inr hafter)
      · rw [hcall] at ht
        cases ht
      · rw [hcall] at ht
        exact Or.inl ht

/-! ## Every terminal write has its source

The invariant of the world: what is in flight or in the log and names an attempt has a run that
wrote it. -/

/-- Every terminal write, in flight or executed, was sent by a run that may send it. -/
structure AllSourced (W : World) : Prop where
  inFlight : ∀ s ∈ W.inFlight, Sourced W.executions s
  executed : ∀ entry ∈ W.db.log, Sourced W.executions entry.statement

/-- The statement a run waits for is sourced. -/
theorem Running.sourced {now : Instant} (h : Running lease now e) (he : e ∈ executions)
    (hs : e.run.phase.statement e.worker = some s) : Sourced executions s := by
  have hsent := reachable_sent h.reachable
  generalize hphase : e.run.phase = phase at hs hsent
  cases phase with
  | completing job deadline =>
    cases hs
    exact ⟨e, he, rfl, job, hsent, rfl, rfl⟩
  | failing job message delay deadline =>
    cases hs
    exact ⟨e, he, rfl, job, hsent, rfl, rfl⟩
  | claiming =>
    cases hs
    trivial
  | renewing job deadline renewalStarted finished =>
    cases hs
    trivial
  | _ => cases hs

/-- **The step lemma.** -/
theorem sourced_step (h : Effect lease W W') (hrunning : ∀ e ∈ W'.executions, Running lease W'.now e)
    (hsourced : AllSourced W) : AllSourced W' := by
  have hmono : ∀ {s}, Sourced W.executions s → Sourced W'.executions s := fun hs => hs.mono h.grown
  constructor
  · intro s hs
    rcases h.sent s hs with hs | ⟨l, rfl⟩ | ⟨workerId, rfl⟩ | ⟨e', he', hs⟩
    · exact hmono (hsourced.inFlight s hs)
    · trivial
    · trivial
    · exact (hrunning e' he').sourced he' hs
  · have hold : ∀ entry ∈ W.db.log, Sourced W'.executions entry.statement :=
      fun entry hentry => hmono (hsourced.executed entry hentry)
    rcases h.applied with hdb | ⟨s, skip, hs, hdb⟩
    · rw [hdb]
      exact hold
    · rw [hdb]
      rcases Db.apply_cases W.db ⟨W.now, s, skip⟩ with hsame | ⟨rows, _, hlog⟩
      · rw [hsame]
        exact hold
      · rw [hlog]
        refine List.forall_mem_cons.mpr ⟨?_, hold⟩
        rcases hs with hs | ⟨job, began, rfl⟩ | ⟨completedOlderThan, deadOlderThan, rfl⟩
        · exact hmono (hsourced.inFlight s hs)
        · trivial
        · trivial

/-- **The run lemma.** -/
theorem reachable_sourced (h : (world lease).Reachable W) (hd : DistinctIds W.db.log) :
    AllSourced W := by
  revert hd
  refine Machine.Reachable.invariant (P := fun W => DistinctIds W.db.log → AllSourced W) ?_ ?_ h
  · intro _
    refine ⟨fun s hs => ?_, fun entry hentry => ?_⟩
    · cases hs
    · cases hentry
  · intro W event W' hreach ih hstep hd
    have hhappens := step_happens hstep
    have hinv := reachable_inv (hreach.next hstep) hd
    exact sourced_step (happens_effect hhappens) hinv.running
      (ih (distinctIds_of_happens hhappens hd))

/-! ## Every run works on a job as it was enqueued

The row keeps the columns of the insert, a claim returns the row, and a run keeps the job it
claimed. The three are linked by the log of the database. -/

/-- The claimed job is the job that was enqueued, in one of its attempts. -/
structure ClaimedJob.Carries (job : ClaimedJob) (new : NewJob) : Prop where
  id : job.id = new.id
  jobType : job.jobType = new.jobType
  payload : job.payload = new.payload
  traceContext : job.traceContext = new.traceContext
  maxAttempts : job.maxAttempts = new.maxAttempts
  attempts : 1 ≤ job.attempts ∧ job.attempts ≤ new.maxAttempts

/-- A running row is handed out as the job it was inserted for. -/
theorem carries_of_row {db : Db} {r : JobRow} (h : queue.Reachable db) (hd : DistinctIds db.log)
    (hr : r ∈ db.table.rows) (hrun : r.status = .running) (hjob : r.intoApplication = .ok job) :
    ∃ new ∈ insertedJobs db.log, job.Carries new := by
  have hchecks := db.table.checked r hr
  have hrunning := (reachable_sound h r hr).running hrun
  rw [intoApplication_ok hchecks] at hjob
  cases hjob
  obtain ⟨item, hlife, htracks⟩ := reachable_tracks h hd r.id
  rw [JobTable.find_of_mem hr] at htracks
  cases htracks with
  | @present _ it hshows hid =>
    have hsubmit := (hlife.submitted it.cargo it.budget).mpr ⟨rfl, rfl⟩
    have hmax := hshows.maxAttempts
    have henqueued := hshows.enqueued
    refine ⟨it.cargo, mem_insertedJobs_of_submit hsubmit, hid.symm, hshows.jobType, hshows.payload,
      hshows.traceContext, ?_, ?_, ?_⟩
    · show r.maxAttempts.toNat = _
      omega
    · show 1 ≤ r.attempts.toNat
      omega
    · show r.attempts.toNat ≤ _
      omega

/-- What a claim returns is a job as it was enqueued. -/
theorem carries_of_claim {db : Db} {skip : List Uuid} {now : Instant} {workerId : String}
    (hqueue : queue.Reachable (db.apply ⟨now, .claim workerId, skip⟩))
    (hd : DistinctIds (db.apply ⟨now, .claim workerId, skip⟩).log)
    (h : PostgresJobQueue.answer PostgresJobQueue.readClaim
      ((Statement.claim workerId).exec skip now db.table) = .ok (some job)) :
    ∃ new ∈ insertedJobs (db.apply ⟨now, .claim workerId, skip⟩).log, job.Carries new := by
  obtain ⟨r, rows, T', _, hexec, happly, hfind, _⟩ := claim_returned h
  rw [hexec] at h
  have hread : (r.claimed now workerId).intoApplication.map some = .ok (some job) := h
  have hjob : (r.claimed now workerId).intoApplication = .ok job := by
    cases hinto : (r.claimed now workerId).intoApplication with
    | error e => rw [hinto] at hread; cases hread
    | ok job' => rw [hinto] at hread; cases hread; rfl
  have hmem : r.claimed now workerId ∈ (db.apply ⟨now, .claim workerId, skip⟩).table.rows := by
    rw [happly]
    exact (JobTable.find_eq_some.mp hfind).1
  exact carries_of_row hqueue hd hmem rfl hjob

/-- A run has its job from its own log, or from the answer of a claim. -/
theorem job_of_afterStatement {result : Except SqlError (JobTable × List JobRow)}
    (h : ({ e with call := e.afterStatement s result } : Execution).job = some job) :
    claimedJob e.run.log = some job ∨ ∃ workerId, s = .claim workerId ∧
      PostgresJobQueue.answer PostgresJobQueue.readClaim result = .ok (some job) := by
  unfold Execution.job at h
  split at h
  · next answered hcall =>
    cases h
    right
    cases s with
    | claim workerId => exact ⟨workerId, rfl, Reply.claim.inj (Call.answered.inj hcall)⟩
    | reap l =>
      cases result with
      | error e => cases hcall
      | ok result => cases hcall
    | _ => cases hcall
  · exact Or.inl h

/-- Every run works on a job that was enqueued. -/
def AllCarried (W : World) : Prop :=
  ∀ e ∈ W.executions, ∀ job, e.job = some job →
    ∃ new ∈ insertedJobs W.db.log, job.Carries new

/-- **The step lemma.** -/
theorem carried_step (h : Effect lease W W') (hrunning : ∀ e ∈ W.executions, Running lease W.now e)
    (hqueue : queue.Reachable W'.db) (hd : DistinctIds W'.db.log) (hcarried : AllCarried W) :
    AllCarried W' := by
  have hmono : ∀ {job : ClaimedJob}, (∃ new ∈ insertedJobs W.db.log, job.Carries new) →
      ∃ new ∈ insertedJobs W'.db.log, job.Carries new := by
    rintro job ⟨new, hnew, hcarries⟩
    refine ⟨new, ?_, hcarries⟩
    rcases h.applied with hdb | ⟨s, skip, _, hdb⟩
    · rwa [hdb]
    · rw [hdb]
      exact mem_insertedJobs_apply _ hnew
  intro e' he' job hjob
  rcases h.turned e' he' with ⟨e, he, hturn⟩ | ⟨worker, rfl⟩
  · have hrun := hrunning e he
    cases hturn with
    | same => exact hmono (hcarried e' he job hjob)
    | executed s skip hcall hdb =>
      rcases job_of_afterStatement hjob with hold | ⟨workerId, rfl, hanswer⟩
      · exact hmono (hcarried e he job (hrun.job_of_claimed hold))
      · rw [hdb] at hqueue hd ⊢
        exact carries_of_claim hqueue hd hanswer
    | disconnected reply hfailed =>
      -- a failed call brings no job
      have hold : claimedJob e.run.log = some job := by
        cases reply with
        | claim answer =>
          cases answer with
          | ok found => cases hfailed
          | error error => exact hjob
        | _ => exact hjob
      exact hmono (hcarried e he job (hrun.job_of_claimed hold))
    | polled run' arrived renewalTimer deadlineTimer handler hpoll =>
      obtain ⟨_, _, hpolled⟩ := polled_of_poll hrun hpoll
      exact hmono (hcarried e he job (hpolled.job_eq hjob))
  · cases hjob

/-- **The run lemma.** -/
theorem reachable_carried (h : (world lease).Reachable W) (hd : DistinctIds W.db.log) :
    AllCarried W := by
  revert hd
  refine Machine.Reachable.invariant (P := fun W => DistinctIds W.db.log → AllCarried W) ?_ ?_ h
  · intro _ e he
    cases he
  · intro W event W' hreach ih hstep hd
    have hhappens := step_happens hstep
    have hd₀ := distinctIds_of_happens hhappens hd
    exact carried_step (happens_effect hhappens) (reachable_inv hreach hd₀).running
      (world_queue (hreach.next hstep)) hd (ih hd₀)

/-! ## The theorem

From a row back to what made it so: the last entry that changed the row says by which statement, its
source says by which run, and the log of that run says what the handler had returned. -/

/-- The text `fail` stores for an error message. -/
def storedError (message : String) : String :=
  String.ofList (message.toList.take 4000)

/-- The run worked on the job of `r`, in the attempt `r` counts, and the handler gave `result`. -/
def Execution.Answered (e : Execution) (r : JobRow) (result : HandlerResult) : Prop :=
  ∃ job, claimedJob e.run.log = some job ∧ job.id = r.id ∧ job.jobType = r.jobType ∧
    job.payload = r.payload ∧ job.traceContext = r.traceContext ∧ r.attempts = job.attempts ∧
    Delivered e.worker result e.run.log

/-- A reap found the attempt that `r` counts with its lease expired, and `r` is what it left. -/
def LeaseReaped (lease : Duration) (log : List Entry) (r : JobRow) : Prop :=
  ∃ newer entry db held, log = newer ++ entry :: db.log ∧ queue.Reachable db ∧
    entry.statement = .reap lease ∧ db.table.find r.id = some held ∧
    held.attempts = r.attempts ∧ held.leaseExpired entry.now lease = true ∧
    r = held.reaped entry.now

/-- A statement that leaves a row `pending` or `dead`. -/
theorem Change.released {now : Instant} {before : Option JobRow} {r : JobRow}
    (h : Change now s before r (some r)) (hstatus : r.status = .pending ∨ r.status = .dead) :
    (r.attempts = 0 ∧ r.lastError = none) ∨ (∃ l, s = .reap l) ∨
      ∃ workerId attempt message retryDelay, s = .fail r.id workerId attempt message retryDelay ∧
        r.attempts = (attempt : Nat) ∧ r.lastError = some (storedError message) := by
  generalize hafter : some r = after at h
  cases h with
  | insert job began maxAttempts hvalid => exact Or.inl ⟨rfl, rfl⟩
  | reap l r₀ hexpired => exact Or.inr (Or.inl ⟨l, rfl⟩)
  | fail jobId workerId attempt error retryDelay r₀ howned =>
    obtain ⟨rfl, _, _, hattempts⟩ := JobRow.ownedBy_iff.mp howned
    exact Or.inr (Or.inr ⟨workerId, attempt, error, retryDelay, rfl, hattempts, rfl⟩)
  | claim workerId r₀ hclaimable => rcases hstatus with h | h <;> cases h
  | complete jobId workerId attempt r₀ howned => rcases hstatus with h | h <;> cases h
  | renew jobId workerId attempt r₀ howned =>
    have hrun := (JobRow.ownedBy_iff.mp howned).2.1
    rcases hstatus with h | h <;> cases hrun.symm.trans h
  | purge completedOlderThan deadOlderThan _ hpurgeable => cases hafter

/-- What a reap reports is a row whose lease it found expired. -/
theorem Change.reaped {now : Instant} {before after : Option JobRow} {row : JobRow}
    {l : Duration} (h : Change now (.reap l) before row after) :
    ∃ held, before = some held ∧ held.leaseExpired now l = true ∧ row = held.reaped now := by
  cases h with
  | reap _ held hexpired => exact ⟨held, rfl, hexpired, rfl⟩

/-- A row whose latest report is a reap has lost its lease to it. -/
theorem leaseReaped_of_lastReport {db : Db} {r : JobRow} {entry : Entry}
    (h : queue.Reachable db) (hlast : lastReport r.id db.log = some entry)
    (hrow : entry.rowOf r.id = some r) (hreap : entry.statement = .reap lease) :
    LeaseReaped lease db.log r := by
  obtain ⟨newer, older, hlog⟩ := List.append_of_mem (List.mem_of_find?_eq_some hlast)
  obtain ⟨db₀, skip, T', hreach, rfl, hexec⟩ := reachable_executed h hlog
  rcases exec_change hexec r.id with ⟨row, hrow', hch⟩ | ⟨hnone, _⟩
  · obtain rfl : r = row := Option.some.inj (hrow.symm.trans hrow')
    rw [hreap] at hch
    obtain ⟨held, hfind, hexpired, hheld⟩ := hch.reaped
    refine ⟨newer, entry, db₀, held, hlog, hreach, hreap, hfind, ?_, hexpired, hheld⟩
    rw [hheld]
    rfl
  · cases hrow.symm.trans hnone

/-- A row is completed by the `complete` of the attempt it counts. -/
theorem Change.completed_attempt {now : Instant} {before : Option JobRow} {r : JobRow}
    (h : Change now s before r (some r)) (hstatus : r.status = .completed) :
    ∃ workerId attempt, s = .complete r.id workerId attempt ∧ r.attempts = (attempt : Nat) := by
  obtain ⟨⟨workerId, attempt, rfl⟩, _⟩ := h.completed hstatus
  generalize hafter : some r = after at h
  generalize hs : Statement.complete r.id workerId attempt = s at h
  cases h with
  | complete jobId workerId' attempt' r₀ howned =>
    cases hs
    exact ⟨workerId, attempt, rfl, (JobRow.ownedBy_iff.mp howned).2.2.2⟩
  | _ => cases hs

/-- The result of the handler a terminal write stands for. -/
def Action.result : Action → Option HandlerResult
  | .completeSent => some (.ok ())
  | .failSent message _ => some (.error ⟨message⟩)
  | _ => none

/-- A result that was delivered stays delivered. -/
theorem Delivered.mono {w : JobWorker} {result : HandlerResult} {newer older : ActionLog}
    (h : Delivered w result older) (hjob : claimedJob older = some job)
    (hsame : claimedJob (newer ++ older) = some job) : Delivered w result (newer ++ older) := by
  rcases h with ⟨t, hmem⟩ | ⟨error, hresult, ⟨t, hmem⟩, hmissing⟩
  · exact Or.inl ⟨t, List.mem_append_right _ hmem⟩
  · rw [hjob, ← hsame] at hmissing
    exact Or.inr ⟨error, hresult, ⟨t, List.mem_append_right _ hmem⟩, hmissing⟩

/-- Before a run sent its terminal write, the handler gave the matching result. -/
theorem Running.delivered {now : Instant} {action : Action} {result : HandlerResult}
    (h : Running lease now e) (htook : e.Took job action) (hresult : action.result = some result) :
    claimedJob e.run.log = some job ∧ Delivered e.worker result e.run.log := by
  obtain ⟨newer, t, older, hlog, hjob⟩ := htook
  obtain ⟨_, _, hlawful⟩ := reachable_lawful h.reachable
  have hsplit : e.run.log = (newer ++ [(t, action)]) ++ older := by simp [hlog]
  have hsame := reachable_claimed_once h.reachable hsplit hjob
  have hbefore : Delivered e.worker result older := by
    have hallowed := hlawful newer t action older hlog
    cases action with
    | completeSent =>
      cases hresult
      exact hallowed.1
    | failSent message delay =>
      cases hresult
      exact hallowed.1
    | _ => cases hresult
  refine ⟨hsame, ?_⟩
  rw [hsplit] at hsame ⊢
  exact hbefore.mono hjob hsame

/-- A run that reported the result of the attempt a row counts has answered for that row. -/
theorem answered_of_reported {r : JobRow} {workerId : String} {attempt : Nat} {action : Action}
    {result : HandlerResult} (h : (world lease).Reachable W) (hd : DistinctIds W.db.log)
    (hr : r ∈ W.db.table.rows) (hreported : Reported W.executions r.id workerId attempt action)
    (hattempts : r.attempts = (attempt : Nat)) (hresult : action.result = some result) :
    ∃ e ∈ W.executions, e.Answered r result := by
  obtain ⟨e, he, _, job, htook, hid, hattempt⟩ := hreported
  have hrun := (reachable_inv h hd).running e he
  obtain ⟨hjob, hdelivered⟩ := hrun.delivered htook hresult
  -- the job the run claimed and the row are both as the job was enqueued
  obtain ⟨new, hnew, hcarries⟩ := reachable_carried h hd e he job (hrun.job_of_claimed hjob)
  obtain ⟨it, _, htracks, rfl, _⟩ := reachable_item (world_queue h) hd hnew
  rw [← hcarries.id, hid, JobTable.find_of_mem hr] at htracks
  cases htracks with
  | present hshows _ =>
    refine ⟨e, he, job, hjob, hid, hcarries.jobType.trans hshows.jobType.symm,
      hcarries.payload.trans hshows.payload.symm, hcarries.traceContext.trans
        hshows.traceContext.symm, ?_, hdelivered⟩
    rw [hattempts, hattempt]

/-- **Outcomes are truthful.** In every interleaving of any number of runs with distinct job ids:
every run works on a job exactly as it was enqueued; a row is `completed` only if a registered
handler returned `Ok` for the attempt the row counts; and a row that went back to `pending`, or
went `dead`, names as its last error what the handler of that attempt reported, unless the lease
of the attempt ran out and was reaped. -/
theorem outcomes_truthful (h : (world lease).Reachable W) (hd : DistinctIds W.db.log) :
    (∀ e ∈ W.executions, ∀ job, claimedJob e.run.log = some job →
      ∃ new ∈ insertedJobs W.db.log, job.Carries new) ∧
    (∀ r ∈ W.db.table.rows, r.status = .completed →
      ∃ e ∈ W.executions, e.Answered r (.ok ()) ∧ r.jobType ∈ e.worker.handlers) ∧
    (∀ r ∈ W.db.table.rows, r.status = .pending ∨ r.status = .dead →
      (r.attempts = 0 ∧ r.lastError = none) ∨
        (LeaseReaped lease W.db.log r ∧ r.lastError = some "worker lease expired") ∨
        ∃ e ∈ W.executions, ∃ message, e.Answered r (.error ⟨message⟩) ∧
          r.lastError = some (storedError message)) := by
  have hinv := reachable_inv h hd
  have hsourced := reachable_sourced h hd
  refine ⟨?_, ?_, ?_⟩
  · intro e he job hjob
    exact reachable_carried h hd e he job ((hinv.running e he).job_of_claimed hjob)
  · intro r hr hstatus
    obtain ⟨entry, _, hlast, _, hch⟩ := last_report (world_queue h) (JobTable.find_of_mem hr)
    obtain ⟨workerId, attempt, hcomplete, hattempts⟩ := hch.completed_attempt hstatus
    have hentry := hsourced.executed entry (List.mem_of_find?_eq_some hlast)
    rw [hcomplete] at hentry
    obtain ⟨e, he, hanswered⟩ := answered_of_reported h hd hr hentry hattempts rfl
    refine ⟨e, he, hanswered, ?_⟩
    obtain ⟨job, hjob, _, htype, _, _, _, hdelivered⟩ := hanswered
    rcases hdelivered with ⟨t, hreturned⟩ | ⟨error, herror, _⟩
    · obtain ⟨job', hjob', hhandled⟩ := reachable_registered (hinv.running e he).reachable hreturned
      cases hjob.symm.trans hjob'
      rwa [← htype]
    · cases herror
  · intro r hr hstatus
    obtain ⟨entry, _, hlast, hrow, hch⟩ := last_report (world_queue h) (JobTable.find_of_mem hr)
    rcases hch.released hstatus with hnew | ⟨l, hreap⟩ |
      ⟨workerId, attempt, message, retryDelay, hfail, hattempts, herror⟩
    · exact Or.inl hnew
    · -- every reap of this world is one with its lease
      have hlease := hinv.executed entry (List.mem_of_find?_eq_some hlast)
      rw [hreap] at hlease
      obtain rfl : l = lease := hlease
      have hreaped := leaseReaped_of_lastReport (world_queue h) hlast hrow hreap
      refine Or.inr (Or.inl ⟨hreaped, ?_⟩)
      obtain ⟨_, _, _, held, _, _, _, _, _, _, rfl⟩ := hreaped
      rfl
    · have hentry := hsourced.executed entry (List.mem_of_find?_eq_some hlast)
      rw [hfail] at hentry
      obtain ⟨e, he, hanswered⟩ := answered_of_reported h hd hr hentry hattempts rfl
      exact Or.inr (Or.inr ⟨e, he, message, hanswered, herror⟩)

/-- A job whose handler returns `Ok` at once, up to the reply to its `complete`. -/
def deliveredRun : List Event :=
  [.poll 0 true false false none, .execute 0 [], .poll 0 false false false none,
    .poll 0 false false false (some (.ok ())), .poll 0 false false false none,
    .poll 0 true false false none, .execute 0 [], .execute 0 [], .start userWorker,
    .outside (.insert ⟨7, "user.created", .null, .null, 3⟩ 0) []]

def deliveredWorld : World :=
  ((world 30).run deliveredRun).get (by decide)

theorem deliveredWorld_reachable : (world 30).Reachable deliveredWorld :=
  Machine.reachable_get (by decide)

theorem deliveredWorld_distinctIds : DistinctIds deliveredWorld.db.log := by
  unfold DistinctIds
  decide

theorem outcomes_truthful_delivered :
    ∃ r ∈ deliveredWorld.db.table.rows, ∃ e ∈ deliveredWorld.executions,
      e.Answered r (.ok ()) ∧ r.jobType ∈ e.worker.handlers := by
  obtain ⟨r, hr, hstatus⟩ : ∃ r ∈ deliveredWorld.db.table.rows, r.status = .completed := by decide
  exact ⟨r, hr, (outcomes_truthful deliveredWorld_reachable deliveredWorld_distinctIds).2.1 r hr
    hstatus⟩

end BaseSkeleton.Job
