import BaseSkeleton.Job.Worker

/-!
# What a run of `run_once` may do, and when

The protocol is stated on the log of a run alone. `ownedUntil` recomputes the deadline from the
renewals in the log, without looking at the local variable `deadline`; `Lawful` says of every
action what the older part of the log must show for it to be allowed:

* the handler is polled only while it has produced no result;
* a terminal write follows the matching result of the handler, is the first one, follows no lost
  renewal, and is sent before the deadline;
* a renewal is not answered after a terminal write.

`poll_lawful` is the step lemma: `Suspended` ties the local variables of each phase to the log,
and every step keeps it and appends nothing but an allowed action. `reachable_lawful` is the run.
-/

namespace BaseSkeleton.Job

namespace Action

/-- A `complete` or a `fail` is sent. -/
def isTerminalWrite : Action → Bool
  | completeSent => true
  | failSent _ _ => true
  | _ => false

/-- The handler is polled. -/
def isHandlerPoll : Action → Bool
  | handlerPending => true
  | handlerReturned _ => true
  | handlerMissing => true
  | _ => false

/-- The handler is polled and produces its result. -/
def isHandlerResult : Action → Bool
  | handlerReturned _ => true
  | handlerMissing => true
  | _ => false

/-- A renewal is answered with `LeaseLost`, or not before the deadline. -/
def isLostRenewal : Action → Bool
  | renewAnswered (.error .leaseLost) => true
  | renewTimedOut => true
  | _ => false

end Action

/-! ## Reading the log

The log of a run is read newest first. Each of these looks at the answers and results that have
arrived, and at nothing the run keeps to itself. -/

/-- When the latest renewal was sent. -/
def renewalStart : ActionLog → Instant
  | [] => 0
  | (t, .renewSent) :: _ => t
  | _ :: log => renewalStart log

/-- The deadline: one lease after the start of the latest successful renewal, or after the claim
was sent. -/
def ownedUntil (lease : Duration) (claimedAt : Instant) : ActionLog → Instant
  | [] => claimedAt + lease
  | (_, .renewAnswered (.ok ())) :: log => renewalStart log + lease
  | _ :: log => ownedUntil lease claimedAt log

/-- The job the run has claimed. -/
def claimedJob : ActionLog → Option ClaimedJob
  | [] => none
  | (_, .claimed job) :: _ => some job
  | _ :: log => claimedJob log

/-- The log holds an action of the given kind. -/
def Happened (kind : Action → Bool) (log : ActionLog) : Prop :=
  ∃ e ∈ log, kind e.2 = true

/-- The handler has produced `result`, by itself or because there is none for the job type. -/
def Delivered (w : JobWorker) (result : HandlerResult) (log : ActionLog) : Prop :=
  (∃ t, (t, .handlerReturned result) ∈ log) ∨
    (∃ error, result = .error error ∧ (∃ t, (t, .handlerMissing) ∈ log) ∧
      ∃ job, claimedJob log = some job ∧ job.jobType ∉ w.handlers)

/-- What the older part `log` of the run must show for `action` to be allowed at `now`. -/
def Allowed (w : JobWorker) (claimedAt : Instant) (log : ActionLog) (now : Instant) :
    Action → Prop
  | .handlerPending => ¬ Happened Action.isHandlerResult log
  | .handlerReturned _ => ¬ Happened Action.isHandlerResult log
  | .handlerMissing => ¬ Happened Action.isHandlerResult log
  | .renewAnswered _ => ¬ Happened Action.isTerminalWrite log
  | .renewTimedOut => ¬ Happened Action.isTerminalWrite log
  | .completeSent =>
    Delivered w (.ok ()) log ∧ ¬ Happened Action.isTerminalWrite log ∧
      ¬ Happened Action.isLostRenewal log ∧ now < ownedUntil w.config.leaseTimeout claimedAt log
  | .failSent message _ =>
    Delivered w (.error ⟨message⟩) log ∧ ¬ Happened Action.isTerminalWrite log ∧
      ¬ Happened Action.isLostRenewal log ∧ now < ownedUntil w.config.leaseTimeout claimedAt log
  | _ => True

/-- Every action of the log was allowed when it was taken. -/
def Lawful (w : JobWorker) (claimedAt : Instant) (log : ActionLog) : Prop :=
  ∀ newer t action older, log = newer ++ (t, action) :: older →
    Allowed w claimedAt older t action

theorem lawful_nil (w : JobWorker) (claimedAt : Instant) : Lawful w claimedAt [] := by
  intro newer t action older h
  cases newer <;> cases h

theorem Lawful.cons {w : JobWorker} {claimedAt now : Instant} {log : ActionLog} {action : Action}
    (h : Lawful w claimedAt log) (hallowed : Allowed w claimedAt log now action) :
    Lawful w claimedAt ((now, action) :: log) := by
  intro newer t a older hlog
  cases newer with
  | nil =>
    cases hlog
    exact hallowed
  | cons e newer => exact h newer t a older (List.cons.inj hlog).2

@[simp] theorem happened_nil (kind : Action → Bool) : ¬ Happened kind [] := by
  simp [Happened]

@[simp] theorem happened_cons (kind : Action → Bool) (t : Instant) (action : Action)
    (log : ActionLog) :
    Happened kind ((t, action) :: log) ↔ kind action = true ∨ Happened kind log := by
  simp [Happened]

theorem Delivered.cons {w : JobWorker} {result : HandlerResult} {log : ActionLog} {t : Instant}
    {action : Action} (h : Delivered w result log)
    (hjob : claimedJob ((t, action) :: log) = claimedJob log) :
    Delivered w result ((t, action) :: log) := by
  rcases h with ⟨t', hmem⟩ | ⟨error, hresult, ⟨t', hmem⟩, hmissing⟩
  · exact Or.inl ⟨t', List.mem_cons_of_mem _ hmem⟩
  · rw [← hjob] at hmissing
    exact Or.inr ⟨error, hresult, ⟨t', List.mem_cons_of_mem _ hmem⟩, hmissing⟩

/-! ## The local variables of a phase

The invariant of a run: what its variables hold is what the log says. A step that neither renews the
lease nor gets a result from the handler is quiet, and leaves all of it as it is. -/

/-- The run owns `job` until `deadline` and has neither written nor lost a renewal. -/
structure Owning (w : JobWorker) (claimedAt : Instant) (log : ActionLog) (job : ClaimedJob)
    (deadline : Instant) : Prop where
  job_claimed : claimedJob log = some job
  deadline_eq : deadline = ownedUntil w.config.leaseTimeout claimedAt log
  unwritten : ¬ Happened Action.isTerminalWrite log
  unlost : ¬ Happened Action.isLostRenewal log

/-- What the handler has produced so far. -/
def Progress (w : JobWorker) (log : ActionLog) : Option HandlerResult → Prop
  | none => ¬ Happened Action.isHandlerResult log
  | some result => Delivered w result log

/-- The local variables of each phase agree with the log. -/
def Suspended (w : JobWorker) (claimedAt : Instant) (log : ActionLog) : Phase → Prop
  | .claiming => log = []
  | .looping job deadline _ => Owning w claimedAt log job deadline ∧ Progress w log none
  | .selecting job deadline _ => Owning w claimedAt log job deadline ∧ Progress w log none
  | .renewalDue job deadline => Owning w claimedAt log job deadline ∧ Progress w log none
  | .renewing job deadline renewalStarted finished =>
    Owning w claimedAt log job deadline ∧ renewalStart log = renewalStarted ∧
      Progress w log finished
  | .settled job result deadline =>
    Owning w claimedAt log job deadline ∧ Progress w log (some result)
  | .completing job _ => claimedJob log = some job ∧ Happened Action.isTerminalWrite log
  | .failing job _ _ _ => claimedJob log = some job ∧ Happened Action.isTerminalWrite log
  | .returned (.ok .completed) => ∃ t, (t, .completeAnswered (.ok ())) ∈ log
  | .returned (.ok .retryScheduled) => ∃ t, (t, .failAnswered (.ok .retryScheduled)) ∈ log
  | .returned (.ok .deadLettered) => ∃ t, (t, .failAnswered (.ok .deadLettered)) ∈ log
  | .returned _ => True

variable {w : JobWorker} {claimedAt : Instant} {log : ActionLog} {p : Poll} {job : ClaimedJob}
  {deadline : Instant}

theorem claimedJob_cons {action : Action} (h : ∀ job, action ≠ .claimed job) (t : Instant)
    (log : ActionLog) : claimedJob ((t, action) :: log) = claimedJob log := by
  cases action with
  | claimed job => exact absurd rfl (h job)
  | _ => rfl

theorem ownedUntil_cons {action : Action} (h : action ≠ .renewAnswered (.ok ())) (lease : Duration)
    (claimedAt t : Instant) (log : ActionLog) :
    ownedUntil lease claimedAt ((t, action) :: log) = ownedUntil lease claimedAt log := by
  cases action with
  | renewAnswered answer =>
    cases answer with
    | ok u => exact absurd rfl h
    | error e => rfl
  | _ => rfl

/-- An action that ownership does not depend on. -/
structure Action.Quiet (action : Action) : Prop where
  job : ∀ t log, claimedJob ((t, action) :: log) = claimedJob log
  owned : ∀ lease claimedAt t log,
    ownedUntil lease claimedAt ((t, action) :: log) = ownedUntil lease claimedAt log
  write : action.isTerminalWrite = false
  lost : action.isLostRenewal = false

theorem quiet_of_isHandlerPoll {action : Action} (h : action.isHandlerPoll = true) :
    action.Quiet := by
  cases action with
  | handlerPending => exact ⟨fun _ _ => rfl, fun _ _ _ _ => rfl, rfl, rfl⟩
  | handlerReturned result => exact ⟨fun _ _ => rfl, fun _ _ _ _ => rfl, rfl, rfl⟩
  | handlerMissing => exact ⟨fun _ _ => rfl, fun _ _ _ _ => rfl, rfl, rfl⟩
  | _ => cases h

theorem quiet_renewSent : Action.renewSent.Quiet :=
  ⟨fun _ _ => rfl, fun _ _ _ _ => rfl, rfl, rfl⟩

theorem quiet_renewUnavailable : (Action.renewAnswered (.error .unavailable)).Quiet :=
  ⟨fun _ _ => rfl, fun _ _ _ _ => rfl, rfl, rfl⟩

theorem Owning.cons {action : Action} (h : Owning w claimedAt log job deadline)
    (hquiet : action.Quiet) (t : Instant) :
    Owning w claimedAt ((t, action) :: log) job deadline where
  job_claimed := (hquiet.job t log).trans h.job_claimed
  deadline_eq := h.deadline_eq.trans (hquiet.owned _ _ t log).symm
  unwritten := by simpa [hquiet.write] using h.unwritten
  unlost := by simpa [hquiet.lost] using h.unlost

/-- A renewal that succeeded moves the deadline. -/
theorem Owning.renewed {renewalStarted : Instant} (h : Owning w claimedAt log job deadline)
    (hstart : renewalStart log = renewalStarted) (t : Instant) :
    Owning w claimedAt ((t, .renewAnswered (.ok ())) :: log) job
      (renewalStarted + w.config.leaseTimeout) where
  job_claimed := h.job_claimed
  deadline_eq := by
    show _ = renewalStart log + w.config.leaseTimeout
    rw [hstart]
  unwritten := by simpa [Action.isTerminalWrite] using h.unwritten
  unlost := by simpa [Action.isLostRenewal] using h.unlost

theorem Progress.cons {action : Action} {finished : Option HandlerResult}
    (h : Progress w log finished) (hquiet : action.Quiet)
    (hresult : action.isHandlerResult = false) (t : Instant) :
    Progress w ((t, action) :: log) finished := by
  cases finished with
  | none => simpa [Progress, hresult] using h
  | some result => exact Delivered.cons h (hquiet.job t log)

theorem isHandlerPoll_of_pollHandler {action : Action} {handler result : Option HandlerResult}
    (hpoll : w.pollHandler job handler = (action, result)) : action.isHandlerPoll = true := by
  unfold JobWorker.pollHandler at hpoll
  split at hpoll
  · split at hpoll
    · cases hpoll
      rfl
    · cases hpoll
      rfl
  · cases hpoll
    rfl

/-- A run learns of a renewal while it waits for that renewal. -/
theorem move_renewed {phase phase' : Phase} {answer : Except JobQueueError Unit}
    (h : w.Move claimedAt p phase (some (.renewAnswered answer)) phase') :
    p.renew = some answer ∧
      ∃ job deadline renewalStarted finished,
        phase = .renewing job deadline renewalStarted finished := by
  cases h with
  | renewAnswered job deadline renewalStarted finished _ hanswer =>
    exact ⟨hanswer, job, deadline, renewalStarted, finished, rfl⟩
  | handled job deadline nextRenewal action result hpoll =>
    cases isHandlerPoll_of_pollHandler hpoll
  | handlerPending job deadline nextRenewal action hpoll =>
    cases isHandlerPoll_of_pollHandler hpoll
  | handlerTimedOut job deadline nextRenewal action hpoll _ =>
    cases isHandlerPoll_of_pollHandler hpoll
  | renewPendingHandled job deadline renewalStarted action result _ hpoll =>
    cases isHandlerPoll_of_pollHandler hpoll

/-- A poll of the handler is allowed, and `Progress` follows what it shows. -/
theorem progress_of_pollHandler {action : Action} {result : Option HandlerResult}
    {handler : Option HandlerResult} (hpoll : w.pollHandler job handler = (action, result))
    (hjob : claimedJob log = some job) (hnone : Progress w log none) (t : Instant) :
    Allowed w claimedAt log t action ∧ Progress w ((t, action) :: log) result := by
  unfold JobWorker.pollHandler at hpoll
  split at hpoll
  · split at hpoll
    · cases hpoll
      exact ⟨hnone, by simpa [Progress, Action.isHandlerResult] using hnone⟩
    · next result =>
      cases hpoll
      exact ⟨hnone, Or.inl ⟨t, List.mem_cons_self⟩⟩
  · next hmissing =>
    cases hpoll
    exact ⟨hnone, Or.inr ⟨_, rfl, ⟨t, List.mem_cons_self⟩, job, hjob, hmissing⟩⟩

/-- The run still owns its job after a poll of the handler. -/
theorem Owning.polled {action : Action} {handler result : Option HandlerResult}
    (howning : Owning w claimedAt log job deadline)
    (hpoll : w.pollHandler job handler = (action, result)) (hnone : Progress w log none)
    (t : Instant) :
    Allowed w claimedAt log t action ∧ Owning w claimedAt ((t, action) :: log) job deadline ∧
      Progress w ((t, action) :: log) result := by
  have hquiet : action.Quiet := quiet_of_isHandlerPoll (isHandlerPoll_of_pollHandler hpoll)
  obtain ⟨hallowed, hresult⟩ := progress_of_pollHandler hpoll howning.job_claimed hnone t
  exact ⟨hallowed, howning.cons hquiet t, hresult⟩

/-- The loop goes on, or the run settles, with what ownership and progress say. -/
theorem suspended_resume {nextRenewal : Instant} {finished : Option HandlerResult}
    (howning : Owning w claimedAt log job deadline) (hprogress : Progress w log finished) :
    Suspended w claimedAt log (JobWorker.resume job deadline nextRenewal finished) := by
  cases finished with
  | none => exact ⟨howning, hprogress⟩
  | some result => exact ⟨howning, hprogress⟩

/-! ## One step

One case for each constructor of `Move`. `Allowed` asks most of the two terminal writes. -/

/-- **The step lemma.** A move keeps the local variables in agreement with the log, and what it
does is allowed. -/
theorem move_lawful {phase phase' : Phase} {action : Option Action}
    (h : w.Move claimedAt p phase action phase') (hs : Suspended w claimedAt log phase) :
    Suspended w claimedAt ((action.map fun a => (p.now, a)).toList ++ log) phase' ∧
      ∀ a, action = some a → Allowed w claimedAt log p.now a := by
  cases h with
  | claimPending _ => exact ⟨hs, nofun⟩
  | claimFailed e _ => exact ⟨trivial, nofun⟩
  | idle _ => exact ⟨trivial, nofun⟩
  -- the first entry of the log: nothing was written before it
  | claimed job _ =>
    obtain rfl : log = [] := hs
    refine ⟨⟨⟨rfl, rfl, ?_, ?_⟩, ?_⟩, ?_⟩
    · simp [Action.isTerminalWrite]
    · simp [Action.isLostRenewal]
    · simp [Progress, Action.isHandlerResult]
    · rintro _ ⟨⟩
      trivial
  | select job deadline nextRenewal _ => exact ⟨hs, nofun⟩
  | renewalDue job deadline nextRenewal _ => exact ⟨hs, nofun⟩
  -- the handler is asked only while it has shown no result
  | handled job deadline nextRenewal action result hpoll =>
    obtain ⟨hallowed, hpolled⟩ := hs.1.polled hpoll hs.2 p.now
    refine ⟨hpolled, ?_⟩
    rintro _ ⟨⟩
    exact hallowed
  | handlerPending job deadline nextRenewal action hpoll =>
    obtain ⟨hallowed, hpolled⟩ := hs.1.polled hpoll hs.2 p.now
    refine ⟨hpolled, ?_⟩
    rintro _ ⟨⟩
    exact hallowed
  | handlerTimedOut job deadline nextRenewal action hpoll _ =>
    refine ⟨trivial, ?_⟩
    rintro _ ⟨⟩
    exact (hs.1.polled hpoll hs.2 p.now).1
  | sendRenew job deadline _ =>
    obtain ⟨howning, hprogress⟩ := hs
    refine ⟨⟨howning.cons quiet_renewSent p.now, rfl,
      hprogress.cons quiet_renewSent rfl p.now⟩, ?_⟩
    rintro _ ⟨⟩
    trivial
  | renewAnswered job deadline renewalStarted finished answer _ =>
    obtain ⟨howning, hstart, hprogress⟩ := hs
    refine ⟨?_, ?_⟩
    · match answer with
      | .ok () =>
        -- the new deadline counts from the start of this renewal
        refine suspended_resume (howning.renewed hstart p.now) ?_
        cases finished with
        | none => simpa [Progress, Action.isHandlerResult] using hprogress
        | some result => exact Delivered.cons hprogress rfl
      | .error .leaseLost => trivial
      | .error .unavailable =>
        exact suspended_resume (howning.cons quiet_renewUnavailable p.now)
          (hprogress.cons quiet_renewUnavailable rfl p.now)
    · rintro _ ⟨⟩
      exact howning.unwritten
  | renewTimedOut job deadline renewalStarted finished _ _ =>
    refine ⟨trivial, ?_⟩
    rintro _ ⟨⟩
    exact hs.1.unwritten
  | renewPending job deadline renewalStarted result _ => exact ⟨hs, nofun⟩
  -- the handler goes on while a renewal is in flight, which is still pending after it
  | renewPendingHandled job deadline renewalStarted action result _ hpoll =>
    obtain ⟨howning, hstart, hprogress⟩ := hs
    have hkind := isHandlerPoll_of_pollHandler hpoll
    obtain ⟨hallowed, hpolled, hresult⟩ := howning.polled hpoll hprogress p.now
    refine ⟨⟨hpolled, ?_, hresult⟩, ?_⟩
    · cases action with
      | handlerPending => exact hstart
      | handlerReturned result => exact hstart
      | handlerMissing => exact hstart
      | _ => cases hkind
    · rintro _ ⟨⟩
      exact hallowed
  -- the check before a terminal write is what `Allowed` asks for
  | sendComplete job deadline hbefore =>
    obtain ⟨howning, hresult⟩ := hs
    refine ⟨⟨howning.job_claimed, by simp [Action.isTerminalWrite]⟩, ?_⟩
    rintro _ ⟨⟩
    exact ⟨hresult, howning.unwritten, howning.unlost, howning.deadline_eq ▸ hbefore⟩
  | sendFail job error deadline hbefore =>
    obtain ⟨howning, hresult⟩ := hs
    refine ⟨⟨howning.job_claimed, by simp [Action.isTerminalWrite]⟩, ?_⟩
    rintro _ ⟨⟩
    exact ⟨hresult, howning.unwritten, howning.unlost, howning.deadline_eq ▸ hbefore⟩
  | completeAnswered job deadline answer _ =>
    refine ⟨?_, ?_⟩
    · match answer with
      | .ok () => exact ⟨p.now, List.mem_cons_self⟩
      | .error e => trivial
    · rintro _ ⟨⟩
      trivial
  | completePending job deadline _ => exact ⟨hs, nofun⟩
  | failAnswered job message delay deadline answer _ =>
    refine ⟨?_, ?_⟩
    · match answer with
      | .ok .retryScheduled => exact ⟨p.now, List.mem_cons_self⟩
      | .ok .deadLettered => exact ⟨p.now, List.mem_cons_self⟩
      | .error e => trivial
    · rintro _ ⟨⟩
      trivial
  | failPending job message delay deadline _ => exact ⟨hs, nofun⟩
  -- a run that ends at its deadline sends nothing
  | expired phase deadline _ _ => exact ⟨trivial, nofun⟩

/-! ## A whole run -/

/-- **The run lemma.** -/
theorem reachable_lawful {start : Instant} {s : RunOnce} (h : (w.runOnce start).Reachable s) :
    s.claimedAt = start ∧ Suspended w start s.log s.phase ∧ Lawful w start s.log := by
  refine Machine.Reachable.invariant (P := fun s : RunOnce =>
    s.claimedAt = start ∧ Suspended w start s.log s.phase ∧ Lawful w start s.log) ?_ ?_ h
  · exact ⟨rfl, rfl, lawful_nil w start⟩
  · rintro s p s' _ ⟨rfl, hs, hlawful⟩ hstep
    obtain ⟨_, action, hmove, hclaimedAt, _, hlog⟩ := JobWorker.poll_move hstep
    obtain ⟨hs', hallowed⟩ := move_lawful hmove hs
    rw [hlog, hclaimedAt]
    refine ⟨rfl, hs', ?_⟩
    cases action with
    | none => exact hlawful
    | some a => exact hlawful.cons (hallowed a rfl)

theorem renewalStart_le {start : Instant} {s : RunOnce} (h : (w.runOnce start).Reachable s) :
    renewalStart s.log ≤ s.now := by
  refine Machine.Reachable.invariant (P := fun s : RunOnce => renewalStart s.log ≤ s.now) ?_ ?_ h
  · exact Nat.zero_le _
  · intro s p s' _ ih hstep
    obtain ⟨hnow, action, _, _, hnow', hlog⟩ := JobWorker.poll_move hstep
    rw [hlog, hnow']
    have hold : renewalStart s.log ≤ p.now := Nat.le_trans ih hnow
    cases action with
    | none => exact hold
    | some a =>
      cases a with
      | renewSent => exact Nat.le_refl _
      | _ => exact hold

/-! ## What follows from a lawful log

Each of these is an induction on the log alone; the run is no longer looked at. -/

theorem Lawful.tail {t : Instant} {action : Action} (h : Lawful w claimedAt ((t, action) :: log)) :
    Lawful w claimedAt log := by
  intro newer t' a older hlog
  exact h ((t, action) :: newer) t' a older (by rw [hlog, List.cons_append])

/-- At most one terminal write. -/
theorem Lawful.terminal_writes (h : Lawful w claimedAt log) :
    log.countP (fun e => e.2.isTerminalWrite) ≤ 1 := by
  induction log with
  | nil => simp
  | cons e log ih =>
    obtain ⟨t, action⟩ := e
    have hprev := ih h.tail
    rw [List.countP_cons]
    cases hwrite : action.isTerminalWrite with
    | false => simpa using hprev
    | true =>
      -- a write is allowed only after a log without one
      have hnone : ¬ Happened Action.isTerminalWrite log := by
        have hallowed := h [] t action log rfl
        cases action with
        | completeSent => exact hallowed.2.1
        | failSent message delay => exact hallowed.2.1
        | _ => cases hwrite
      have hzero : log.countP (fun e => e.2.isTerminalWrite) = 0 := by
        rw [List.countP_eq_zero]
        exact fun e he hw => hnone ⟨e, he, hw⟩
      simp [hzero]

/-- A run that loses a renewal writes nothing, neither before nor after. -/
theorem Lawful.no_write_if_lost (h : Lawful w claimedAt log)
    (hlost : Happened Action.isLostRenewal log) : ¬ Happened Action.isTerminalWrite log := by
  induction log with
  | nil => simp at hlost
  | cons e log ih =>
    obtain ⟨t, action⟩ := e
    have hallowed := h [] t action log rfl
    have hprev := ih h.tail
    rw [happened_cons] at hlost ⊢
    rintro (hwrite | hwrite)
    · have hearlier : ¬ Happened Action.isLostRenewal log := by
        cases action with
        | completeSent => exact hallowed.2.2.1
        | failSent message delay => exact hallowed.2.2.1
        | _ => cases hwrite
      rcases hlost with hlost | hlost
      · cases action <;> cases hwrite <;> cases hlost
      · exact hearlier hlost
    · rcases hlost with hlost | hlost
      · cases action with
        | renewAnswered answer => exact hallowed hwrite
        | renewTimedOut => exact hallowed hwrite
        | _ => cases hlost
      · exact hprev hlost hwrite

/-- Nothing polls the handler once it has produced its result. -/
theorem Lawful.no_poll_after_result {newer older : ActionLog} {t : Instant} {action : Action}
    (h : Lawful w claimedAt log) (hlog : log = newer ++ (t, action) :: older)
    (hresult : action.isHandlerResult = true) : ¬ Happened Action.isHandlerPoll newer := by
  rintro ⟨⟨t', poll⟩, hmem, hpoll⟩
  obtain ⟨newest, between, rfl⟩ := List.append_of_mem hmem
  have hallowed := h newest t' poll (between ++ (t, action) :: older) (by simp [hlog])
  have hbefore : Happened Action.isHandlerResult (between ++ (t, action) :: older) :=
    ⟨(t, action), by simp, hresult⟩
  cases poll with
  | handlerPending => exact hallowed hbefore
  | handlerReturned result => exact hallowed hbefore
  | handlerMissing => exact hallowed hbefore
  | _ => cases hpoll

/-! ## The theorem -/

/-- **The terminal-write protocol of `run_once`**, over every behaviour of the handler, the queue
and the timers. -/
theorem run_once_terminal_protocol {start : Instant} {s : RunOnce}
    (h : (w.runOnce start).Reachable s) :
    -- at most one terminal write
    s.log.countP (fun e => e.2.isTerminalWrite) ≤ 1 ∧
    -- `complete` only after `Ok`, before the deadline
    (∀ newer t older, s.log = newer ++ (t, .completeSent) :: older →
      (∃ t', (t', .handlerReturned (.ok ())) ∈ older) ∧
        t < ownedUntil w.config.leaseTimeout start older) ∧
    -- `fail` only after `Err` or for want of a handler, before the deadline
    (∀ newer t message delay older, s.log = newer ++ (t, .failSent message delay) :: older →
      ((∃ t', (t', .handlerReturned (.error ⟨message⟩)) ∈ older) ∨
        ((∃ t', (t', .handlerMissing) ∈ older) ∧
          ∃ job, claimedJob older = some job ∧ job.jobType ∉ w.handlers)) ∧
        t < ownedUntil w.config.leaseTimeout start older) ∧
    -- no terminal write in a run with a lost renewal
    (Happened Action.isLostRenewal s.log → ¬ Happened Action.isTerminalWrite s.log) ∧
    -- an outcome only if the queue acknowledged it
    (s.phase = .returned (.ok .completed) → ∃ t, (t, .completeAnswered (.ok ())) ∈ s.log) ∧
    (s.phase = .returned (.ok .retryScheduled) →
      ∃ t, (t, .failAnswered (.ok .retryScheduled)) ∈ s.log) ∧
    (s.phase = .returned (.ok .deadLettered) →
      ∃ t, (t, .failAnswered (.ok .deadLettered)) ∈ s.log) ∧
    -- the handler is not polled after its result
    (∀ newer t action older, s.log = newer ++ (t, action) :: older →
      action.isHandlerResult = true → ¬ Happened Action.isHandlerPoll newer) := by
  obtain ⟨_, hs, hlawful⟩ := reachable_lawful h
  refine ⟨hlawful.terminal_writes, ?_, ?_, hlawful.no_write_if_lost, ?_, ?_, ?_, ?_⟩
  · intro newer t older hlog
    obtain ⟨hdelivered, _, _, hbefore⟩ := hlawful newer t _ older hlog
    rcases hdelivered with hreturned | ⟨error, herror, _⟩
    · exact ⟨hreturned, hbefore⟩
    · cases herror
  · intro newer t message delay older hlog
    obtain ⟨hdelivered, _, _, hbefore⟩ := hlawful newer t _ older hlog
    rcases hdelivered with hreturned | ⟨error, _, hmissing⟩
    · exact ⟨Or.inl hreturned, hbefore⟩
    · exact ⟨Or.inr hmissing, hbefore⟩
  · intro hphase
    rw [hphase] at hs
    exact hs
  · intro hphase
    rw [hphase] at hs
    exact hs
  · intro hphase
    rw [hphase] at hs
    exact hs
  · intro newer t action older hlog hresult
    exact hlawful.no_poll_after_result hlog hresult

/-- A worker of the `user.created` jobs. -/
def userWorker : JobWorker := ⟨["user.created"], ⟨"worker", 30, 5, 60⟩⟩

/-- A handler that outlives its first renewal interval and then succeeds. -/
def renewedRun : List Poll :=
  [{ now := 17, complete := some (.ok ()) }, { now := 16 },
    { now := 15, handler := some (.ok ()) }, { now := 14 },
    { now := 13, renew := some (.ok ()) }, { now := 11 },
    { now := 10, renewalTimer := true }, { now := 4 },
    { now := 3, claim := some (.ok (some ⟨7, "user.created", .null, .null, 1, 3⟩)) }]

theorem run_once_terminal_protocol_renewed :
    let s := ((userWorker.runOnce 0).run renewedRun).get (by decide)
    s.phase = .returned (.ok .completed) ∧ ∃ t, (t, .completeAnswered (.ok ())) ∈ s.log := by
  refine ⟨rfl, ?_⟩
  exact (run_once_terminal_protocol (Machine.reachable_get (by decide))).2.2.2.2.1 rfl

end BaseSkeleton.Job
