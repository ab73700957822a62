import BaseSkeleton.Job.LeaseInvariant

/-!
# A poll keeps the invariant of a world

A poll moves one run. It learns the answer of the call it waits for, moves its deadline when that
answer is a successful renewal, and sends the statement of its next phase.

* `Polled` — what a poll does to a run, in terms of its log.
* `inv_poll` — it keeps the invariant.
-/

namespace BaseSkeleton.Job

variable {lease : Duration} {now : Instant} {e e' : Execution} {W : World} {i : Nat}

/-! ## Polls

What the poll finds in the world is the answer of the call it waits for. The lemmas say what each
phase sends next, and which of its variables a poll may change. -/

variable {run' : RunOnce} {w : JobWorker} {claimedAt : Instant} {p : Poll} {phase phase' : Phase}
  {action : Option Action}

/-- After the answer to a renewal the run waits for no call. -/
theorem statement_afterRenewal {job : ClaimedJob} {deadline renewalStarted now : Instant}
    {finished : Option HandlerResult} {answer : Except JobQueueError Unit} :
    (w.afterRenewal job deadline renewalStarted now finished answer).statement w = none := by
  match answer, finished with
  | .ok (), none => rfl
  | .ok (), some result => rfl
  | .error .leaseLost, _ => rfl
  | .error .unavailable, none => rfl
  | .error .unavailable, some result => rfl

/-- A run keeps waiting for the same call, or for none. -/
theorem move_statement (h : w.Move claimedAt p phase action phase') {t : Statement}
    (hs : phase.statement w = some t) :
    phase'.statement w = none ∨
      (phase'.statement w = some t ∧ (phase' = .claiming ↔ phase = .claiming)) := by
  cases h with
  | claimPending _ => exact Or.inr ⟨hs, Iff.rfl⟩
  | renewPending job deadline renewalStarted result _ => exact Or.inr ⟨hs, Iff.rfl⟩
  | renewPendingHandled job deadline renewalStarted action result _ _ =>
    exact Or.inr ⟨hs, by simp⟩
  | completePending job deadline _ => exact Or.inr ⟨hs, Iff.rfl⟩
  | failPending job message delay deadline _ => exact Or.inr ⟨hs, Iff.rfl⟩
  | renewAnswered job deadline renewalStarted finished answer _ =>
    exact Or.inl statement_afterRenewal
  | claimFailed e _ => exact Or.inl rfl
  | idle _ => exact Or.inl rfl
  | claimed job _ => exact Or.inl rfl
  | renewTimedOut job deadline renewalStarted finished _ _ => exact Or.inl rfl
  | completeAnswered job deadline answer _ => exact Or.inl rfl
  | failAnswered job message delay deadline answer _ => exact Or.inl rfl
  | expired phase deadline _ _ => exact Or.inl rfl
  | select job deadline nextRenewal _ => cases hs
  | renewalDue job deadline nextRenewal _ => cases hs
  | handled job deadline nextRenewal action result _ => cases hs
  | handlerPending job deadline nextRenewal action _ => cases hs
  | handlerTimedOut job deadline nextRenewal action _ _ => cases hs
  | sendRenew job deadline _ => cases hs
  | sendComplete job deadline _ => cases hs
  | sendFail job error deadline _ => cases hs

/-- A run that waits for a renewal has just sent it, or was waiting for it before. -/
theorem move_renewing (h : w.Move claimedAt p phase action phase') {job : ClaimedJob}
    {deadline renewalStarted : Instant} {finished : Option HandlerResult}
    (hphase : phase' = .renewing job deadline renewalStarted finished) :
    phase.statement w = none ∨
      ∃ finished', phase = .renewing job deadline renewalStarted finished' := by
  cases h with
  | sendRenew job deadline _ => exact Or.inl rfl
  | renewPending job deadline renewalStarted result _ =>
    cases hphase
    exact Or.inr ⟨_, rfl⟩
  | renewPendingHandled job deadline renewalStarted action result _ _ =>
    cases hphase
    exact Or.inr ⟨_, rfl⟩
  | renewAnswered job deadline renewalStarted finished answer _ =>
    have hnone := congrArg (Phase.statement w) hphase
    rw [statement_afterRenewal] at hnone
    cases hnone
  | _ => cases hphase

/-- A run learns of its job from the answer of its claim. -/
theorem move_claimed {job : ClaimedJob}
    (h : w.Move claimedAt p phase (some (.claimed job)) phase') :
    phase = .claiming ∧ p.claim = some (.ok (some job)) ∧ phase'.statement w = none := by
  cases h with
  | claimed _ hclaim => exact ⟨rfl, hclaim, rfl⟩
  | handled job deadline nextRenewal action result hpoll =>
    cases isHandlerPoll_of_pollHandler hpoll
  | handlerPending job deadline nextRenewal action hpoll =>
    cases isHandlerPoll_of_pollHandler hpoll
  | handlerTimedOut job deadline nextRenewal action hpoll _ =>
    cases isHandlerPoll_of_pollHandler hpoll
  | renewPendingHandled job deadline renewalStarted action result _ hpoll =>
    cases isHandlerPoll_of_pollHandler hpoll

/-- A run keeps its worker. -/
theorem resume_worker : (e.resume run').worker = e.worker := by
  unfold Execution.resume
  split <;> rfl

/-- A poll puts the run where its step has brought it. -/
theorem resume_run : (e.resume run').run = run' := by
  unfold Execution.resume
  split <;> rfl

/-- What a run waits for after a step: a statement it just sent, nothing, or what it waited for. -/
theorem resume_call (e : Execution) (run' : RunOnce) : (∃ t, (e.resume run').call = .sent t ∧
      run'.phase.statement e.worker = some t ∧ e.run.phase.statement e.worker = none) ∨
    ((e.resume run').call = .idle ∧ run'.phase.statement e.worker = none) ∨
    ((e.resume run').call = e.call ∧
      (run'.phase.statement e.worker).isSome = (e.run.phase.statement e.worker).isSome) := by
  unfold Execution.resume
  split
  · next t hbefore hafter => exact Or.inl ⟨t, rfl, hafter, hbefore⟩
  · next hbefore hafter => exact Or.inr (Or.inl ⟨rfl, hafter⟩)
  · next hnew hleft =>
    refine Or.inr (Or.inr ⟨rfl, ?_⟩)
    cases hbefore : e.run.phase.statement e.worker with
    | none =>
      cases hafter : run'.phase.statement e.worker with
      | none => rfl
      | some t => exact absurd hafter (hnew t hbefore)
    | some t =>
      cases hafter : run'.phase.statement e.worker with
      | none => exact absurd hafter (hleft t hbefore)
      | some t' => rfl

/-- A run outside of a call waits for none. -/
theorem CallSound.idle (h : CallSound e) (hnone : e.run.phase.statement e.worker = none) :
    e.call = .idle := by
  have hclaiming : e.run.phase ≠ .claiming := by
    intro hphase
    rw [hphase] at hnone
    cases hnone
  unfold CallSound at h
  split at h
  · assumption
  · rcases h with h | h
    · cases hnone.symm.trans h
    · exact absurd h.1 hclaiming
  · exact absurd h hclaiming
  · rw [hnone] at h
    cases h.2

/-- What one poll of `e` at `now` does, in terms of its log. -/
structure Polled (lease : Duration) (now : Instant) (e : Execution) (run' : RunOnce)
    (p : Poll) (action : Option Action) : Prop where
  running : Running lease now e
  move : e.worker.Move e.run.claimedAt p e.run.phase action run'.phase
  claimedAt : run'.claimedAt = e.run.claimedAt
  log : run'.log = (action.map fun a => (p.now, a)).toList ++ e.run.log
  /-- the run is shown the answers of its own call -/
  claim : ∀ a, p.claim = some a → e.call = .answered (.claim a)
  renew : ∀ a, p.renew = some a → e.call = .answered (.lease a)

/-- Only a claim changes the job of a run. -/
theorem Polled.claimedJob_eq (h : Polled lease now e run' p action)
    (hclaimed : ∀ job, action ≠ some (.claimed job)) :
    claimedJob run'.log = claimedJob e.run.log := by
  rw [h.log]
  cases action with
  | none => rfl
  | some a => exact claimedJob_cons (fun job ha => hclaimed job (congrArg some ha)) _ _

/-- A run learns of a claim only through the answer of its call. -/
theorem Polled.of_claimed {job : ClaimedJob} (h : Polled lease now e run' p (some (.claimed job))) :
    e.call = .answered (.claim (.ok (some job))) ∧ e.run.log = [] ∧
      claimedJob run'.log = some job ∧ run'.phase.statement e.worker = none := by
  obtain ⟨hphase, hclaim, hstatement⟩ := move_claimed h.move
  refine ⟨h.claim _ hclaim, h.running.log_of_claiming hphase, ?_, hstatement⟩
  rw [h.log]
  rfl

/-- A poll extends its run. -/
theorem Polled.extended (h : Polled lease now e run' p action) :
    Extended e (e.resume run') where
  worker := resume_worker
  claimed job hjob := by
    rw [resume_run]
    by_cases hclaimed : ∃ job', action = some (.claimed job')
    · obtain ⟨job', rfl⟩ := hclaimed
      rw [h.of_claimed.2.1] at hjob
      cases hjob
    · rw [h.claimedJob_eq fun job' ha => hclaimed ⟨job', ha⟩]
      exact hjob
  written hwritten := by
    show Happened Action.isTerminalWrite (e.resume run').run.log
    rw [resume_run, h.log]
    obtain ⟨entry, hentry, hkind⟩ := hwritten
    exact ⟨entry, List.mem_append_right _ hentry, hkind⟩

/-- After a poll the call is the one of the phase. -/
theorem Polled.callSound (h : Polled lease now e run' p action) : CallSound (e.resume run') := by
  have hsound := h.running.call
  unfold CallSound
  rw [resume_run, resume_worker]
  -- a statement was sent, the call is over, or the run waits on
  rcases resume_call e run' with ⟨t, hcall, hafter, _⟩ | ⟨hcall, hafter⟩ |
    ⟨hcall, hkept⟩
  · rw [hcall]
    exact Or.inl hafter
  · rw [hcall]
    exact hafter
  · rw [hcall]
    cases hbefore : e.run.phase.statement e.worker with
    | none =>
      rw [hsound.idle hbefore]
      rw [hbefore] at hkept
      exact Option.not_isSome_iff_eq_none.mp (by simp [hkept])
    | some t =>
      rw [hbefore] at hkept
      rcases move_statement h.move hbefore with hnone | ⟨hsame, hclaiming⟩
      · rw [hnone] at hkept
        cases hkept
      · unfold CallSound at hsound
        rw [hsame, ← hbefore]
        simp only [ne_eq, hclaiming]
        exact hsound

/-- A poll brings no job that the run did not have. -/
theorem Polled.job_eq (h : Polled lease now e run' p action) {job : ClaimedJob}
    (hjob : (e.resume run').job = some job) : e.job = some job := by
  by_cases hclaimed : ∃ job', action = some (.claimed job')
  · obtain ⟨job', rfl⟩ := hclaimed
    obtain ⟨hcall, _, hlog, hstatement⟩ := h.of_claimed
    -- the answer has been consumed, and is now in the log
    have hidle : (e.resume run').call = .idle := by
      rcases resume_call e run' with ⟨t, _, hafter, _⟩ | ⟨hidle, _⟩ | ⟨_, hkept⟩
      · cases hstatement.symm.trans hafter
      · exact hidle
      · have hphase := h.running.call
        rw [CallSound, hcall] at hphase
        rw [hstatement, hphase] at hkept
        cases hkept
    rw [Execution.job, hidle, resume_run] at hjob
    have hlearned : claimedJob run'.log = some job := hjob
    cases hlog.symm.trans hlearned
    rw [Execution.job, hcall]
  · have hlog := h.claimedJob_eq fun job' ha => hclaimed ⟨job', ha⟩
    unfold Execution.job at hjob
    split at hjob
    · next hanswered =>
      rcases resume_call e run' with ⟨t, hcall, _⟩ | ⟨hcall, _⟩ | ⟨hcall, _⟩
      · cases hcall.symm.trans hanswered
      · cases hcall.symm.trans hanswered
      · rw [Execution.job, ← hcall, hanswered, hjob]
    · rw [resume_run, hlog] at hjob
      exact h.running.job_of_claimed hjob

/-- A poll brings no renewal that was not answered. -/
theorem Polled.renewedAt_eq (h : Polled lease now e run' p action) {renewalStarted : Instant}
    (hrenewed : (e.resume run').renewedAt = some renewalStarted) :
    e.renewedAt = some renewalStarted := by
  obtain ⟨hcall, job, deadline, finished, hphase⟩ := renewedAt_eq_some hrenewed
  rw [resume_run] at hphase
  have hsame : e.call = .answered (.lease (.ok ())) := by
    rcases resume_call e run' with ⟨t, hsent, _⟩ | ⟨hidle, _⟩ | ⟨hkept, _⟩
    · cases hcall.symm.trans hsent
    · cases hcall.symm.trans hidle
    · exact hkept.symm.trans hcall
  rcases move_renewing h.move hphase with hnone | ⟨finished', hphase'⟩
  · cases (h.running.call.idle hnone).symm.trans hsame
  · simp only [Execution.renewedAt, hphase', hsame]

/-- The deadline moves only when the run takes the answer of a renewal that succeeded. -/
theorem Polled.localDeadline_eq (h : Polled lease now e run' p action) :
    (e.resume run').localDeadline lease = e.localDeadline lease ∨
      ∃ renewalStarted, e.renewedAt = some renewalStarted ∧
        (e.resume run').localDeadline lease = renewalStarted + lease := by
  unfold Execution.localDeadline
  rw [resume_run, h.claimedAt, h.log]
  cases action with
  | none => exact Or.inl rfl
  | some a =>
    by_cases hrenewed : a = .renewAnswered (.ok ())
    · right
      subst hrenewed
      obtain ⟨hanswer, job, deadline, renewalStarted, finished, hphase⟩ := move_renewed h.move
      have hsuspended := h.running.suspended
      rw [hphase] at hsuspended
      refine ⟨renewalStarted, ?_, ?_⟩
      · simp only [Execution.renewedAt, hphase, h.renew _ hanswer]
      · show renewalStart e.run.log + lease = _
        rw [hsuspended.2.1]
    · exact Or.inl (ownedUntil_cons hrenewed lease _ _ _)

/-- A branch that fails was not taken. -/
theorem of_ite_some {α : Type} {c : Bool} {x : Option α} {a : α}
    (h : (if c then x else none) = some a) : x = some a := by
  cases c with
  | false => cases h
  | true => exact h

/-- The answer of a claim is one. -/
theorem claimAnswer_eq_some {call : Call} {a : Except JobQueueError (Option ClaimedJob)}
    (h : call.claimAnswer = some a) : call = .answered (.claim a) := by
  unfold Call.claimAnswer at h
  split at h <;> cases h
  rfl

/-- The answer of a `complete` or a renewal is one. -/
theorem leaseAnswer_eq_some {call : Call} {a : Except JobQueueError Unit}
    (h : call.leaseAnswer = some a) : call = .answered (.lease a) := by
  unfold Call.leaseAnswer at h
  split at h <;> cases h
  rfl

/-- What a poll of a run in a world is. -/
theorem polled_of_poll (hrun : Running lease W.now e) {arrived renewalTimer deadlineTimer : Bool}
    {handler : Option HandlerResult}
    (hpoll : e.worker.poll e.run (e.pollAt W.now arrived renewalTimer deadlineTimer handler) =
      some run') :
    ∃ action, run'.now = W.now ∧ Polled lease W.now e run'
      (e.pollAt W.now arrived renewalTimer deadlineTimer handler) action := by
  obtain ⟨_, action, hmove, hclaimedAt, hnow, hlog⟩ := JobWorker.poll_move hpoll
  refine ⟨action, hnow, hrun, hmove, hclaimedAt, hlog, ?_, ?_⟩
  · intro a ha
    exact claimAnswer_eq_some (of_ite_some ha)
  · intro a ha
    exact leaseAnswer_eq_some (of_ite_some ha)

/-- A run is polled. -/
theorem inv_poll (hinv : Inv lease W) (he : W.executions[i]? = some e)
    {arrived renewalTimer deadlineTimer : Bool} {handler : Option HandlerResult}
    (hpoll : e.worker.poll e.run (e.pollAt W.now arrived renewalTimer deadlineTimer handler) =
      some run') :
    Inv lease
      { W with
        executions := W.executions.set i (e.resume run')
        orphans := e.abandoned run' ++ W.orphans } := by
  have hmem : e ∈ W.executions := List.mem_of_getElem? he
  have hrun := hinv.running e hmem
  obtain ⟨action, hnow, hpolled⟩ := polled_of_poll hrun hpoll
  have hclaimedAt := hpolled.claimedAt
  have hext := hpolled.extended
  have hrun' : Running lease W.now (e.resume run') := by
    refine ⟨?_, ?_, ?_, ?_, hpolled.callSound⟩
    · rw [resume_worker]
      exact hrun.lease_eq
    · rw [resume_worker, resume_run, hclaimedAt]
      exact hrun.reachable.next hpoll
    · rw [resume_run, hclaimedAt]
      exact hrun.claimedAt_le
    · rw [resume_run, hnow]
  refine inv_set hinv he hext hrun' ?_ ?_ (fun job hjob => Or.inl (hpolled.job_eq hjob)) ?_
  -- the statement the run waits for now
  · intro s hs
    have hlen : i < W.executions.length := (List.getElem?_eq_some_iff.mp he).1
    rcases resume_call e run' with ⟨t, hcall, hafter, _⟩ | ⟨hcall, _⟩ |
      ⟨hcall, _⟩
    · rw [hcall] at hs
      obtain rfl := List.mem_singleton.mp hs
      refine hrun'.backed (List.mem_set hlen _) ?_
      rw [resume_run, resume_worker]
      exact hafter
    · rw [hcall] at hs
      cases hs
    · rw [hcall] at hs
      exact (hinv.pending e hmem s hs).mono (extended_set he hext)
  -- a statement whose call timed out may still arrive
  · intro s hs
    rcases List.mem_append.mp hs with hs | hs
    · right
      unfold Execution.abandoned at hs
      split at hs
      · cases hs
      · exact hs
    · exact Or.inl hs
  · intro job hjob
    obtain ⟨hholds, hrenewed⟩ := hinv.held e hmem job (hpolled.job_eq hjob)
    rw [resume_worker]
    refine ⟨?_, fun renewalStarted h => hrenewed renewalStarted (hpolled.renewedAt_eq h)⟩
    -- a deadline that moves was backed before the run learned of it
    rcases hpolled.localDeadline_eq with hsame | ⟨renewalStarted, hstarted, hmoved⟩
    · rw [hsame]
      exact hholds
    · rw [hmoved]
      exact hrenewed renewalStarted hstarted

end BaseSkeleton.Job
