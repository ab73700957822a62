import BaseSkeleton.Job.RenewalPacing

/-!
# Renewals that fail

The retries of a renewal end with the lease. Timers fire on time: the run is polled when one of them
is due, and is shown that it is. Whatever the handler and the queue do, the loop of
`execute_with_heartbeat` is then left when the lease ends, or the lease was renewed.

* `TimersOnTime` — the polls of such a run.
* `reachable_within` — the clock while the run is in the loop.
* `poll_at_deadline` — what a poll at the end of the lease comes to.
* `endless_loop_renews` — a loop that does not end keeps renewing.
* `renewal_retries_end_with_the_lease` — all of it, with the number of renewals.
-/

namespace BaseSkeleton.Job

/-! ## The loop

The phases of `execute_with_heartbeat` in which its loop has not been left, with the deadline each
of them looks at. -/

/-- When `execute_with_heartbeat` was entered: the claim was answered. -/
def enteredAt : ActionLog → Instant
  | [] => 0
  | (t, .claimed _) :: _ => t
  | _ :: log => enteredAt log

/-- The deadline while the run is in the loop of `execute_with_heartbeat`. -/
def Phase.loopDeadline : Phase → Option Instant
  | .looping _ deadline _ => some deadline
  | .selecting _ deadline _ => some deadline
  | .renewalDue _ deadline => some deadline
  | .renewing _ deadline _ _ => some deadline
  | _ => none

/-- The run is in the loop of `execute_with_heartbeat`. -/
def Phase.InLoop (phase : Phase) : Prop :=
  phase.loopDeadline.isSome = true

variable {w : JobWorker} {claimedAt now deadline : Instant} {log : ActionLog} {p : Poll}
  {phase phase' : Phase} {action : Option Action} {a : Action}

/-! ## Timers that fire on time

`timeout_at` and `sleep_until` wake the run at their instant at the latest. Nothing is assumed of
the handler or of the queue. -/

/-- When the run is polled at the latest: a timer is due, or it is not waiting at all. Before the
claim is answered there is no timer. -/
def Phase.dueBy (now : Instant) : Phase → Option Instant
  | .looping _ _ _ => some now
  | .selecting _ deadline nextRenewal => some (max now (min deadline nextRenewal))
  | .renewalDue _ _ => some now
  | .renewing _ deadline _ _ => some (max now deadline)
  | .settled _ _ _ => some now
  | .completing _ deadline => some (max now deadline)
  | .failing _ _ _ deadline => some (max now deadline)
  | _ => none

/-- The poll is not later than that, and shows every timer that is due. -/
def TimersOnTime (s : RunOnce) (p : Poll) : Prop :=
  (s.phase.dueBy s.now).all (p.now ≤ ·) = true ∧ p.renewalTimer = true ∧ p.deadlineTimer = true

instance (s : RunOnce) (p : Poll) : Decidable (TimersOnTime s p) :=
  inferInstanceAs (Decidable (_ ∧ _ ∧ _))

/-- `run_once`, called at `start`, with timers that fire on time. -/
def punctualRun (w : JobWorker) (start : Instant) : Machine RunOnce Poll :=
  (w.runOnce start).restrict TimersOnTime

variable {start : Instant} {s s' s'' : RunOnce} {p' : Poll}

theorem punctualRun_step : (punctualRun w start).step s p = some s' ↔
    TimersOnTime s p ∧ w.poll s p = some s' :=
  Machine.restrict_step

/-- In the loop the deadline is the end of the lease. -/
theorem deadline_of_inLoop (h : (w.runOnce start).Reachable s)
    (hloop : s.phase.loopDeadline = some deadline) :
    deadline = ownedSince start s.log + w.config.leaseTimeout := by
  have hsuspended := (reachable_lawful h).2.1
  generalize s.phase = phase at hsuspended hloop
  cases phase with
  | looping job deadline nextRenewal =>
    cases hloop
    exact hsuspended.1.deadline_since
  | selecting job deadline nextRenewal =>
    cases hloop
    exact hsuspended.1.deadline_since
  | renewalDue job deadline =>
    cases hloop
    exact hsuspended.1.deadline_since
  | renewing job deadline renewalStarted finished =>
    cases hloop
    exact hsuspended.1.deadline_since
  | _ => cases hloop

/-- A timer fires at the deadline at the latest. -/
theorem now_le_of_timersOnTime (h : TimersOnTime s p)
    (hloop : s.phase.loopDeadline = some deadline) : p.now ≤ max s.now deadline := by
  have hdue := h.1
  generalize s.phase = phase at hdue hloop
  cases phase with
  | looping job deadline nextRenewal =>
    have hnow : p.now ≤ s.now := of_decide_eq_true hdue
    lia
  | selecting job deadline nextRenewal =>
    cases hloop
    have hnow : p.now ≤ max s.now (min deadline nextRenewal) := of_decide_eq_true hdue
    lia
  | renewalDue job deadline =>
    have hnow : p.now ≤ s.now := of_decide_eq_true hdue
    lia
  | renewing job deadline renewalStarted finished =>
    cases hloop
    exact of_decide_eq_true hdue
  | _ => cases hloop

/-! ## The end of the lease

A run that is in the loop has last been polled no later than the end of its lease, or when it
entered the loop. -/

/-- The instants at which the loop is polled. -/
def WithinLease (w : JobWorker) (claimedAt : Instant) (log : ActionLog) (now : Instant) : Prop :=
  now ≤ max (ownedSince claimedAt log + w.config.leaseTimeout) (enteredAt log)

theorem enteredAt_cons (ha : ∀ job, a ≠ .claimed job) (t : Instant) (log : ActionLog) :
    enteredAt ((t, a) :: log) = enteredAt log := by
  cases a with
  | claimed job => exact absurd rfl (ha job)
  | _ => rfl

/-- A success moves the end of the lease, and nothing else does. -/
theorem ownedSince_le_cons (hs : Suspended w claimedAt log phase)
    (hpaced : Paced w claimedAt log now phase) (h : w.Move claimedAt p phase (some a) phase') :
    ownedSince claimedAt log ≤ ownedSince claimedAt ((p.now, a) :: log) := by
  by_cases ha : a = .renewAnswered (.ok ())
  · subst ha
    obtain ⟨_, job, deadline, renewalStarted, finished, rfl⟩ := move_renewed h
    show ownedSince claimedAt log ≤ renewalStart log
    rw [hs.2.1]
    exact Nat.le_trans (Nat.le_add_right _ _) hpaced.1
  · rw [ownedSince_cons ha]

/-- The loop is entered when the claim is answered, and not again. -/
theorem inLoop_of_move (h : w.Move claimedAt p phase action phase') (hloop : phase'.InLoop) :
    (phase.InLoop ∧ ∀ job, action ≠ some (.claimed job)) ∨ ∃ job, action = some (.claimed job) := by
  cases h with
  | claimed job _ => exact Or.inr ⟨job, rfl⟩
  | select job deadline nextRenewal _ => exact Or.inl ⟨rfl, nofun⟩
  | renewalDue job deadline nextRenewal _ => exact Or.inl ⟨rfl, nofun⟩
  | handlerPending job deadline nextRenewal action hpoll =>
    refine Or.inl ⟨rfl, fun job h => ?_⟩
    cases h
    cases isHandlerPoll_of_pollHandler hpoll
  | sendRenew job deadline _ => exact Or.inl ⟨rfl, nofun⟩
  | renewAnswered job deadline renewalStarted finished answer _ => exact Or.inl ⟨rfl, nofun⟩
  | renewPending job deadline renewalStarted result _ => exact Or.inl ⟨rfl, nofun⟩
  | renewPendingHandled job deadline renewalStarted action result _ hpoll =>
    refine Or.inl ⟨rfl, fun job h => ?_⟩
    cases h
    cases isHandlerPoll_of_pollHandler hpoll
  | _ => cases hloop

/-- A poll of the loop is no later than the lease ends, if the state before was not. -/
theorem poll_within (hreach : (w.runOnce start).Reachable s) (htimers : TimersOnTime s p)
    (hloop : s.phase.InLoop) (hs : WithinLease w start s.log s.now) :
    WithinLease w start s.log p.now := by
  obtain ⟨deadline, hdeadline⟩ := Option.isSome_iff_exists.mp hloop
  have hnow := now_le_of_timersOnTime htimers hdeadline
  rw [deadline_of_inLoop hreach hdeadline] at hnow
  unfold WithinLease at hs ⊢
  lia

/-- **The run lemma.** -/
theorem reachable_within (h : (punctualRun w start).Reachable s) (hloop : s.phase.InLoop) :
    WithinLease w start s.log s.now := by
  revert hloop
  refine Machine.Reachable.restrict_invariant (P := fun s =>
    s.phase.InLoop → WithinLease w start s.log s.now) ?_ ?_ h
  · intro hloop
    cases hloop
  · intro s p s' hreach ih htimers hstep hloop
    obtain ⟨hclaimedAt, hsuspended, _⟩ := reachable_lawful hreach
    have hpaced := (reachable_paced hreach).1
    obtain ⟨_, action, hmove, _, hnow', hlog⟩ := JobWorker.poll_move hstep
    rw [hclaimedAt] at hmove
    rw [hlog, hnow']
    rcases inLoop_of_move hmove hloop with ⟨hbefore, hunclaimed⟩ | ⟨job, rfl⟩
    · have hwithin := poll_within hreach htimers hbefore (ih hbefore)
      cases action with
      | none => exact hwithin
      | some a =>
        have hsince := ownedSince_le_cons hsuspended hpaced hmove
        have hentered := enteredAt_cons (a := a) (fun job h => hunclaimed job (h ▸ rfl)) p.now s.log
        show p.now ≤ max (ownedSince start ((p.now, a) :: s.log) + w.config.leaseTimeout)
          (enteredAt ((p.now, a) :: s.log))
        unfold WithinLease at hwithin
        lia
    · exact Nat.le_max_right _ _

/-! ## At the end of the lease

A poll at that instant leaves the loop, or is told that a renewal has succeeded; at the latest the
poll after it does. -/

/-- The run goes on with a lease that was renewed. -/
def Renews (s s' : RunOnce) : Prop :=
  ∃ t, s'.log = (t, .renewAnswered (.ok ())) :: s.log

/-- A check that finds the deadline passed. -/
theorem returned_of_checks (h : w.poll s p = some s') (hchecks : s.phase.checks = some deadline)
    (hloop : s.phase.InLoop) (hnow : deadline ≤ p.now) : ¬ s'.phase.InLoop := by
  obtain ⟨_, action, hmove, _⟩ := JobWorker.poll_move h
  generalize s.phase = phase at hmove hchecks hloop
  generalize s'.phase = phase' at hmove ⊢
  cases hmove with
  | select job deadline nextRenewal hbefore =>
    cases hchecks
    exact absurd hbefore (Nat.not_lt_of_le hnow)
  | sendRenew job deadline hbefore =>
    cases hchecks
    exact absurd hbefore (Nat.not_lt_of_le hnow)
  | expired phase deadline _ _ => exact nofun
  | sendComplete job deadline _ => cases hloop
  | sendFail job error deadline _ => cases hloop
  | completeAnswered job deadline answer _ => cases hloop
  | completePending job deadline _ => cases hloop
  | failAnswered job message delay deadline answer _ => cases hloop
  | failPending job message delay deadline _ => cases hloop
  | _ => cases hchecks

/-- **A poll at the deadline** leaves the loop or goes to a check of the deadline. -/
theorem poll_at_deadline (h : w.poll s p = some s') (htimers : TimersOnTime s p)
    (hloop : s.phase.loopDeadline = some deadline) (hnow : deadline ≤ p.now)
    (hfailed : ¬ Renews s s') : ¬ s'.phase.InLoop ∨ s'.phase.checks = some deadline := by
  obtain ⟨_, hrenewal, hdeadline⟩ := htimers
  -- A phase that compares the clock with the deadline itself ends there; in the others the timer of
  -- the deadline has fired.
  by_cases hchecks : s.phase.checks = some deadline
  · exact Or.inl (returned_of_checks h hchecks (Option.isSome_iff_exists.mpr ⟨_, hloop⟩) hnow)
  · unfold JobWorker.poll at h
    split at h
    · cases h
    · generalize hphase : s.phase = phase at h hchecks hloop
      cases phase with
      | selecting job deadline nextRenewal =>
        cases hloop
        simp only [hdeadline, hnow, and_self, if_true] at h
        split at h
        · cases h
          exact Or.inr rfl
        · split at h
          · cases h
            exact Or.inl nofun
          · cases h
            exact Or.inl nofun
      | renewing job deadline renewalStarted finished =>
        cases hloop
        simp only [hdeadline, hnow, and_self, if_true] at h
        split at h
        · next answer _ =>
          cases h
          match answer with
          | .ok () => exact absurd ⟨p.now, rfl⟩ hfailed
          | .error .leaseLost => exact Or.inl nofun
          | .error .unavailable =>
            cases finished with
            | none => exact Or.inr rfl
            | some result => exact Or.inl nofun
        · cases h
          exact Or.inl nofun
      | looping job deadline nextRenewal => exact absurd hloop hchecks
      | renewalDue job deadline => exact absurd hloop hchecks
      | _ => cases hloop

/-- The second poll at the deadline leaves the loop at the latest. -/
theorem second_poll_at_deadline (h : w.poll s p = some s') (htimers : TimersOnTime s p)
    (hloop : s.phase.loopDeadline = some deadline) (hnow : deadline ≤ p.now)
    (hfailed : ¬ Renews s s') (h' : w.poll s' p' = some s'') :
    ¬ s'.phase.InLoop ∨ ¬ s''.phase.InLoop := by
  rcases poll_at_deadline h htimers hloop hnow hfailed with hleft | hchecks
  · exact Or.inl hleft
  · by_cases hloop' : s'.phase.InLoop
    · obtain ⟨_, _, _, _, hnow', _⟩ := JobWorker.poll_move h
      have hmonotone := (JobWorker.poll_move h').1
      exact Or.inr (returned_of_checks h' hchecks hloop' (by lia))
    · exact Or.inl hloop'

/-- The loop is never stuck: its timers let it be polled at once. -/
theorem exists_poll_of_inLoop (hloop : s.phase.InLoop) :
    ∃ p s', (punctualRun w start).step s p = some s' := by
  let p : Poll := { now := s.now, renewalTimer := true, deadlineTimer := true }
  -- No time passes during the poll, and whatever fires is late by nothing.
  have htimers : TimersOnTime s p := by
    refine ⟨?_, rfl, rfl⟩
    generalize s.phase = phase
    cases phase with
    | looping job deadline nextRenewal => exact decide_eq_true (Nat.le_refl _)
    | selecting job deadline nextRenewal => exact decide_eq_true (Nat.le_max_left _ _)
    | renewalDue job deadline => exact decide_eq_true (Nat.le_refl _)
    | renewing job deadline renewalStarted finished => exact decide_eq_true (Nat.le_max_left _ _)
    | settled job result deadline => exact decide_eq_true (Nat.le_refl _)
    | completing job deadline => exact decide_eq_true (Nat.le_max_left _ _)
    | failing job message delay deadline => exact decide_eq_true (Nat.le_max_left _ _)
    | _ => rfl
  have hpoll : ∃ s', w.poll s p = some s' := by
    have hnow : ¬ p.now < s.now := Nat.lt_irrefl _
    unfold JobWorker.poll
    rw [if_neg hnow]
    generalize s.phase = phase at hloop
    cases phase with
    | looping job deadline nextRenewal =>
      simp only
      split <;> exact ⟨_, rfl⟩
    | selecting job deadline nextRenewal =>
      simp only
      split
      · exact ⟨_, rfl⟩
      · split
        · exact ⟨_, rfl⟩
        · split <;> exact ⟨_, rfl⟩
    | renewalDue job deadline =>
      simp only
      split <;> exact ⟨_, rfl⟩
    | renewing job deadline renewalStarted finished =>
      simp only
      split
      · exact ⟨_, rfl⟩
      · split
        · exact ⟨_, rfl⟩
        · split <;> exact ⟨_, rfl⟩
    | _ => cases hloop
  obtain ⟨s', hs'⟩ := hpoll
  exact ⟨p, s', punctualRun_step.mpr ⟨htimers, hs'⟩⟩

/-! ## Endless runs

A run that stays in the loop for ever passes the end of each of its leases, and can do so only by
renewing it. -/

theorem punctualRun_reachable (h : (punctualRun w start).Reachable s) :
    (w.runOnce start).Reachable s :=
  h.of_restrict

/-- Without a success the lease ends when it did. -/
theorem ownedSince_of_not_renews (h : w.poll s p = some s') (hfailed : ¬ Renews s s') :
    ownedSince claimedAt s'.log = ownedSince claimedAt s.log := by
  obtain ⟨_, action, _, _, _, hlog⟩ := JobWorker.poll_move h
  cases action with
  | none => rw [hlog, Option.map_none, Option.toList_none, List.nil_append]
  | some a =>
    have ha : a ≠ .renewAnswered (.ok ()) := by
      intro hsuccess
      exact hfailed ⟨p.now, hsuccess ▸ hlog⟩
    rw [hlog]
    exact ownedSince_cons ha claimedAt p.now s.log

/-- **A loop that does not end keeps renewing**, if the clock comes to each of its deadlines. -/
theorem endless_loop_renews (r : (punctualRun w start).Endless)
    (hloop : ∀ n, (r.states n).phase.InLoop)
    (hclock : ∀ n deadline, (r.states n).phase.loopDeadline = some deadline →
      ∃ m, deadline ≤ (r.states m).now) (n : Nat) :
    ∃ m, n ≤ m ∧ Renews (r.states m) (r.states (m + 1)) := by
  by_contra hnever
  have hfailed : ∀ m, n ≤ m → ¬ Renews (r.states m) (r.states (m + 1)) := by
    intro m hm hrenews
    exact hnever ⟨m, hm, hrenews⟩
  have hpoll : ∀ m, TimersOnTime (r.states m) (r.inputs m) ∧
      w.poll (r.states m) (r.inputs m) = some (r.states (m + 1)) :=
    fun m => punctualRun_step.mp (r.step m)
  obtain ⟨deadline, hdeadline⟩ := Option.isSome_iff_exists.mp (hloop n)
  obtain ⟨m, hm⟩ := hclock n deadline hdeadline
  -- the lease that ends at `deadline` is never renewed again
  have hsince : ∀ k, n ≤ k → ownedSince start (r.states k).log =
      ownedSince start (r.states n).log := by
    intro k hk
    refine r.invariant (P := fun s => ownedSince start s.log = ownedSince start (r.states n).log)
      rfl ?_ hk
    intro k hk ih
    rw [ownedSince_of_not_renews (hpoll k).2 (hfailed k hk), ih]
  -- and once the clock has come to it, it stays there
  have hlate : ∀ k, m ≤ k → deadline ≤ (r.states k).now := by
    intro k hk
    refine r.invariant (P := fun s => deadline ≤ s.now) hm ?_ hk
    intro k _ ih
    obtain ⟨hnow, _, _, _, hnow', _⟩ := JobWorker.poll_move (hpoll k).2
    lia
  let k := max n m
  have hk : n ≤ k := Nat.le_max_left _ _
  obtain ⟨deadline', hdeadline'⟩ := Option.isSome_iff_exists.mp (hloop k)
  have hsame : deadline' = deadline := by
    rw [deadline_of_inLoop (punctualRun_reachable (r.reachable k)) hdeadline',
      deadline_of_inLoop (punctualRun_reachable (r.reachable n)) hdeadline, hsince k hk]
  have hnow : deadline' ≤ (r.inputs k).now := by
    have hpolled := (JobWorker.poll_move (hpoll k).2).1
    have hpassed := hlate k (Nat.le_max_right _ _)
    lia
  rcases second_poll_at_deadline (hpoll k).2 (hpoll k).1 hdeadline' hnow (hfailed k hk)
    (hpoll (k + 1)).2 with hleft | hleft
  · exact hleft (hloop (k + 1))
  · exact hleft (hloop (k + 2))

/-- **Renewal retries are bounded and end with the lease.** -/
theorem renewal_retries_end_with_the_lease
    (hlease : Duration.fromSecs 1 ≤ w.config.leaseTimeout) (start : Instant) :
    (∀ s, (punctualRun w start).Reachable s →
      -- the renewals since the lease was last renewed
      (retryStarts s.log).length ≤ 9 ∧
      (retryStarts s.log).Pairwise (fun later earlier =>
        earlier + w.config.leaseTimeout / 3 / 4 ≤ later) ∧
      -- the loop is never stuck
      (s.phase.InLoop → ∃ p s', (punctualRun w start).step s p = some s') ∧
      ∀ p s', s.phase.InLoop → (punctualRun w start).step s p = some s' →
        -- the loop is not polled after the end of the lease, unless it was entered there
        p.now ≤ max (ownedSince start s.log + w.config.leaseTimeout) (enteredAt s.log) ∧
        -- and there it is left, with this poll or the next one
        (ownedSince start s.log + w.config.leaseTimeout ≤ p.now → ¬ Renews s s' →
          ¬ s'.phase.InLoop ∨
            ∀ p' s'', (punctualRun w start).step s' p' = some s'' → ¬ s''.phase.InLoop)) ∧
    -- so it is left, or keeps renewing
    ∀ r : (punctualRun w start).Endless, (∀ n, (r.states n).phase.InLoop) →
      (∀ n deadline, (r.states n).phase.loopDeadline = some deadline →
        ∃ m, deadline ≤ (r.states m).now) →
      ∀ n, ∃ m, n ≤ m ∧ Renews (r.states m) (r.states (m + 1)) := by
  refine ⟨fun s h => ?_, fun r hloop hclock => endless_loop_renews r hloop hclock⟩
  have hreach := punctualRun_reachable h
  have hspaced := (reachable_paced hreach).2
  refine ⟨length_retryStarts_le hlease hspaced, retryStarts_apart hspaced,
    exists_poll_of_inLoop, ?_⟩
  intro p s' hloop hstep
  obtain ⟨htimers, hpoll⟩ := punctualRun_step.mp hstep
  refine ⟨poll_within hreach htimers hloop (reachable_within h hloop), ?_⟩
  intro hnow hfailed
  obtain ⟨deadline, hdeadline⟩ := Option.isSome_iff_exists.mp hloop
  rw [← deadline_of_inLoop hreach hdeadline] at hnow
  by_cases hleft : s'.phase.InLoop
  · right
    intro p' s'' hstep'
    rcases second_poll_at_deadline hpoll htimers hdeadline hnow hfailed
      (punctualRun_step.mp hstep').2 with hleft' | hleft'
    · exact absurd hleft hleft'
    · exact hleft'
  · exact Or.inl hleft

/-! ## Nine renewals in one lease

The bound is reached: the lease is one nanosecond longer than three seconds, and every renewal fails
at once. -/

/-- A lease of three seconds and a nanosecond. -/
def briefWorker : JobWorker :=
  ⟨["user.created"], ⟨"worker", Duration.fromSecs 3 + 1, 5, 60⟩⟩

/-- A poll on time. -/
def pollAt (now : Instant) (renew : Option (Except JobQueueError Unit)) : Poll :=
  { now := now, renewalTimer := true, deadlineTimer := true, renew := renew }

/-- A renewal that is sent at `t` and fails at once. -/
def failedRenewal (t : Instant) : List Poll :=
  [pollAt t none, pollAt t (some (.error .unavailable)), pollAt t none, pollAt t none]

/-- The handler never returns, and the database cannot be reached. -/
def unreachableRun : List Poll :=
  ((List.range 9).reverse.flatMap fun k => failedRenewal (1000000000 + k * 250000000)) ++
    [pollAt 0 none,
      { pollAt 0 none with claim := some (.ok (some ⟨7, "user.created", .null, .null, 1, 3⟩)) }]

theorem unreachableRun_possible : ((punctualRun briefWorker 0).run unreachableRun).isSome := by
  decide

theorem renewal_retries_nine :
    ∃ s, (punctualRun briefWorker 0).run unreachableRun = some s ∧
      (retryStarts s.log).length = 9 ∧
      (retryStarts s.log).Pairwise (fun later earlier => earlier + 250000000 ≤ later) ∧
      ∀ p s', (punctualRun briefWorker 0).step s p = some s' → p.now ≤ 3000000001 := by
  refine ⟨_, (Option.some_get unreachableRun_possible).symm, by decide, ?_, ?_⟩
  · exact ((renewal_retries_end_with_the_lease (by decide) 0).1 _
      (Machine.reachable_get unreachableRun_possible)).2.1
  · intro p s' hstep
    exact (((renewal_retries_end_with_the_lease (by decide) 0).1 _
      (Machine.reachable_get unreachableRun_possible)).2.2.2 p s' rfl hstep).1

end BaseSkeleton.Job
