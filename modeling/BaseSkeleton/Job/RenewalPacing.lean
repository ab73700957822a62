import BaseSkeleton.Lib.Sorted
import BaseSkeleton.Job.WorkerProtocol

/-!
# The distance between two renewals

A renewal that fails is tried again, a quarter of an interval after its error. How often is read off
the log: `ownedSince` is the instant the lease is counted from, `retryStarts` are the renewals sent
since then.

* `Paced` / `Spaced` — the renewals keep their distance; `move_paced` is the step lemma.
* `length_retryStarts_le` — how many of them fit into a lease.
-/

namespace BaseSkeleton.Job

/-! ## Reading the log

A renewal that succeeds starts both anew: the lease counts from its start, and the retries count
from it. -/

/-- The start of the latest renewal that succeeded, or the start of the claim. -/
def ownedSince (claimedAt : Instant) : ActionLog → Instant
  | [] => claimedAt
  | (_, .renewAnswered (.ok ())) :: log => renewalStart log
  | _ :: log => ownedSince claimedAt log

/-- The renewals sent after that, the latest one first. -/
def retryStarts : ActionLog → List Instant
  | [] => []
  | (_, .renewAnswered (.ok ())) :: _ => []
  | (t, .renewSent) :: log => t :: retryStarts log
  | _ :: log => retryStarts log

variable {w : JobWorker} {claimedAt now t deadline : Instant} {log : ActionLog} {p : Poll}
  {phase phase' : Phase} {action : Option Action} {a : Action}

theorem ownedSince_cons (ha : a ≠ .renewAnswered (.ok ())) (claimedAt t : Instant)
    (log : ActionLog) : ownedSince claimedAt ((t, a) :: log) = ownedSince claimedAt log := by
  cases a with
  | renewAnswered answer =>
    cases answer with
    | ok u => exact absurd rfl ha
    | error e => rfl
  | _ => rfl

/-- The deadline is the end of the lease. -/
theorem ownedUntil_eq (lease : Duration) (claimedAt : Instant) (log : ActionLog) :
    ownedUntil lease claimedAt log = ownedSince claimedAt log + lease := by
  induction log with
  | nil => rfl
  | cons e log ih =>
    obtain ⟨t, a⟩ := e
    by_cases ha : a = .renewAnswered (.ok ())
    · rw [ha]
      rfl
    · rw [ownedUntil_cons ha, ownedSince_cons ha, ih]

/-- A renewal is sent, or succeeds. -/
def Action.isRenewal : Action → Bool
  | renewSent => true
  | renewAnswered (.ok ()) => true
  | _ => false

theorem ne_of_isRenewal (ha : a.isRenewal = false) : a ≠ .renewAnswered (.ok ()) := by
  intro h
  rw [h] at ha
  cases ha

theorem retryStarts_cons (ha : a.isRenewal = false) (t : Instant) (log : ActionLog) :
    retryStarts ((t, a) :: log) = retryStarts log := by
  cases a with
  | renewSent => cases ha
  | renewAnswered answer =>
    cases answer with
    | ok u => cases ha
    | error e => rfl
  | _ => rfl

theorem isRenewal_of_pollHandler {job : ClaimedJob} {handler result : Option HandlerResult}
    (hpoll : w.pollHandler job handler = (a, result)) : a.isRenewal = false := by
  have hkind := isHandlerPoll_of_pollHandler hpoll
  cases a with
  | handlerPending => rfl
  | handlerReturned result => rfl
  | handlerMissing => rfl
  | _ => cases hkind

/-! ## The distance between two renewals

`Due` is what holds of the next renewal when its timer fires. `Spaced` is what holds of those that
were sent. -/

/-- A renewal that is sent at `t` or later keeps its distance from the ones before. -/
structure Due (w : JobWorker) (claimedAt : Instant) (log : ActionLog) (t : Instant) : Prop where
  first : ownedSince claimedAt log + w.config.interval ≤ t
  next : ∀ earlier ∈ retryStarts log, earlier + w.config.retryInterval ≤ t

/-- What the phase knows of the next renewal. -/
def Paced (w : JobWorker) (claimedAt : Instant) (log : ActionLog) (now : Instant) : Phase → Prop
  | .looping _ _ nextRenewal => Due w claimedAt log nextRenewal
  | .selecting _ _ nextRenewal => Due w claimedAt log nextRenewal
  | .renewalDue _ _ => Due w claimedAt log now
  | .renewing _ _ renewalStarted _ =>
    ownedSince claimedAt log + w.config.interval ≤ renewalStarted ∧ renewalStarted ≤ now ∧
      ∀ earlier ∈ retryStarts log, earlier ≤ now
  | _ => True

/-- The renewals that were sent. -/
structure Spaced (w : JobWorker) (claimedAt : Instant) (log : ActionLog) : Prop where
  apart : (retryStarts log).Pairwise fun later earlier => earlier + w.config.retryInterval ≤ later
  within : ∀ t ∈ retryStarts log, ownedSince claimedAt log + w.config.interval ≤ t ∧
    t < ownedSince claimedAt log + w.config.leaseTimeout

theorem Due.mono (h : Due w claimedAt log now) (ht : now ≤ t) : Due w claimedAt log t where
  first := Nat.le_trans h.first ht
  next earlier hearlier := Nat.le_trans (h.next earlier hearlier) ht

theorem Due.cons (h : Due w claimedAt log t) (ha : a.isRenewal = false) (now : Instant) :
    Due w claimedAt ((now, a) :: log) t where
  first := by
    rw [ownedSince_cons (ne_of_isRenewal ha)]
    exact h.first
  next := by
    rw [retryStarts_cons ha]
    exact h.next

theorem Spaced.cons (h : Spaced w claimedAt log) (ha : a.isRenewal = false) (now : Instant) :
    Spaced w claimedAt ((now, a) :: log) where
  apart := by
    rw [retryStarts_cons ha]
    exact h.apart
  within := by
    rw [retryStarts_cons ha, ownedSince_cons (ne_of_isRenewal ha)]
    exact h.within

/-- A renewal is sent when it is due, before the deadline. -/
theorem Spaced.renewSent (h : Spaced w claimedAt log) (hdue : Due w claimedAt log now)
    (hnow : now < ownedSince claimedAt log + w.config.leaseTimeout) :
    Spaced w claimedAt ((now, .renewSent) :: log) where
  apart := List.pairwise_cons.mpr ⟨hdue.next, h.apart⟩
  within := List.forall_mem_cons.mpr ⟨⟨hdue.first, hnow⟩, h.within⟩

/-- After a success nothing has been retried. -/
theorem spaced_renewed : Spaced w claimedAt ((now, .renewAnswered (.ok ())) :: log) where
  apart := List.Pairwise.nil
  within := fun _ h => (nomatch h)

/-! ## One step

Only a renewal that is sent adds to the retries, and only one that has succeeded moves the start of
the lease. -/

theorem Owning.deadline_since {job : ClaimedJob} (h : Owning w claimedAt log job deadline) :
    deadline = ownedSince claimedAt log + w.config.leaseTimeout :=
  h.deadline_eq.trans (ownedUntil_eq _ _ _)

/-- The loop goes on with the next renewal, or is left. -/
theorem paced_resume {job : ClaimedJob} {nextRenewal : Instant} (finished : Option HandlerResult)
    (h : Due w claimedAt log nextRenewal) :
    Paced w claimedAt log now (JobWorker.resume job deadline nextRenewal finished) := by
  cases finished with
  | none => exact h
  | some result => trivial

/-- **The step lemma.** -/
theorem move_paced (h : w.Move claimedAt p phase action phase') (hnow : now ≤ p.now)
    (hs : Suspended w claimedAt log phase) (hpaced : Paced w claimedAt log now phase)
    (hspaced : Spaced w claimedAt log) :
    Paced w claimedAt ((action.map fun a => (p.now, a)).toList ++ log) p.now phase' ∧
      Spaced w claimedAt ((action.map fun a => (p.now, a)).toList ++ log) := by
  cases h with
  | claimPending _ => exact ⟨trivial, hspaced⟩
  | claimFailed e _ => exact ⟨trivial, hspaced⟩
  | idle _ => exact ⟨trivial, hspaced⟩
  | claimed job _ =>
    obtain rfl : log = [] := hs
    exact ⟨⟨Nat.le_refl _, nofun⟩, ⟨.nil, nofun⟩⟩
  | select job deadline nextRenewal _ => exact ⟨hpaced, hspaced⟩
  | renewalDue job deadline nextRenewal htimer => exact ⟨Due.mono hpaced htimer.2, hspaced⟩
  | handled job deadline nextRenewal action result hpoll =>
    have ha := isRenewal_of_pollHandler hpoll
    exact ⟨trivial, hspaced.cons ha p.now⟩
  | handlerPending job deadline nextRenewal action hpoll =>
    have ha := isRenewal_of_pollHandler hpoll
    exact ⟨Due.cons hpaced ha p.now, hspaced.cons ha p.now⟩
  | handlerTimedOut job deadline nextRenewal action hpoll _ =>
    have ha := isRenewal_of_pollHandler hpoll
    exact ⟨trivial, hspaced.cons ha p.now⟩
  -- sent before the deadline, which is the end of the lease that is counted from
  | sendRenew job deadline hbefore =>
    rw [hs.1.deadline_since] at hbefore
    have hdue : Due w claimedAt log p.now := Due.mono hpaced hnow
    refine ⟨⟨hdue.first, Nat.le_refl _, ?_⟩, hspaced.renewSent hdue hbefore⟩
    show ∀ earlier ∈ p.now :: retryStarts log, earlier ≤ p.now
    exact List.forall_mem_cons.mpr ⟨Nat.le_refl _, fun earlier hearlier =>
      Nat.le_trans (Nat.le_add_right _ _) (hdue.next earlier hearlier)⟩
  | renewAnswered job deadline renewalStarted finished answer _ =>
    obtain ⟨hfirst, hstarted, hearlier⟩ := hpaced
    match answer with
    | .ok () =>
      -- the next one counts from the start of this one
      refine ⟨paced_resume finished ⟨?_, nofun⟩, spaced_renewed⟩
      show renewalStart log + w.config.interval ≤ renewalStarted + w.config.interval
      rw [hs.2.1]
    | .error .leaseLost => exact ⟨trivial, hspaced.cons rfl p.now⟩
    -- the retry waits from the error on, so it is even later than its distance asks for
    | .error .unavailable =>
      refine ⟨paced_resume finished (Due.cons ⟨?_, ?_⟩ rfl p.now), hspaced.cons rfl p.now⟩
      · show ownedSince claimedAt log + w.config.interval ≤ p.now + w.config.retryInterval
        lia
      · intro earlier hmem
        have hle := hearlier earlier hmem
        show earlier + w.config.retryInterval ≤ p.now + w.config.retryInterval
        lia
  | renewTimedOut job deadline renewalStarted finished _ _ =>
    exact ⟨trivial, hspaced.cons rfl p.now⟩
  | renewPending job deadline renewalStarted result _ =>
    obtain ⟨hfirst, hstarted, hearlier⟩ := hpaced
    exact ⟨⟨hfirst, Nat.le_trans hstarted hnow, fun earlier hmem =>
      Nat.le_trans (hearlier earlier hmem) hnow⟩, hspaced⟩
  | renewPendingHandled job deadline renewalStarted action result _ hpoll =>
    obtain ⟨hfirst, hstarted, hearlier⟩ := hpaced
    have ha := isRenewal_of_pollHandler hpoll
    refine ⟨⟨?_, Nat.le_trans hstarted hnow, ?_⟩, hspaced.cons ha p.now⟩
    · show ownedSince claimedAt ((p.now, action) :: log) + w.config.interval ≤ renewalStarted
      rw [ownedSince_cons (ne_of_isRenewal ha)]
      exact hfirst
    · show ∀ earlier ∈ retryStarts ((p.now, action) :: log), earlier ≤ p.now
      rw [retryStarts_cons ha]
      exact fun earlier hmem => Nat.le_trans (hearlier earlier hmem) hnow
  | sendComplete job deadline _ => exact ⟨trivial, hspaced.cons rfl p.now⟩
  | sendFail job error deadline _ => exact ⟨trivial, hspaced.cons rfl p.now⟩
  | completeAnswered job deadline answer _ =>
    exact ⟨trivial, hspaced.cons rfl p.now⟩
  | completePending job deadline _ => exact ⟨trivial, hspaced⟩
  | failAnswered job message delay deadline answer _ =>
    exact ⟨trivial, hspaced.cons rfl p.now⟩
  | failPending job message delay deadline _ => exact ⟨trivial, hspaced⟩
  | expired phase deadline _ _ => exact ⟨trivial, hspaced⟩

/-- **The run lemma.** The renewals of every run keep their distance, whatever its timers do. -/
theorem reachable_paced {start : Instant} {s : RunOnce} (h : (w.runOnce start).Reachable s) :
    Paced w start s.log s.now s.phase ∧ Spaced w start s.log := by
  refine Machine.Reachable.invariant (P := fun s : RunOnce =>
    Paced w start s.log s.now s.phase ∧ Spaced w start s.log) ?_ ?_ h
  · exact ⟨trivial, ⟨.nil, nofun⟩⟩
  · intro s p s' hreach ih hstep
    obtain ⟨hclaimedAt, hsuspended, _⟩ := reachable_lawful hreach
    obtain ⟨hnow, action, hmove, _, hnow', hlog⟩ := JobWorker.poll_move hstep
    rw [hlog, hnow']
    rw [hclaimedAt] at hmove
    exact move_paced hmove hnow hsuspended ih.1 ih.2

/-! ## How many renewals fit into a lease

The retries lie between the first one and the end of the lease, a quarter of an interval apart. -/

/-- **At most nine**: the first one is sent after an interval, and the others a quarter of an
interval apart. Rounding makes room for the ninth. -/
theorem length_retryStarts_le (hlease : Duration.fromSecs 1 ≤ w.config.leaseTimeout)
    (h : Spaced w claimedAt log) : (retryStarts log).length ≤ 9 := by
  have hinterval : w.config.interval = max (w.config.leaseTimeout / 3) 1 := rfl
  have hretry : w.config.retryInterval = max (w.config.interval / 4) 1 := rfl
  have hsecond : Duration.fromSecs 1 = 1000000000 := rfl
  have hapart := h.apart
  have hwithin := h.within
  generalize retryStarts log = starts at hapart hwithin ⊢
  cases starts with
  | nil => exact Nat.zero_le 9
  | cons last rest =>
    have hfar := List.add_length_mul_le hapart fun t ht => (hwithin t ht).1
    have hlast := (hwithin last List.mem_cons_self).2
    rw [List.length_cons]
    by_contra hmany
    have hnine : 9 * w.config.retryInterval ≤ rest.length * w.config.retryInterval :=
      Nat.mul_le_mul_right _ (by lia)
    lia

theorem retryStarts_apart (h : Spaced w claimedAt log) :
    (retryStarts log).Pairwise fun later earlier =>
      earlier + w.config.leaseTimeout / 3 / 4 ≤ later := by
  have hinterval : w.config.interval = max (w.config.leaseTimeout / 3) 1 := rfl
  have hretry : w.config.retryInterval = max (w.config.interval / 4) 1 := rfl
  refine h.apart.imp fun {later earlier} hle => ?_
  lia

end BaseSkeleton.Job
