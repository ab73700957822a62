import BaseSkeleton.Job.World
import BaseSkeleton.Job.WorkerProtocol

/-!
# Backoff

A failed attempt waits before the job is claimed again: `run_once` computes how long, and the row
keeps it. Nothing but a claim touches a row that is `pending`, and a claim waits for `available_at`.

* `retryDelay_exact` — what `retry_delay` computes.
* `failing_delay` — the delay a run asks for is the one of the attempt it names.
* `reachable_rests` — a row that was scheduled rests until a claim that comes late enough.
* `backoff_honoured` — the three together.
-/

namespace BaseSkeleton.Job

/-! ## The delay

The shift is by at most 31 bits, so that it stays inside a `u32`; the product saturates at the
largest `Duration`, which is not seen behind the cap by `maximum`. -/

variable {base maximum : Duration} {k k' : Nat}

/-- `1_u32 << exponent` does not overflow. -/
theorem shift_exponent (k : Nat) :
    ((1#32) <<< min (k - 1) 31).toNat = 2 ^ min (k - 1) 31 := by
  have hle : min (k - 1) 31 ≤ 31 := Nat.min_le_right _ _
  have hpow : 2 ^ min (k - 1) 31 ≤ 2 ^ 31 := Nat.pow_le_pow_right (by decide) hle
  rw [BitVec.toNat_shiftLeft, Nat.shiftLeft_eq]
  show (1 * 2 ^ min (k - 1) 31) % 2 ^ 32 = _
  rw [Nat.one_mul, Nat.mod_eq_of_lt (by omega)]

/-- The saturation of the multiplication is not visible behind the cap. -/
theorem retryDelay_exact (hmax : maximum ≤ Duration.greatest) :
    retryDelay base maximum k = min (base * 2 ^ min (k - 1) 31) maximum := by
  unfold retryDelay Duration.saturatingMul
  rw [Nat.min_assoc, Nat.min_eq_right hmax]

/-- Later attempts wait at least as long. -/
theorem retryDelay_mono (h : k ≤ k') :
    retryDelay base maximum k ≤ retryDelay base maximum k' := by
  have hexponent : min (k - 1) 31 ≤ min (k' - 1) 31 := by omega
  have hpow : 2 ^ min (k - 1) 31 ≤ 2 ^ min (k' - 1) 31 :=
    Nat.pow_le_pow_right (by decide) hexponent
  have hproduct : base * 2 ^ min (k - 1) 31 ≤ base * 2 ^ min (k' - 1) 31 :=
    Nat.mul_le_mul_left base hpow
  unfold retryDelay Duration.saturatingMul
  lia

/-- No delay is above the maximum. -/
theorem retryDelay_le : retryDelay base maximum k ≤ maximum :=
  Nat.min_le_right _ _

/-- No delay is below the base. -/
theorem le_retryDelay (hmax : maximum ≤ Duration.greatest) (hle : base ≤ maximum) :
    base ≤ retryDelay base maximum k := by
  have hproduct : base ≤ base * 2 ^ min (k - 1) 31 :=
    Nat.le_mul_of_pos_right base (Nat.two_pow_pos _)
  rw [retryDelay_exact hmax]
  exact Nat.le_min.mpr ⟨hproduct, hle⟩

/-! ## The run

The exponent of the delay is the attempt of the claimed job, the same one that the statement names.
-/

variable {w : JobWorker} {start : Instant} {s : RunOnce}

/-- The delay a run asks for. -/
theorem failing_delay (h : (w.runOnce start).Reachable s) {job : ClaimedJob} {message : String}
    {delay : Duration} {deadline : Instant}
    (hphase : s.phase = .failing job message delay deadline) :
    delay = retryDelay w.config.retryBase w.config.retryMax job.attempts := by
  revert job message delay deadline
  refine Machine.Reachable.invariant (P := fun s => ∀ {job message delay deadline},
    s.phase = .failing job message delay deadline →
      delay = retryDelay w.config.retryBase w.config.retryMax job.attempts) ?_ ?_ h
  · intro job message delay deadline hphase
    cases hphase
  · intro s p s' _ ih hstep job message delay deadline hphase
    obtain ⟨_, action, hmove, _⟩ := JobWorker.poll_move hstep
    rw [hphase] at hmove
    generalize hbefore : s.phase = phase at hmove
    generalize hafter : Phase.failing job message delay deadline = phase' at hmove
    cases hmove with
    | sendFail job error deadline _ =>
      cases hafter
      rfl
    | failPending job message delay deadline _ =>
      cases hafter
      exact ih hbefore
    | renewAnswered job deadline renewalStarted finished answer _ =>
      match answer, finished with
      | .ok (), none => cases hafter
      | .ok (), some result => cases hafter
      | .error .leaseLost, _ => cases hafter
      | .error .unavailable, none => cases hafter
      | .error .unavailable, some result => cases hafter
    | _ => cases hafter

/-- The delay of the statement a run waits for is the one of the attempt it names. -/
theorem fail_statement_delay (h : (w.runOnce start).Reachable s) {id : Uuid} {workerId : String}
    {k : Nat} {message : String} {delay : Duration}
    (hstatement : s.phase.statement w = some (.fail id workerId k message delay)) :
    delay = retryDelay w.config.retryBase w.config.retryMax k := by
  generalize hphase : s.phase = phase at hstatement
  cases phase with
  | failing job message' delay' deadline =>
    cases hstatement
    exact failing_delay h hphase
  | _ => cases hstatement

/-! ## The row

`available_at` is written by the statement and read by the claim, and in between the row is
`pending`. Entries are in order of time here: the clock of PostgreSQL does not go back. -/

/-- The clock of the database does not run backwards. -/
def InOrder (db : Db) (q : Request) : Prop :=
  ∀ e ∈ db.log, e.now ≤ q.now

instance (db : Db) (q : Request) : Decidable (InOrder db q) :=
  inferInstanceAs (Decidable (∀ e ∈ db.log, e.now ≤ q.now))

/-- A failed attempt that is to be retried leaves its row resting for the delay. -/
theorem fail_scheduled {skip : List Uuid} {now : Instant} {T T' : JobTable} {rows : List JobRow}
    {id : Uuid} {workerId message : String} {k : Nat} {delay : Duration}
    (hexec : (Statement.fail id workerId k message delay).exec skip now T = .ok (T', rows))
    (hread : PostgresJobQueue.readFail rows = .ok .retryScheduled) :
    ∃ r, T.find id = some r ∧ r.attempts = k ∧ r.failed now message delay ∈ rows ∧
      T'.find id = some (r.failed now message delay) ∧
      (r.failed now message delay).status = .pending ∧
      (r.failed now message delay).availableAt = now + delay := by
  cases rows with
  | nil => cases hread
  | cons row rows =>
    have hch := exec_head hexec
    generalize hbefore : T.find row.id = before at hch
    generalize hafter : T'.find row.id = after at hch
    cases hch with
    | fail _ _ _ _ _ r howned =>
      obtain ⟨hid, _, _, hattempts⟩ := JobRow.ownedBy_iff.mp howned
      have hstatus : r.releasedStatus = .pending := by
        cases hreleased : r.releasedStatus with
        | pending => rfl
        | _ => simp [PostgresJobQueue.readFail, JobRow.failed, hreleased] at hread
      have hbudget : ¬ r.attempts ≥ r.maxAttempts := by
        intro hexhausted
        rw [JobRow.releasedStatus, if_pos hexhausted] at hstatus
        cases hstatus
      have hkey : (r.failed now message delay).id = id := hid
      rw [hkey] at hbefore hafter
      exact ⟨r, hbefore, hattempts, List.mem_cons_self, hafter, hstatus, if_neg hbudget⟩

/-- **The run lemma.** After a failed attempt that is to be retried, nothing touches the row
before the delay has passed. -/
theorem reachable_rests {db : Db} (h : (queue.restrict InOrder).Reachable db)
    {newer older : List Entry} {e : Entry} (hlog : db.log = newer ++ e :: older) {id : Uuid}
    {workerId message : String} {k : Nat} {delay : Duration}
    (hfail : e.statement = .fail id workerId k message delay)
    (hread : PostgresJobQueue.readFail e.rows = .ok .retryScheduled) :
    (∀ later ∈ newer, (later.rowOf id).isSome → e.now + delay ≤ later.now) ∧
      ((∃ r, db.table.find id = some r ∧ r.status = .pending ∧ r.availableAt = e.now + delay) ∨
        ∃ later ∈ newer, e.now + delay ≤ later.now) := by
  revert newer
  refine Machine.Reachable.restrict_invariant (P := fun db => ∀ {newer},
    db.log = newer ++ e :: older →
      (∀ later ∈ newer, (later.rowOf id).isSome → e.now + delay ≤ later.now) ∧
      ((∃ r, db.table.find id = some r ∧ r.status = .pending ∧ r.availableAt = e.now + delay) ∨
        ∃ later ∈ newer, e.now + delay ≤ later.now)) ?_ ?_ h
  · intro newer hlog
    cases newer <;> cases hlog
  · intro db q db' _ ih hinOrder hstep newer hlog
    rcases step_cases hstep with rfl | ⟨rows, hexec, hlog'⟩
    · exact ih hlog
    rw [hlog'] at hlog
    cases newer with
    | nil =>
      obtain ⟨rfl, rfl⟩ := List.cons.inj hlog
      -- the entry itself: the report has just been made
      rw [show q.statement = _ from hfail] at hexec
      obtain ⟨r, _, _, _, hafter, hstatus, havailable⟩ := fail_scheduled hexec hread
      exact ⟨fun later hlater => (nomatch hlater), Or.inl ⟨_, hafter, hstatus, havailable⟩⟩
    | cons later newer =>
      obtain ⟨rfl, holder⟩ := List.cons.inj hlog
      obtain ⟨hreports, hrests⟩ := ih holder
      -- either the delay had passed before, or the row still rests and this may be its claim
      suffices hnow : ((Entry.rowOf ⟨q.now, q.statement, rows⟩ id).isSome →
          e.now + delay ≤ q.now) ∧
          ((∃ r, db'.table.find id = some r ∧ r.status = .pending ∧
            r.availableAt = e.now + delay) ∨ e.now + delay ≤ q.now ∨
            ∃ later ∈ newer, e.now + delay ≤ later.now) by
        refine ⟨List.forall_mem_cons.mpr ⟨hnow.1, hreports⟩, ?_⟩
        rw [List.exists_mem_cons_iff]
        exact hnow.2
      rcases hrests with ⟨r, hr, hpending, havailable⟩ | ⟨woken, hwoken, hpassed⟩
      · -- a pending row is touched by a claim only, and not before it is due
        rcases exec_change hexec id with ⟨row, hrow, hch⟩ | ⟨hnone, hsame⟩
        · rw [hr] at hch
          obtain ⟨_, _, hclaimable⟩ := hch.of_pending hpending
          have hdue := (JobRow.claimable_iff.mp hclaimable).2.1
          rw [havailable] at hdue
          exact ⟨fun _ => hdue, Or.inr (Or.inl hdue)⟩
        · refine ⟨fun hreport => ?_, Or.inl ⟨r, hsame.trans hr, hpending, havailable⟩⟩
          rw [Entry.rowOf, hnone] at hreport
          cases hreport
      · have hin : woken ∈ db.log := by
          rw [holder]
          exact List.mem_append_left _ hwoken
        exact ⟨fun _ => Nat.le_trans hpassed (hinOrder woken hin),
          Or.inr (Or.inr ⟨woken, hwoken, hpassed⟩)⟩

/-! ## The theorem -/

/-- **Backoff is honoured.** `retry_delay` is the exact capped power of two, and no claim gives a
job out again before the delay of its failed attempt has passed. -/
theorem backoff_honoured (w : JobWorker) :
    (∀ base maximum : Duration, base ≤ maximum → maximum ≤ Duration.greatest →
      ∀ k, 1 ≤ k →
        ((1#32) <<< min (k - 1) 31).toNat = 2 ^ min (k - 1) 31 ∧
        retryDelay base maximum k = min (base * 2 ^ min (k - 1) 31) maximum ∧
        base ≤ retryDelay base maximum k ∧ retryDelay base maximum k ≤ maximum ∧
        ∀ k', k ≤ k' → retryDelay base maximum k ≤ retryDelay base maximum k') ∧
    ∀ (start : Instant) (s : RunOnce) (id : Uuid) (workerId message : String) (k : Nat)
      (delay : Duration), (w.runOnce start).Reachable s →
      s.phase.statement w = some (.fail id workerId k message delay) →
      ∀ (db : Db) (newer older : List Entry) (e : Entry),
        (queue.restrict InOrder).Reachable db → db.log = newer ++ e :: older →
        e.statement = .fail id workerId k message delay →
        PostgresJobQueue.readFail e.rows = .ok .retryScheduled →
        (∃ row ∈ e.rows, row.id = id ∧ row.attempts = k) ∧
        ∀ later ∈ newer, ∀ claimant, later.statement = .claim claimant →
          (later.rowOf id).isSome →
          e.now + retryDelay w.config.retryBase w.config.retryMax k ≤ later.now := by
  refine ⟨?_, ?_⟩
  · intro base maximum hle hmax k _
    exact ⟨shift_exponent k, retryDelay_exact hmax, le_retryDelay hmax hle, retryDelay_le,
      fun k' hk => retryDelay_mono hk⟩
  · intro start s id workerId message k delay hrun hstatement db newer older e hreach hlog hfail
      hread
    constructor
    · obtain ⟨db₀, skip, T', _, _, hexec⟩ := reachable_executed hreach.of_restrict hlog
      rw [hfail] at hexec
      obtain ⟨r, hbefore, hattempts, hmem, _⟩ := fail_scheduled hexec hread
      have hid : r.id = id := JobTable.id_of_find hbefore
      exact ⟨r.failed e.now message delay, hmem, hid, hattempts⟩
    · intro later hlater _ _ hreport
      rw [← fail_statement_delay hrun hstatement]
      exact (reachable_rests hreach hlog hfail hread).1 later hlater hreport

/-- A handler that fails its first attempt. -/
def boomRun : List Poll :=
  [{ now := 24 }, { now := 23, handler := some (.error ⟨"boom"⟩) }, { now := 22 },
    { now := 21, claim := some (.ok (some ⟨7, "user.created", .null, .null, 1, 2⟩)) }]

theorem backoff_honoured_retried :
    ∃ e later older, (((queue.restrict InOrder).run retriedRun).get (by decide)).log =
        [later] ++ e :: older ∧
      e.statement = .fail 7 "worker" 1 "boom" 5 ∧ later.statement = .claim "worker" ∧
      e.now + retryDelay 5 60 1 ≤ later.now := by
  refine ⟨_, _, _, rfl, rfl, rfl, ?_⟩
  have hrun : (userWorker.runOnce 20).Reachable (((userWorker.runOnce 20).run boomRun).get
      (by decide)) := Machine.reachable_get _
  have hqueue : (queue.restrict InOrder).Reachable
      (((queue.restrict InOrder).run retriedRun).get (by decide)) := Machine.reachable_get _
  obtain ⟨_, hclaims⟩ := (backoff_honoured userWorker).2 20 _ 7 "worker" "boom" 1 5 hrun rfl _
    [_] _ _ hqueue rfl rfl rfl
  exact hclaims _ List.mem_cons_self "worker" rfl rfl

end BaseSkeleton.Job
