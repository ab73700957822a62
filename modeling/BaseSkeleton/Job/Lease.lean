import BaseSkeleton.Job.Attempts

/-!
# What a deadline says about the row

A run believes it owns its job until a deadline it computes itself; PostgreSQL knows only
`locked_at`. `Holds` ties the two together: as long as the deadline has not passed, the row is
`running` under the worker and the attempt of the run, and `locked_at` plus one lease reaches at
least to the deadline, unless the run's own `complete` or `fail` has taken effect.

* `Holds.apply` — nobody ends a lease early: a reap waits for that very instant, and every other
  change of the row is fenced by the attempt.
* `holds_of_claimed` / `holds_of_renewed` — a claim and a renewal that took effect put the row
  behind the deadline the run will compute from them.
-/

namespace BaseSkeleton.Job

/-! ## The row a deadline stands for

`Standing` is about the row, and `Holds` adds when it must stand: while the deadline has not passed,
and the run has not given the attempt back itself. -/

/-- A `fail` of this attempt has taken effect: the job is up for others. -/
def Released (id : Uuid) (workerId : String) (attempt : Nat) (log : List Entry) : Prop :=
  ∃ e ∈ log, (e.rowOf id).isSome ∧
    ∃ error retryDelay, e.statement = .fail id workerId attempt error retryDelay

/-- What the database shows of an attempt that may still be executed: its row, with a lease that
reaches to `deadline`, or how the attempt was ended by its own worker. -/
inductive Standing (lease : Duration) (db : Db) (id : Uuid) (workerId : String) (attempt : Nat)
    (deadline : Instant) : Prop where
  | running (r : JobRow) (lockedAt : Instant) (hr : db.table.find id = some r)
      (hrun : r.status = .running) (hby : r.lockedBy = some workerId)
      (hattempts : r.attempts = attempt) (hat : r.lockedAt = some lockedAt)
      (hlease : deadline ≤ lockedAt + lease)
  | completed (hsettled : Settled id db) (hlatest : (claimedAttempts id db.log).length = attempt)
      (hcomplete : ∃ e ∈ db.log, e.statement = .complete id workerId attempt)
  | released (hfail : Released id workerId attempt db.log)

/-- Until `deadline` has passed, the database shows the attempt as one that stands. -/
def Holds (lease : Duration) (now : Instant) (db : Db) (id : Uuid) (workerId : String)
    (attempt : Nat) (deadline : Instant) : Prop :=
  deadline ≤ now + lease ∧ (deadline < now ∨ Standing lease db id workerId attempt deadline)

variable {lease : Duration} {now : Instant} {db : Db} {id : Uuid} {workerId : String}
  {attempt : Nat} {deadline : Instant}

/-- Time only makes the claim weaker. -/
theorem Holds.tick (h : Holds lease now db id workerId attempt deadline) (elapsed : Duration) :
    Holds lease (now + elapsed) db id workerId attempt deadline := by
  obtain ⟨hle, hpassed | hrow⟩ := h
  · exact ⟨by lia, Or.inl (by lia)⟩
  · exact ⟨by lia, Or.inr hrow⟩

/-- As long as an attempt stands and was not failed, it is the latest one. -/
theorem Standing.latest (h : Standing lease db id workerId attempt deadline)
    (hqueue : queue.Reachable db) (hd : DistinctIds db.log)
    (hreleased : ¬ Released id workerId attempt db.log) :
    (claimedAttempts id db.log).length = attempt := by
  cases h with
  | running r lockedAt hr hrun hby hattempts hat hlease =>
    have hlength := claimedAttempts_length hqueue hd hr
    omega
  | completed hsettled hlatest hcomplete => exact hlatest
  | released hfail => exact absurd hfail hreleased

/-- An attempt that was given back stays so. -/
theorem Released.cons (h : Released id workerId attempt db.log) (e : Entry) :
    Released id workerId attempt (e :: db.log) := by
  obtain ⟨entry, hentry, hfail⟩ := h
  exact ⟨entry, List.mem_cons_of_mem _ hentry, hfail⟩

/-- **Nobody else ends a lease early.** A statement that is no reap with a different lease keeps
`Holds`. -/
theorem Holds.apply {s : Statement} (skip : List Uuid)
    (h : Holds lease now db id workerId attempt deadline) (hqueue : queue.Reachable db)
    (hd : DistinctIds (db.apply ⟨now, s, skip⟩).log) (hreap : ∀ l, s = .reap l → l = lease) :
    Holds lease now (db.apply ⟨now, s, skip⟩) id workerId attempt deadline := by
  obtain ⟨hle, hpassed | hstanding⟩ := h
  · exact ⟨hle, Or.inl hpassed⟩
  refine ⟨hle, ?_⟩
  have hreach : queue.Reachable (db.apply ⟨now, s, skip⟩) := hqueue.next (i := ⟨now, s, skip⟩) rfl
  generalize hdb' : db.apply ⟨now, s, skip⟩ = db' at hd hreach
  rcases Db.apply_cases db ⟨now, s, skip⟩ with hsame | ⟨rows, hexec, hlog⟩
  · obtain rfl : db = db' := hsame.symm.trans hdb'
    exact Or.inr hstanding
  rw [hdb'] at hexec hlog
  cases hstanding with
  | released hfail => exact Or.inr (.released (hlog ▸ hfail.cons _))
  | completed hsettled hlatest hcomplete =>
    obtain ⟨hsettled', hclaims⟩ := settled_step hsettled hexec hlog hd
    obtain ⟨e, he, hstatement⟩ := hcomplete
    refine Or.inr (.completed hsettled' (hclaims ▸ hlatest) ⟨e, ?_, hstatement⟩)
    exact hlog ▸ List.mem_cons_of_mem _ he
  | running r lockedAt hr hrun hby hattempts hat hlease =>
    rcases exec_change hexec id with ⟨row, hrow, hch⟩ | ⟨_, hsame⟩
    · rw [hr] at hch
      -- the call of a worker that names the attempt of the row is a call of this attempt
      have hnames : ∀ {jobId owner k}, r.ownedBy jobId owner k = true →
          jobId = id ∧ owner = workerId ∧ k = attempt := by
        intro jobId owner k howned
        obtain ⟨hid, _, howner, hk⟩ := JobRow.ownedBy_iff.mp howned
        exact ⟨hid.symm.trans (JobTable.id_of_find hr),
          Option.some.inj (howner.symm.trans hby), by lia⟩
      generalize hafter : db'.table.find id = after at hch
      cases hch with
      | reap l _ hexpired =>
        -- the reaper waits until the lease of the row, and with it the deadline, has passed
        obtain ⟨_, lockedAt', hat', hold⟩ := JobRow.leaseExpired_iff.mp hexpired
        cases hat.symm.trans hat'
        have hl := hreap l rfl
        exact Or.inl (by lia)
      | claim claimant _ hclaimable =>
        have hpending := (JobRow.claimable_iff.mp hclaimable).1
        cases hrun.symm.trans hpending
      | renew jobId owner k _ howned =>
        exact Or.inr (.running (r.renewed now) now hafter hrun hby hattempts rfl hle)
      | complete jobId owner k _ howned =>
        obtain ⟨rfl, rfl, rfl⟩ := hnames howned
        have hlength := claimedAttempts_length hreach hd hafter
        refine Or.inr (.completed ⟨?_, ?_⟩ ?_ ⟨_, hlog ▸ List.mem_cons_self, rfl⟩)
        · exact inserted_of_find hreach hd hafter
        · exact Or.inl ⟨r.completed now, hafter, Or.inl rfl⟩
        · have hkept : r.attempts = _ := hlength.symm
          omega
      | fail jobId owner k error retryDelay _ howned =>
        obtain ⟨rfl, rfl, rfl⟩ := hnames howned
        refine Or.inr (.released ⟨_, hlog ▸ List.mem_cons_self, ?_, error, retryDelay, rfl⟩)
        exact Option.isSome_of_eq_some hrow
      | purge completedOlderThan deadOlderThan _ hpurgeable =>
        rcases JobRow.purgeable_iff.mp hpurgeable with ⟨hstatus, _⟩ | ⟨hstatus, _⟩ <;>
          cases hrun.symm.trans hstatus
    · exact Or.inr (.running r lockedAt (hsame.trans hr) hrun hby hattempts hat hlease)

/-- A renewal that is answered `Ok` puts the deadline one lease after its start. -/
theorem holds_of_renewed {skip : List Uuid} {renewalStarted : Instant}
    (hstarted : renewalStarted ≤ now)
    (h : PostgresJobQueue.answer PostgresJobQueue.readLease
      ((Statement.renew id workerId attempt).exec skip now db.table) = .ok ()) :
    Holds lease now (db.apply ⟨now, .renew id workerId attempt, skip⟩) id workerId attempt
      (renewalStarted + lease) := by
  refine ⟨by lia, Or.inr ?_⟩
  generalize hresult : (Statement.renew id workerId attempt).exec skip now db.table = result at h
  cases result with
  | error e => cases h
  | ok result =>
    obtain ⟨T', rows⟩ := result
    have htable : (db.apply ⟨now, .renew id workerId attempt, skip⟩).table = T' := by
      simp [Db.apply, hresult]
    -- `ensure_lease` acknowledges the renewal of exactly one row
    cases rows with
    | nil => cases h
    | cons row rows =>
      have hch := exec_head hresult
      generalize hbefore : db.table.find row.id = before at hch
      generalize hafter : T'.find row.id = after at hch
      cases hch with
      | renew _ _ _ r howned =>
        obtain ⟨hid, hrun, hby, hattempts⟩ := JobRow.ownedBy_iff.mp howned
        have hfind : (db.apply ⟨now, .renew id workerId attempt, skip⟩).table.find id =
            some (r.renewed now) := by
          rw [htable]
          exact hid ▸ hafter
        exact .running (r.renewed now) now hfind hrun hby hattempts rfl (by lia)

/-- The row of a job that a claim returns. -/
theorem claim_returned {skip : List Uuid} {job : ClaimedJob}
    (h : PostgresJobQueue.answer PostgresJobQueue.readClaim
      ((Statement.claim workerId).exec skip now db.table) = .ok (some job)) :
    ∃ (r : JobRow) (rows : List JobRow) (T' : JobTable), r.claimable now = true ∧
      (Statement.claim workerId).exec skip now db.table =
        .ok (T', r.claimed now workerId :: rows) ∧
      db.apply ⟨now, .claim workerId, skip⟩ =
        ⟨⟨now, .claim workerId, r.claimed now workerId :: rows⟩ :: db.log, T'⟩ ∧
      T'.find job.id = some (r.claimed now workerId) ∧ job.id = r.id ∧
      r.attempts + 1 = job.attempts ∧ r.maxAttempts = job.maxAttempts := by
  generalize hresult : (Statement.claim workerId).exec skip now db.table = result at h
  cases result with
  | error e => cases h
  | ok result =>
    obtain ⟨T', rows⟩ := result
    have happly : db.apply ⟨now, .claim workerId, skip⟩ =
        ⟨⟨now, .claim workerId, rows⟩ :: db.log, T'⟩ := by
      simp [Db.apply, hresult]
    cases rows with
    | nil => cases h
    | cons row rows =>
      -- the row is one of the new table, so the conversion to `ClaimedJob` is exact
      have hchecks : row.Checks :=
        T'.checked row (JobTable.mem_of_update hresult List.mem_cons_self)
      have hattempts := hchecks.attemptsNonnegative
      have hmax := hchecks.maxAttemptsPositive
      have hread : row.intoApplication.map some = .ok (some job) := h
      rw [intoApplication_ok hchecks] at hread
      cases hread
      have hch := exec_head hresult
      generalize hbefore : db.table.find row.id = before at hch
      generalize hafter : T'.find row.id = after at hch
      cases hch with
      | claim _ r hclaimable =>
        refine ⟨r, rows, T', hclaimable, rfl, happly, hafter, rfl, ?_, ?_⟩
        · exact (Int.toNat_of_nonneg hattempts).symm
        · exact (Int.toNat_of_nonneg hmax.le).symm

/-- A claim that returns a job starts a new attempt, and a deadline one lease after an instant
before it is backed by the row. -/
theorem holds_of_claimed (lease : Duration) {skip : List Uuid} {job : ClaimedJob}
    {claimedAt : Instant} (hclaimedAt : claimedAt ≤ now)
    (h : PostgresJobQueue.answer PostgresJobQueue.readClaim
      ((Statement.claim workerId).exec skip now db.table) = .ok (some job)) :
    Holds lease now (db.apply ⟨now, .claim workerId, skip⟩) job.id workerId job.attempts
        (claimedAt + lease) ∧
      claimedAttempts job.id (db.apply ⟨now, .claim workerId, skip⟩).log =
        job.attempts :: claimedAttempts job.id db.log := by
  obtain ⟨r, rows, T', _, _, happly, hafter, hid, hattempts, _⟩ := claim_returned h
  rw [happly]
  refine ⟨⟨by lia, Or.inr ?_⟩, ?_⟩
  · exact .running (r.claimed now workerId) now hafter rfl rfl hattempts rfl (by lia)
  · have hreport : Entry.rowOf ⟨now, .claim workerId, r.claimed now workerId :: rows⟩ job.id =
        some (r.claimed now workerId) := by
      rw [Entry.rowOf, Keyed.get_cons]
      exact if_pos hid.symm
    have hnumber : (r.claimed now workerId).attempts.toNat = job.attempts := by
      show (r.attempts + 1).toNat = job.attempts
      omega
    rw [claimedAttempts, hreport]
    simp only [hnumber]

end BaseSkeleton.Job
