import BaseSkeleton.Job.Run

/-!
# The row invariant

What every row of `background_jobs` satisfies in every run, beyond the schema: the status decides
how far the attempt budget is used and which of the lock and completion columns are set
(`JobRow.Sound`). The decisive part is `pending → attempts < max_attempts`, which no CHECK states
and without which a row could sit in `pending` and never be claimed.

From it the UPDATEs of `claim`, `complete`, `renew` and `fail` never run into a constraint
(`update_checks`), and the adapter's defensive branches are dead code.
-/

namespace BaseSkeleton.Job

/-- The shape of a row in each status. -/
structure JobRow.Sound (r : JobRow) : Prop where
  status_valid : r.status = .pending ∨ r.status = .running ∨ r.status = .completed ∨ r.status = .dead
  pending : r.status = .pending → 0 ≤ r.attempts ∧ r.attempts < r.maxAttempts
  running : r.status = .running →
    1 ≤ r.attempts ∧ r.attempts ≤ r.maxAttempts ∧ r.lockedAt.isSome ∧ r.lockedBy.isSome
  completed : r.status = .completed → 1 ≤ r.attempts ∧ r.completedAt.isSome
  dead : r.status = .dead → r.attempts = r.maxAttempts
  unlocked : r.status ≠ .running → r.lockedAt = none ∧ r.lockedBy = none
  uncompleted : r.status ≠ .completed → r.completedAt = none

variable {now : Instant} {r : JobRow}

theorem JobRow.Checks.locked (h : r.Checks) (hrun : r.status = .running) :
    r.lockedAt.isSome ∧ r.lockedBy.isSome := by
  have := h.lockConsistent
  simp_all

theorem JobRow.Checks.not_completed (h : r.Checks) (hne : r.status ≠ .completed) :
    r.completedAt = none := by
  have := h.completionConsistent
  simp_all

/-! ## `SET` lists keep the constraints

One lemma for each `SET` list. The reap and the failure share theirs, since both release a running
row. -/

/-- `reaped` and `failed` release a running row the same way: the status follows the budget, the
lock is cleared, the counters and the completion time stay. -/
theorem released_checks {r' : JobRow} (hc : r.Checks) (hrun : r.status = .running)
    (htype : r'.jobType = r.jobType) (hattempts : r'.attempts = r.attempts)
    (hmax : r'.maxAttempts = r.maxAttempts) (hstatus : r'.status = r.releasedStatus)
    (hat : r'.lockedAt = none) (hby : r'.lockedBy = none) (hdone : r'.completedAt = r.completedAt) :
    r'.Checks := by
  have hcompleted := hc.not_completed (by simp [hrun])
  have hne : r'.status ≠ .running ∧ r'.status ≠ .completed := by
    rw [hstatus, JobRow.releasedStatus]
    split <;> simp
  constructor
  · rw [htype]
    exact hc.typeValid
  · rw [hattempts]
    exact hc.attemptsNonnegative
  · rw [hmax]
    exact hc.maxAttemptsPositive
  · rw [hattempts, hmax]
    exact hc.attemptsBounded
  · exact Or.inr ⟨hne.1, hat, hby⟩
  · exact Or.inr ⟨hne.2, by rw [hdone, hcompleted]⟩
  · rw [hattempts, hmax]
    exact hc.integerColumns

theorem reaped_checks (hc : r.Checks) (hrun : r.status = .running) : (r.reaped now).Checks :=
  released_checks hc hrun rfl rfl rfl rfl rfl rfl rfl

theorem failed_checks (error : String) (retryDelay : Duration) (hc : r.Checks)
    (hrun : r.status = .running) : (r.failed now error retryDelay).Checks :=
  released_checks hc hrun rfl rfl rfl rfl rfl rfl rfl

/-- The budget test in the claim's WHERE keeps `attempts + 1` within `max_attempts`, and so
within the INTEGER range. -/
theorem claimed_checks (workerId : String) (hc : r.Checks) (hclaim : r.claimable now = true) :
    (r.claimed now workerId).Checks := by
  obtain ⟨hpending, _, hbudget⟩ := JobRow.claimable_iff.mp hclaim
  have hcompleted := hc.not_completed (by simp [hpending])
  have hn := hc.attemptsNonnegative
  have hi := hc.integerColumns.2
  refine ⟨hc.typeValid, ?_, hc.maxAttemptsPositive, ?_, ?_, ?_, ?_⟩
  · change 0 ≤ r.attempts + 1
    omega
  · change r.attempts + 1 ≤ r.maxAttempts
    omega
  · simp [JobRow.claimed]
  · simp [JobRow.claimed, hcompleted]
  · change r.attempts + 1 ≤ integerMax ∧ r.maxAttempts ≤ integerMax
    omega

theorem completed_checks (hc : r.Checks) : (r.completed now).Checks := by
  refine ⟨hc.typeValid, hc.attemptsNonnegative, hc.maxAttemptsPositive, hc.attemptsBounded,
    ?_, ?_, hc.integerColumns⟩
  · simp [JobRow.completed]
  · simp [JobRow.completed]

theorem renewed_checks (hc : r.Checks) (hrun : r.status = .running) : (r.renewed now).Checks := by
  refine ⟨hc.typeValid, hc.attemptsNonnegative, hc.maxAttemptsPositive, hc.attemptsBounded,
    ?_, ?_, hc.integerColumns⟩
  · exact Or.inl ⟨hrun, rfl, (hc.locked hrun).2⟩
  · exact Or.inr ⟨by simp [JobRow.renewed, hrun], hc.not_completed (by simp [hrun])⟩

theorem fenced_checks (c : Fenced) (hc : r.Checks) (hrun : r.status = .running) :
    (c.set now r).Checks := by
  cases c with
  | complete => exact completed_checks hc
  | renew => exact renewed_checks hc hrun
  | fail error retryDelay => exact failed_checks error retryDelay hc hrun

/-! ## No UPDATE runs into a constraint

So the UPDATEs of `claim`, `complete`, `renew` and `fail` always have a result table. -/

section Succeeds

variable (T : JobTable) (skip : List Uuid) (now : Instant)

theorem reap_succeeds (lease : Duration) :
    ∃ T' rows, (Statement.reap lease).exec skip now T = .ok (T', rows) := by
  have hchecks : ∀ r ∈ T.rows, decide (r.id ∈ (T.expired skip now lease).map JobRow.id) = true →
      (r.reaped now).Checks := by
    intro r hr hsel
    have hexpired := T.leaseExpired_of_mem_expired hr (of_decide_eq_true hsel)
    exact reaped_checks (T.checked r hr) (JobRow.leaseExpired_iff.mp hexpired).1
  obtain ⟨T', hup⟩ := T.update_succeeds (JobRow.reaped_id now) hchecks
  exact ⟨T', _, hup⟩

theorem claim_succeeds (workerId : String) :
    ∃ T' rows, (Statement.claim workerId).exec skip now T = .ok (T', rows) := by
  have hchecks : ∀ r ∈ T.rows, decide ((T.candidate skip now).map JobRow.id = some r.id) = true →
      (r.claimed now workerId).Checks := by
    intro r hr hsel
    have hclaimable := T.claimable_of_candidate hr (of_decide_eq_true hsel)
    exact claimed_checks workerId (T.checked r hr) hclaimable
  obtain ⟨T', hup⟩ := T.update_succeeds (fun r => JobRow.claimed_id now r workerId) hchecks
  exact ⟨T', _, hup⟩

theorem fenced_succeeds (c : Fenced) (jobId : Uuid) (workerId : String) (attempt : Nat) :
    ∃ T', (c.statement jobId workerId attempt).exec skip now T =
      .ok (T', (T.rows.filter (JobRow.ownedBy jobId workerId attempt)).map (c.set now)) := by
  rw [exec_fenced]
  exact T.update_succeeds c.set_id fun r hr hsel =>
    fenced_checks c (T.checked r hr) (JobRow.ownedBy_iff.mp hsel).2.1

end Succeeds

/-! ## The invariant

A change is one row before and after a statement (`Change`), so the invariant is kept row by row. -/

theorem released_sound {r' : JobRow} (hc : r.Checks) (hs : r.Sound) (hrun : r.status = .running)
    (hattempts : r'.attempts = r.attempts) (hmax : r'.maxAttempts = r.maxAttempts)
    (hstatus : r'.status = r.releasedStatus) (hat : r'.lockedAt = none) (hby : r'.lockedBy = none)
    (hdone : r'.completedAt = r.completedAt) : r'.Sound := by
  have hrunning := hs.running hrun
  have hcompleted := hc.not_completed (by simp [hrun])
  rw [JobRow.releasedStatus] at hstatus
  by_cases hbudget : r.attempts ≥ r.maxAttempts
  · rw [if_pos hbudget] at hstatus
    refine ⟨by simp [hstatus], by simp [hstatus], by simp [hstatus], by simp [hstatus], ?_, ?_, ?_⟩
    · intro _
      omega
    · exact fun _ => ⟨hat, hby⟩
    · exact fun _ => by rw [hdone, hcompleted]
  · rw [if_neg hbudget] at hstatus
    refine ⟨by simp [hstatus], ?_, by simp [hstatus], by simp [hstatus], by simp [hstatus], ?_, ?_⟩
    · intro _
      omega
    · exact fun _ => ⟨hat, hby⟩
    · exact fun _ => by rw [hdone, hcompleted]

theorem inserted_sound {job : NewJob} {maxAttempts : Int}
    (hvalid : validateMaxAttempts job.maxAttempts = some maxAttempts) :
    (job.row maxAttempts now).Sound := by
  have hpos : 0 < maxAttempts := by
    unfold validateMaxAttempts at hvalid
    split at hvalid
    · cases hvalid
    · split at hvalid
      · cases hvalid
        omega
      · cases hvalid
  refine ⟨Or.inl rfl, fun _ => ⟨le_rfl, hpos⟩, ?_, ?_, ?_, fun _ => ⟨rfl, rfl⟩, fun _ => rfl⟩ <;>
    intro h <;> cases h

theorem change_sound {s : Statement} {before after : Option JobRow} {row : JobRow}
    (hbefore : ∀ r, before = some r → r.Checks ∧ r.Sound) (h : Change now s before row after) :
    ∀ r, after = some r → r.Sound := by
  cases h with
  | insert job began maxAttempts hvalid =>
    rintro r ⟨⟩
    exact inserted_sound hvalid
  | reap lease r hexpired =>
    rintro _ ⟨⟩
    obtain ⟨hc, hs⟩ := hbefore r rfl
    exact released_sound hc hs (JobRow.leaseExpired_iff.mp hexpired).1 rfl rfl rfl rfl rfl rfl
  | claim workerId r hclaimable =>
    rintro _ ⟨⟩
    obtain ⟨hc, hs⟩ := hbefore r rfl
    obtain ⟨hpending, _, hbudget⟩ := JobRow.claimable_iff.mp hclaimable
    -- `attempts < max_attempts` before, so at most `max_attempts` after
    have hn := (hs.pending hpending).1
    refine ⟨Or.inr (Or.inl rfl), ?_, fun _ => ?_, ?_, ?_, ?_, ?_⟩
    · intro h
      cases h
    · refine ⟨?_, ?_, rfl, rfl⟩
      · change 1 ≤ r.attempts + 1
        omega
      · change r.attempts + 1 ≤ r.maxAttempts
        omega
    · intro h
      cases h
    · intro h
      cases h
    · exact fun h => absurd rfl h
    · exact fun _ => hs.uncompleted (by simp [hpending])
  -- the row was running, so at least one attempt is counted
  | complete jobId workerId attempt r howned =>
    rintro _ ⟨⟩
    obtain ⟨hc, hs⟩ := hbefore r rfl
    have hrunning := hs.running (JobRow.ownedBy_iff.mp howned).2.1
    refine ⟨Or.inr (Or.inr (Or.inl rfl)), ?_, ?_, fun _ => ⟨hrunning.1, rfl⟩, ?_,
      fun _ => ⟨rfl, rfl⟩, fun h => absurd rfl h⟩ <;> intro h <;> cases h
  | renew jobId workerId attempt r howned =>
    rintro _ ⟨⟩
    obtain ⟨hc, hs⟩ := hbefore r rfl
    have hrun := (JobRow.ownedBy_iff.mp howned).2.1
    have hrunning := hs.running hrun
    exact ⟨hs.status_valid, hs.pending,
      fun _ => ⟨hrunning.1, hrunning.2.1, rfl, hrunning.2.2.2⟩, hs.completed, hs.dead,
      fun h => absurd hrun h, hs.uncompleted⟩
  | fail jobId workerId attempt error retryDelay r howned =>
    rintro _ ⟨⟩
    obtain ⟨hc, hs⟩ := hbefore r rfl
    exact released_sound hc hs (JobRow.ownedBy_iff.mp howned).2.1 rfl rfl rfl rfl rfl rfl
  | purge completedOlderThan deadOlderThan r hpurgeable =>
    rintro _ ⟨⟩

/-- **The row invariant.** -/
theorem reachable_sound {db : Db} (h : queue.Reachable db) : ∀ r ∈ db.table.rows, r.Sound :=
  reachable_row_invariant (fun _ _ _ _ _ hbefore hch => change_sound hbefore hch) h

/-! ## The adapter's defensive branches

`into_application` and `fail` check what they have read. With the constraints of the schema none of
the checks fails. -/

/-- `into_application` converts every row that satisfies the schema. -/
theorem intoApplication_ok (hc : r.Checks) :
    r.intoApplication =
      .ok
        { id := r.id
          jobType := r.jobType
          payload := r.payload
          traceContext := r.traceContext
          attempts := r.attempts.toNat
          maxAttempts := r.maxAttempts.toNat } := by
  have hattempts := hc.attemptsNonnegative
  have hmax := hc.maxAttemptsPositive.le
  simp [JobRow.intoApplication, u32TryFrom, hattempts, hmax]

/-- What `fail` returns once its UPDATE has run: never the `invalid status` error. -/
theorem readFail_failed {T : JobTable} {skip : List Uuid} {jobId : Uuid}
    {workerId error : String} {attempt : Nat} {retryDelay : Duration} {T' : JobTable}
    {rows : List JobRow}
    (h : (Statement.fail jobId workerId attempt error retryDelay).exec skip now T =
      .ok (T', rows)) :
    PostgresJobQueue.readFail rows ≠ .error .unavailable := by
  obtain ⟨_, rfl⟩ := JobTable.update_eq_ok.mp h
  cases T.rows.filter (JobRow.ownedBy jobId workerId attempt) with
  | nil => simp [PostgresJobQueue.readFail]
  | cons r _ =>
    have hstatus : (r.failed now error retryDelay).status = r.releasedStatus := rfl
    simp only [List.map_cons, PostgresJobQueue.readFail, hstatus, JobRow.releasedStatus]
    by_cases hbudget : r.attempts ≥ r.maxAttempts <;> simp [hbudget]

/-- **No stranded rows.** In every reachable state every row has the shape of its status, and a
due `pending` row is one the claim statement may pick. The statements of `claim`, `renew`,
`complete` and `fail` never run into a constraint, whatever their arguments, and the adapter reads
their answers without meeting a row it has no reading for. -/
theorem rows_sound_and_updates_total {db : Db} (h : queue.Reachable db) :
    (∀ r ∈ db.table.rows,
      r.Sound ∧ ∀ now, r.status = .pending → r.availableAt ≤ now → r.claimable now = true) ∧
    (∀ skip now lease, ∃ T' rows,
      (Statement.reap lease).exec skip now db.table = .ok (T', rows)) ∧
    (∀ skip now workerId, ∃ T' rows,
      (Statement.claim workerId).exec skip now db.table = .ok (T', rows) ∧
        ∀ row ∈ rows, ∃ job, row.intoApplication = .ok job) ∧
    (∀ skip now jobId workerId attempt, ∃ T' rows,
      (Statement.complete jobId workerId attempt).exec skip now db.table = .ok (T', rows)) ∧
    (∀ skip now jobId workerId attempt, ∃ T' rows,
      (Statement.renew jobId workerId attempt).exec skip now db.table = .ok (T', rows)) ∧
    (∀ skip now jobId workerId attempt error retryDelay, ∃ T' rows,
      (Statement.fail jobId workerId attempt error retryDelay).exec skip now db.table =
          .ok (T', rows) ∧
        PostgresJobQueue.readFail rows ≠ .error .unavailable) := by
  have hsound := reachable_sound h
  refine ⟨?_, ?_, ?_, ?_, ?_, ?_⟩
  · intro r hr
    refine ⟨hsound r hr, fun now hpending hdue => ?_⟩
    exact JobRow.claimable_iff.mpr ⟨hpending, hdue, ((hsound r hr).pending hpending).2⟩
  · intro skip now lease
    exact reap_succeeds db.table skip now lease
  · intro skip now workerId
    obtain ⟨T', rows, hexec⟩ := claim_succeeds db.table skip now workerId
    refine ⟨T', rows, hexec, fun row hrow => ?_⟩
    exact ⟨_, intoApplication_ok (T'.checked row (JobTable.mem_of_update hexec hrow))⟩
  · intro skip now jobId workerId attempt
    obtain ⟨T', hexec⟩ := fenced_succeeds db.table skip now .complete jobId workerId attempt
    exact ⟨T', _, hexec⟩
  · intro skip now jobId workerId attempt
    obtain ⟨T', hexec⟩ := fenced_succeeds db.table skip now .renew jobId workerId attempt
    exact ⟨T', _, hexec⟩
  · intro skip now jobId workerId attempt error retryDelay
    obtain ⟨T', hexec⟩ :=
      fenced_succeeds db.table skip now (.fail error retryDelay) jobId workerId attempt
    exact ⟨T', _, hexec, readFail_failed hexec⟩

theorem rows_sound_and_updates_total_retried :
    let db := (queue.run retriedRun).get rfl
    db.table.rows.length = 1 ∧ ∀ r ∈ db.table.rows, r.Sound := by
  refine ⟨by decide, fun r hr => ?_⟩
  exact ((rows_sound_and_updates_total (Machine.reachable_get rfl)).1 r hr).1

end BaseSkeleton.Job
