import BaseSkeleton.Job.History

/-!
# No job is lost or altered

A job whose insert went through stays in the table with the data it was enqueued with until a
purge deletes it, and a purge only deletes a job that had been over for longer than the retention.
The purge statement reads `completed_at` and `updated_at`; what makes them the instants the job
ended at is that nothing writes to a terminal row.

* `lastReport` — the latest statement that touched the row of a job; `last_report` says that it
  reported the row as it still is.
* `PurgedAfterRetention` — how a job leaves the table.
* `jobs_kept_until_retention` — the guarantee over every run.
-/

namespace BaseSkeleton.Job

/-- The latest entry that affected the row of `id`. -/
def lastReport (id : Uuid) (log : List Entry) : Option Entry :=
  log.find? fun e => (e.rowOf id).isSome

variable {db db' : Db} {id : Uuid} {r : JobRow}

/-- **The table is what the log last said.** -/
theorem last_report (h : queue.Reachable db) (hr : db.table.find id = some r) :
    ∃ f before, lastReport id db.log = some f ∧ f.rowOf id = some r ∧
      Change f.now f.statement before r (some r) := by
  revert r
  refine Machine.Reachable.invariant (P := fun db => ∀ {r}, db.table.find id = some r →
    ∃ f before, lastReport id db.log = some f ∧ f.rowOf id = some r ∧
      Change f.now f.statement before r (some r)) ?_ ?_ h
  · intro r hr
    cases hr
  · intro db q db' _ ih hstep r hr
    rcases step_cases hstep with rfl | ⟨rows, hexec, hlog⟩
    · exact ih hr
    · rw [hlog]
      rcases exec_change hexec id with ⟨row, hrow, hch⟩ | ⟨hnone, hsame⟩
      · have hreport : Entry.rowOf ⟨q.now, q.statement, rows⟩ id = some row := hrow
        have hlast : lastReport id (⟨q.now, q.statement, rows⟩ :: db.log) =
            some ⟨q.now, q.statement, rows⟩ := by
          simp [lastReport, hreport]
        rw [hr] at hch
        obtain rfl : row = r := hch.reports_after
        exact ⟨_, _, hlast, hreport, hch⟩
      · -- the statement was not about this row
        have hreport : Entry.rowOf ⟨q.now, q.statement, rows⟩ id = none := hnone
        rw [hsame] at hr
        obtain ⟨f, before, hlast, hfrow, hch⟩ := ih hr
        refine ⟨f, before, ?_, hfrow, hch⟩
        simpa [lastReport, List.find?_cons, hreport] using hlast

/-! ## When a job ended

A terminal row is written to by the statement that ended it and by nothing after it. -/

/-- A completed row carries the instant of the `complete` that wrote it. -/
theorem Change.completed {now : Instant} {s : Statement} {before : Option JobRow}
    (h : Change now s before r (some r)) (hstatus : r.status = .completed) :
    (∃ workerId attempt, s = .complete r.id workerId attempt) ∧ r.completedAt = some now := by
  generalize hafter : some r = after at h
  cases h with
  | complete jobId workerId attempt r₀ howned =>
    obtain rfl := (JobRow.ownedBy_iff.mp howned).1
    exact ⟨⟨workerId, attempt, rfl⟩, rfl⟩
  | insert job began maxAttempts hvalid => cases hstatus
  | claim workerId r₀ hclaimable => cases hstatus
  | reap lease r₀ hexpired =>
    have hreleased : r₀.releasedStatus = .completed := hstatus
    unfold JobRow.releasedStatus at hreleased
    split at hreleased <;> cases hreleased
  | fail jobId workerId attempt error retryDelay r₀ howned =>
    have hreleased : r₀.releasedStatus = .completed := hstatus
    unfold JobRow.releasedStatus at hreleased
    split at hreleased <;> cases hreleased
  | renew jobId workerId attempt r₀ howned =>
    have hrun := (JobRow.ownedBy_iff.mp howned).2.1
    cases hrun.symm.trans hstatus
  | purge completedOlderThan deadOlderThan _ hpurgeable => cases hafter

/-- A dead row carries the instant of the reap or fail that wrote it. -/
theorem Change.dead {now : Instant} {s : Statement} {before : Option JobRow}
    (h : Change now s before r (some r)) (hstatus : r.status = .dead) :
    s.GivesUp ∧ r.updatedAt = now := by
  generalize hafter : some r = after at h
  cases h with
  | reap lease r₀ hexpired => exact ⟨Or.inl ⟨lease, rfl⟩, rfl⟩
  | fail jobId workerId attempt error retryDelay r₀ howned =>
    exact ⟨Or.inr ⟨jobId, workerId, attempt, error, retryDelay, rfl⟩, rfl⟩
  | insert job began maxAttempts hvalid => cases hstatus
  | claim workerId r₀ hclaimable => cases hstatus
  | complete jobId workerId attempt r₀ howned => cases hstatus
  | renew jobId workerId attempt r₀ howned =>
    have hrun := (JobRow.ownedBy_iff.mp howned).2.1
    cases hrun.symm.trans hstatus
  | purge completedOlderThan deadOlderThan _ hpurgeable => cases hafter

/-- A purge deleted the row of `id`, and the statement that had touched the row last was the one
that completed or killed the job, longer ago than the retention of the purge. -/
def PurgedAfterRetention (id : Uuid) (log : List Entry) : Prop :=
  ∃ newer purge older completedOlderThan deadOlderThan last r,
    log = newer ++ purge :: older ∧
      purge.statement = .purge completedOlderThan deadOlderThan ∧ purge.rowOf id = some r ∧
      lastReport id older = some last ∧ last.rowOf id = some r ∧
      ((r.status = .completed ∧ (∃ workerId attempt,
            last.statement = .complete id workerId attempt) ∧
          last.now + completedOlderThan < purge.now) ∨
        (r.status = .dead ∧ last.statement.GivesUp ∧ last.now + deadOlderThan < purge.now))

/-- A purge that reported a row found it past its retention. -/
theorem purged_of_entry (h : queue.Reachable db) {newer older : List Entry} {e : Entry}
    {completedOlderThan deadOlderThan : Duration} {row : JobRow}
    (hlog : db.log = newer ++ e :: older)
    (hpurge : e.statement = .purge completedOlderThan deadOlderThan)
    (hrow : e.rowOf id = some row) : PurgedAfterRetention id db.log := by
  obtain ⟨db₀, skip, T', hreach, hlog₀, hexec⟩ := reachable_executed h hlog
  rcases exec_change hexec id with ⟨row', hrow', hch⟩ | ⟨hnone, _⟩
  · cases hrow.symm.trans hrow'
    have hid : row.id = id := Keyed.key_of_get hrow
    rw [hpurge] at hch
    generalize hbefore : db₀.table.find id = before at hch
    generalize T'.find id = after at hch
    cases hch with
    | purge _ _ _ hpurgeable =>
      -- the columns the purge compares were written by the last statement on this row
      obtain ⟨f, _, hlast, hfrow, hch⟩ := last_report hreach hbefore
      rw [hlog₀] at hlast
      refine ⟨newer, e, older, _, _, f, row, hlog, hpurge, hrow, hlast, hfrow, ?_⟩
      rcases JobRow.purgeable_iff.mp hpurgeable with ⟨hstatus, at_, hat, hold⟩ | ⟨hstatus, hold⟩
      · obtain ⟨hcomplete, hnow⟩ := hch.completed hstatus
        cases hat.symm.trans hnow
        rw [hid] at hcomplete
        exact Or.inl ⟨hstatus, hcomplete, Nat.add_lt_of_lt_sub hold⟩
      · obtain ⟨hgives, hnow⟩ := hch.dead hstatus
        rw [hnow] at hold
        exact Or.inr ⟨hstatus, hgives, Nat.add_lt_of_lt_sub hold⟩
  · cases hrow.symm.trans hnone

/-- An inserted job without a row was purged. -/
theorem purged_of_find_none (h : queue.Reachable db) (hd : DistinctIds db.log) {job : NewJob}
    (hjob : job ∈ insertedJobs db.log) (hnone : db.table.find job.id = none) :
    PurgedAfterRetention job.id db.log := by
  obtain ⟨it, hlife, htracks, _, _⟩ := reachable_item h hd hjob
  rw [hnone] at htracks
  cases htracks with
  | removed hremoved _ =>
    obtain ⟨now, keepDone, keepDead, older, hevents⟩ := hlife.removed hremoved
    obtain ⟨newer, e, rest, hlog, _, hevent, _⟩ := List.filterMap_eq_cons_iff.mp hevents
    obtain ⟨row, hrow, hremove⟩ := Option.map_eq_some_iff.mp hevent
    have hpurge : e.statement = .purge keepDone keepDead := by
      cases hs : e.statement <;> rw [hs] at hremove <;> cases hremove
      rfl
    exact purged_of_entry h hlog hpurge hrow

/-! ## The theorem -/

/-- **No job is lost or altered.** Every inserted job has its row, with the data it was enqueued
with, or was purged after its retention. A terminal row is touched by nothing but such a purge,
and a `pending` or `running` row is deleted by nothing. -/
theorem jobs_kept_until_retention (h : queue.Reachable db) (hd : DistinctIds db.log) :
    (∀ job ∈ insertedJobs db.log,
      (∃ r, db.table.find job.id = some r ∧ r.jobType = job.jobType ∧ r.payload = job.payload ∧
        r.traceContext = job.traceContext ∧ r.maxAttempts = job.maxAttempts) ∨
      (db.table.find job.id = none ∧ PurgedAfterRetention job.id db.log)) ∧
    (∀ id r q db', db.table.find id = some r → r.status = .completed ∨ r.status = .dead →
      queue.step db q = some db' →
        db'.table.find id = some r ∨
          (db'.table.find id = none ∧ ∃ completedOlderThan deadOlderThan,
            q.statement = .purge completedOlderThan deadOlderThan ∧
              r.purgeable q.now completedOlderThan deadOlderThan = true)) ∧
    (∀ id r q db', db.table.find id = some r → r.status = .pending ∨ r.status = .running →
      queue.step db q = some db' → ∃ r', db'.table.find id = some r') := by
  refine ⟨?_, ?_, ?_⟩
  · intro job hjob
    cases hfind : db.table.find job.id with
    | none => exact Or.inr ⟨rfl, purged_of_find_none h hd hjob hfind⟩
    | some r =>
      left
      obtain ⟨it, _, htracks, rfl, hbudget⟩ := reachable_item h hd hjob
      rw [hfind] at htracks
      cases htracks with
      | present hshows _ =>
        refine ⟨r, rfl, hshows.jobType, hshows.payload, hshows.traceContext, ?_⟩
        rw [hshows.maxAttempts, hbudget]
  · -- a terminal row changes only by being purged
    intro id r q db' hr hterm hstep
    rcases step_cases hstep with rfl | ⟨rows, hexec, _⟩
    · exact Or.inl hr
    · rcases exec_change hexec id with ⟨row, _, hch⟩ | ⟨_, hsame⟩
      · rw [hr] at hch
        obtain ⟨completedOlderThan, deadOlderThan, hpurge, _, hafter, hpurgeable⟩ :=
          hch.of_terminal hterm
        exact Or.inr ⟨hafter, completedOlderThan, deadOlderThan, hpurge, hpurgeable⟩
      · exact Or.inl (hsame.trans hr)
  · intro id r q db' hr hlive hstep
    rcases step_cases hstep with rfl | ⟨rows, hexec, _⟩
    · exact ⟨r, hr⟩
    · rcases exec_change hexec id with ⟨row, _, hch⟩ | ⟨_, hsame⟩
      · cases hafter : db'.table.find id with
        | some r' => exact ⟨r', rfl⟩
        | none =>
          -- only a purge deletes, and it deletes terminal rows only
          rw [hafter, hr] at hch
          obtain ⟨_, _, _, hrow, hterm, _⟩ := hch.terminal_of_deleted
          cases hrow
          rcases hlive with hlive | hlive <;> rcases hterm with hterm | hterm <;>
            cases hlive.symm.trans hterm
      · exact ⟨r, hsame.trans hr⟩

theorem jobs_kept_until_retention_purged :
    let db := (queue.run (⟨100, .purge 20 20, []⟩ :: ⟨50, .complete 7 "worker" 2, []⟩ ::
      retriedRun)).get rfl
    PurgedAfterRetention 7 db.log := by
  intro db
  have hjob : (⟨7, "user.created", .null, .null, 2⟩ : NewJob) ∈ insertedJobs db.log :=
    List.mem_singleton.mpr rfl
  have hgone : db.table.find 7 = none := rfl
  rcases (jobs_kept_until_retention (Machine.reachable_get rfl) (by unfold DistinctIds; decide)).1
    _ hjob with ⟨r, hr, _⟩ | ⟨_, hpurged⟩
  · cases hgone.symm.trans hr
  · exact hpurged

end BaseSkeleton.Job
