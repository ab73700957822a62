import Mathlib.Algebra.GroupWithZero.Nat
import Mathlib.Algebra.Order.BigOperators.Group.List
import Mathlib.Algebra.Order.Group.Nat
import BaseSkeleton.Job.History
import BaseSkeleton.Job.RowInvariant

/-!
# Attempt accounting

Three statements compare `attempts` with `max_attempts` and one increments it. Over every run
they agree with each other: the claims of a job carry `1, 2, 3, …`, there are never more of them
than the budget, and the job dies exactly when the last one is given up.

* `claimedAttempts` — what the claims of a job handed out.
* `becomes_dead_iff` — the step that makes a job dead.
* `settled_never_claimed` — a job that is over is not claimed in any continuation of the run.
* `countP_claims_le` — the claims of a whole run, counted over all jobs.
* `attempts_accounted` — the four together.
-/

namespace BaseSkeleton.Job

/-- The attempts the claims of `id` handed out, newest first. -/
def claimedAttempts (id : Uuid) : List Entry → List Nat
  | [] => []
  | e :: log =>
    match e.rowOf id, e.statement with
    | some row, .claim _ => row.attempts.toNat :: claimedAttempts id log
    | _, _ => claimedAttempts id log

/-- A claim that took effect. -/
def Entry.claims (e : Entry) : Bool :=
  match e.statement with
  | .claim _ => !e.rows.isEmpty
  | _ => false

variable {db db' : Db} {id : Uuid} {r : JobRow}

/-- The claims in the log are the acquisitions of the item. -/
theorem acquires_eventsOf (id : Uuid) (log : List Entry) :
    WorkItem.acquires (eventsOf id log) = claimedAttempts id log := by
  induction log with
  | nil => rfl
  | cons e log ih =>
    obtain ⟨now, s, rows⟩ := e
    cases hrow : Entry.rowOf ⟨now, s, rows⟩ id with
    | none => rw [eventsOf_cons_none log hrow, ih, claimedAttempts, hrow]
    | some row =>
      rw [eventsOf_cons_some log hrow, claimedAttempts, hrow]
      cases s with
      | claim workerId =>
        show row.attempts.toNat :: WorkItem.acquires (eventsOf id log) = _
        rw [ih]
      | _ => exact ih

/-! ## One job

The row counts the claims of its job, and the item has the same count; that there are at most as
many as the budget is a fact about work items. -/

/-- The claims of a job are numbered through, up to the attempts of its row. -/
theorem claimedAttempts_of_find (h : queue.Reachable db) (hd : DistinctIds db.log)
    (hr : db.table.find id = some r) :
    ∃ n : Nat, (claimedAttempts id db.log).reverse = List.range' 1 n ∧ r.attempts = n ∧
      r.attempts ≤ r.maxAttempts := by
  obtain ⟨i, hlife, htracks⟩ := reachable_tracks h hd id
  rw [hr] at htracks
  cases htracks with
  | @present _ it hshows _ =>
    refine ⟨it.spent, ?_, hshows.attempts, (JobTable.checks_of_find hr).attemptsBounded⟩
    rw [← acquires_eventsOf]
    exact hlife.acquires_reverse

/-- The column counts the claims. -/
theorem claimedAttempts_length (h : queue.Reachable db) (hd : DistinctIds db.log)
    (hr : db.table.find id = some r) : ((claimedAttempts id db.log).length : Int) = r.attempts := by
  obtain ⟨n, hclaims, hattempts, _⟩ := claimedAttempts_of_find h hd hr
  rw [hattempts, ← List.length_reverse, hclaims, List.length_range']

/-- No attempt is handed out twice. -/
theorem claimedAttempts_nodup (h : queue.Reachable db) (hd : DistinctIds db.log) (id : Uuid) :
    (claimedAttempts id db.log).Nodup := by
  obtain ⟨i, hlife, _⟩ := reachable_tracks h hd id
  rw [← acquires_eventsOf]
  cases i with
  | none =>
    rw [hlife.nil_of_none]
    exact List.nodup_nil
  | some it =>
    rw [← List.nodup_reverse, hlife.acquires_reverse]
    exact List.nodup_range'

/-- The claims of an inserted job stay within its budget, also after its row is gone. -/
theorem claimedAttempts_of_inserted (h : queue.Reachable db) (hd : DistinctIds db.log)
    {job : NewJob} (hjob : job ∈ insertedJobs db.log) :
    ∃ n : Nat, (claimedAttempts job.id db.log).reverse = List.range' 1 n ∧ n ≤ job.maxAttempts := by
  obtain ⟨it, hlife, _, _, hbudget⟩ := reachable_item h hd hjob
  refine ⟨it.spent, ?_, hbudget ▸ hlife.spent_le_budget⟩
  rw [← acquires_eventsOf]
  exact hlife.acquires_reverse

/-- A released row is dead exactly if no attempt is left. -/
theorem releasedStatus_eq_dead : r.releasedStatus = .dead ↔ r.attempts ≥ r.maxAttempts := by
  unfold JobRow.releasedStatus
  split <;> simp_all

/-- A change makes a row dead exactly if it gives the row up with the budget used. -/
theorem Change.dead_iff {now : Instant} {s : Statement} {before after : Option JobRow}
    {row : JobRow} (h : Change now s before row after) :
    ((∃ r', after = some r' ∧ r'.status = .dead) ∧ ¬ ∃ r, before = some r ∧ r.status = .dead) ↔
      s.GivesUp ∧ row.attempts ≥ row.maxAttempts := by
  cases h with
  | reap lease r hexpired =>
    have hrun := (JobRow.leaseExpired_iff.mp hexpired).1
    have hdead : (r.reaped now).status = .dead ↔ r.attempts ≥ r.maxAttempts :=
      releasedStatus_eq_dead
    simp [Statement.GivesUp, hdead, hrun]
    rfl
  | fail jobId workerId attempt error retryDelay r howned =>
    have hrun := (JobRow.ownedBy_iff.mp howned).2.1
    have hdead : (r.failed now error retryDelay).status = .dead ↔ r.attempts ≥ r.maxAttempts :=
      releasedStatus_eq_dead
    simp [Statement.GivesUp, hdead, hrun]
    rfl
  | insert job began maxAttempts hvalid => simp [Statement.GivesUp, NewJob.row]
  | claim workerId r hclaimable => simp [Statement.GivesUp, JobRow.claimed]
  | complete jobId workerId attempt r howned => simp [Statement.GivesUp, JobRow.completed]
  | renew jobId workerId attempt r howned => simp [Statement.GivesUp, JobRow.renewed]
  | purge completedOlderThan deadOlderThan r hpurgeable => simp [Statement.GivesUp]

/-- Giving an attempt up changes neither counter. -/
theorem Change.gaveUp {now : Instant} {s : Statement} {before after : Option JobRow}
    {row : JobRow} (h : Change now s before row after) (hs : s.GivesUp) :
    ∃ r, before = some r ∧ row.attempts = r.attempts ∧ row.maxAttempts = r.maxAttempts := by
  rcases hs with ⟨lease, rfl⟩ | ⟨jobId, workerId, attempt, error, retryDelay, rfl⟩
  · cases h with
    | reap _ r hexpired => exact ⟨r, rfl, rfl, rfl⟩
  · cases h with
    | fail _ _ _ _ _ r howned => exact ⟨r, rfl, rfl, rfl⟩

/-- **The step that kills a job.** A row turns `dead` exactly when a reap or a fail takes effect
on it while the job has been claimed `max_attempts` times. -/
theorem becomes_dead_iff (h : queue.Reachable db) (hd : DistinctIds db.log) {q : Request}
    (hstep : queue.step db q = some db') :
    ((∃ r', db'.table.find id = some r' ∧ r'.status = .dead) ∧
        ¬ ∃ r, db.table.find id = some r ∧ r.status = .dead) ↔
      ∃ e row, db'.log = e :: db.log ∧ e.rowOf id = some row ∧ e.statement.GivesUp ∧
        ((claimedAttempts id db.log).length : Int) = row.maxAttempts := by
  rcases step_cases hstep with rfl | ⟨rows, hexec, hlog⟩
  · constructor
    · rintro ⟨hdead, hnot⟩
      exact absurd hdead hnot
    · rintro ⟨e, row, hlog, _⟩
      exact absurd hlog.symm (List.cons_ne_self e db'.log)
  · rcases exec_change hexec id with ⟨row, hrow, hch⟩ | ⟨hnone, hsame⟩
    · rw [hch.dead_iff]
      -- a row that is given up carries the number of claims made so far
      have hcount : q.statement.GivesUp →
          (row.attempts ≥ row.maxAttempts ↔
            ((claimedAttempts id db.log).length : Int) = row.maxAttempts) := by
        intro hgives
        obtain ⟨r, hr, hattempts, hmax⟩ := hch.gaveUp hgives
        have hlength := claimedAttempts_length h hd hr
        have hbounded := (JobTable.checks_of_find hr).attemptsBounded
        omega
      constructor
      · rintro ⟨hgives, hused⟩
        exact ⟨_, row, hlog, hrow, hgives, (hcount hgives).mp hused⟩
      · rintro ⟨e, row', hlog', hrow', hgives, hused⟩
        cases (List.cons.inj (hlog.symm.trans hlog')).1
        cases hrow.symm.trans hrow'
        exact ⟨hgives, (hcount hgives).mpr hused⟩
    · rw [hsame]
      constructor
      · rintro ⟨hdead, hnot⟩
        exact absurd hdead hnot
      · rintro ⟨e, row', hlog', hrow', _⟩
        cases (List.cons.inj (hlog.symm.trans hlog')).1
        cases hnone.symm.trans hrow'

/-! ## Jobs that are over

A job that is completed, dead or purged is not claimed again in any continuation. The invariant has
to speak of rows that are gone as well, which is why the id must have been used. -/

/-- The job was inserted and is over: its row is terminal or purged already. -/
def Settled (id : Uuid) (db : Db) : Prop :=
  id ∈ insertedIds db.log ∧
    ((∃ r, db.table.find id = some r ∧ r.Terminal) ∨ db.table.find id = none)

/-- An id that was used stays used. -/
theorem insertedIds_cons (e : Entry) {log : List Entry} (h : id ∈ insertedIds log) :
    id ∈ insertedIds (e :: log) := by
  obtain ⟨now, s, rows⟩ := e
  cases s with
  | insert job began => exact List.mem_cons_of_mem _ h
  | _ => exact h

/-- Every row is the row of a job that was inserted. -/
theorem insertedJob_of_find (h : queue.Reachable db) (hd : DistinctIds db.log)
    (hr : db.table.find id = some r) :
    ∃ job ∈ insertedJobs db.log, job.id = id ∧ r.maxAttempts = job.maxAttempts := by
  obtain ⟨i, hlife, htracks⟩ := reachable_tracks h hd id
  rw [hr] at htracks
  cases htracks with
  | @present _ it hshows hid =>
    have hsubmit := (hlife.submitted it.cargo it.budget).mpr ⟨rfl, rfl⟩
    refine ⟨it.cargo, mem_insertedJobs_of_submit hsubmit, hid, ?_⟩
    rw [hshows.maxAttempts, hshows.enqueued]

/-- A row belongs to a job that was inserted. -/
theorem inserted_of_find (h : queue.Reachable db) (hd : DistinctIds db.log)
    (hr : db.table.find id = some r) : id ∈ insertedIds db.log := by
  obtain ⟨job, hjob, hid, _⟩ := insertedJob_of_find h hd hr
  exact hid ▸ List.mem_map_of_mem hjob

/-- An executed statement on a job that is over is no claim of it, and the job stays over. -/
theorem settled_step {q : Request} {rows : List JobRow} (hset : Settled id db)
    (hexec : q.statement.exec q.skip q.now db.table = .ok (db'.table, rows))
    (hlog : db'.log = ⟨q.now, q.statement, rows⟩ :: db.log) (hd : DistinctIds db'.log) :
    Settled id db' ∧ claimedAttempts id db'.log = claimedAttempts id db.log := by
  obtain ⟨hinserted, hover⟩ := hset
  -- a terminal row changes only by the purge that deletes it
  have hkeep : id ∈ insertedIds db'.log := hlog ▸ insertedIds_cons _ hinserted
  rcases exec_change hexec id with ⟨row, hrow, hch⟩ | ⟨hnone, hsame⟩
  · rcases hover with ⟨r, hr, hterm⟩ | hgone
    · rw [hr] at hch
      obtain ⟨completedOlderThan, deadOlderThan, hpurge, _, hafter, _⟩ := hch.of_terminal hterm
      refine ⟨⟨hkeep, Or.inr hafter⟩, ?_⟩
      rw [hlog, claimedAttempts, hpurge]
      split <;> simp_all
    · -- only an insert finds no row, and this id has been inserted before
      rw [hgone] at hch
      have hid : row.id = id := Keyed.key_of_get hrow
      generalize hs : q.statement = s at hch
      generalize db'.table.find id = after at hch
      cases hch with
      | insert job began maxAttempts hvalid =>
        have hjob : job.id ∈ insertedIds db.log := by
          rw [← hid] at hinserted
          exact hinserted
        rw [hlog, hs] at hd
        exact absurd hjob (List.nodup_cons.mp hd).1
  · have hreport : Entry.rowOf ⟨q.now, q.statement, rows⟩ id = none := hnone
    refine ⟨⟨hkeep, by rwa [hsame]⟩, ?_⟩
    rw [hlog, claimedAttempts, hreport]

/-- **A job that is over is never claimed again**, however the run continues. -/
theorem settled_never_claimed (h : queue.Reachable db) {inputs : List Request}
    (hr : db.table.find id = some r) (hterm : r.Terminal)
    (hrun : queue.runFrom db inputs = some db') (hd : DistinctIds db'.log) :
    claimedAttempts id db'.log = claimedAttempts id db.log := by
  have hend : DistinctIds db'.log →
      Settled id db' ∧ claimedAttempts id db'.log = claimedAttempts id db.log := by
    refine Machine.Reachable.runFrom_invariant (P := fun db' => DistinctIds db'.log →
      Settled id db' ∧ claimedAttempts id db'.log = claimedAttempts id db.log) ?_ h ?_ hrun
    · intro mid q db' _ ih hstep hd'
      rcases step_cases hstep with rfl | ⟨rows, hexec, hlog⟩
      · exact ih hd'
      · obtain ⟨hset, hclaims⟩ := ih (hlog ▸ hd').tail
        obtain ⟨hset', hclaims'⟩ := settled_step hset hexec hlog hd'
        exact ⟨hset', hclaims'.trans hclaims⟩
    · intro hd₀
      exact ⟨⟨inserted_of_find h hd₀ hr, Or.inl ⟨r, hr, hterm⟩⟩, rfl⟩
  exact (hend hd).2

/-! ## All jobs together

Each entry claims one row at most, so that the claims of a log can be summed up job by job; the sum
of the budgets bounds them all. -/

/-- A claim that took effect handed out an attempt of the job whose row it reports. -/
theorem claims_rowOf {e : Entry} (he : e.claims = true) :
    ∃ row id workerId, e.rowOf id = some row ∧ e.statement = .claim workerId := by
  obtain ⟨now, s, rows⟩ := e
  cases s with
  | claim workerId =>
    cases rows with
    | nil => cases he
    | cons row rows =>
      exact ⟨row, row.id, workerId, by rw [Entry.rowOf, Keyed.get_cons, if_pos rfl], rfl⟩
  | _ => cases he

/-- An entry adds to the claims of a job, or does not. -/
theorem claimedAttempts_length_cons (id : Uuid) (e : Entry) (log : List Entry) :
    (claimedAttempts id log).length ≤ (claimedAttempts id (e :: log)).length := by
  rw [claimedAttempts]
  split
  · exact Nat.le_succ _
  · exact le_rfl

/-- Every claim that took effect is counted for one of the jobs it can have been for. -/
theorem countP_claims_le_sum {log : List Entry} {jobs : List NewJob}
    (hjobs : ∀ e ∈ log, ∀ id row, e.rowOf id = some row → ∃ job ∈ jobs, job.id = id) :
    log.countP Entry.claims ≤
      (jobs.map fun job => (claimedAttempts job.id log).length).sum := by
  induction log with
  | nil => simp
  | cons e log ih =>
    have hprev := ih fun e he => hjobs e (List.mem_cons_of_mem _ he)
    -- a claim makes one summand larger, and no entry makes one smaller
    have hgrow : ∀ job ∈ jobs, (claimedAttempts job.id log).length ≤
        (claimedAttempts job.id (e :: log)).length :=
      fun job _ => claimedAttempts_length_cons job.id e log
    cases hclaims : e.claims with
    | false =>
      rw [List.countP_cons_of_neg (by simp [hclaims])]
      exact hprev.trans (List.sum_le_sum hgrow)
    | true =>
      obtain ⟨row, id, workerId, hrow, hclaim⟩ := claims_rowOf hclaims
      obtain ⟨job, hjob, hid⟩ := hjobs e List.mem_cons_self id row hrow
      have hstrict : (claimedAttempts job.id log).length <
          (claimedAttempts job.id (e :: log)).length := by
        rw [claimedAttempts, hid, hrow, hclaim]
        exact Nat.lt_succ_self _
      have hsum := List.sum_lt_sum (fun job => (claimedAttempts job.id log).length)
        (fun job => (claimedAttempts job.id (e :: log)).length) hgrow ⟨job, hjob, hstrict⟩
      rw [List.countP_cons_of_pos hclaims]
      omega

/-- The claims of a whole run are bounded by the budgets of the jobs it enqueued. -/
theorem countP_claims_le (h : queue.Reachable db) (hd : DistinctIds db.log) :
    db.log.countP Entry.claims ≤ ((insertedJobs db.log).map NewJob.maxAttempts).sum := by
  have hjobs : ∀ e ∈ db.log, ∀ id row, e.rowOf id = some row →
      ∃ job ∈ insertedJobs db.log, job.id = id := by
    intro e he id row hrow
    obtain ⟨i, hlife, htracks⟩ := reachable_tracks h hd id
    have hevent : e.statement.event e.now row ∈ eventsOf id db.log :=
      List.mem_filterMap.mpr ⟨e, he, by rw [Entry.event, hrow, Option.map_some]⟩
    cases i with
    | none =>
      rw [hlife.nil_of_none] at hevent
      cases hevent
    | some it =>
      have hsubmit := (hlife.submitted it.cargo it.budget).mpr ⟨rfl, rfl⟩
      exact ⟨it.cargo, mem_insertedJobs_of_submit hsubmit, htracks.cargo_id⟩
  calc db.log.countP Entry.claims
      ≤ ((insertedJobs db.log).map fun job => (claimedAttempts job.id db.log).length).sum :=
        countP_claims_le_sum hjobs
    _ ≤ ((insertedJobs db.log).map NewJob.maxAttempts).sum := by
        refine List.sum_le_sum fun job hjob => ?_
        obtain ⟨n, hclaims, hle⟩ := claimedAttempts_of_inserted h hd hjob
        rw [← List.length_reverse, hclaims, List.length_range']
        exact hle

/-! ## The theorem -/

/-- **Attempt accounting**, for every job of a run with distinct job ids. -/
theorem attempts_accounted (h : queue.Reachable db) (hd : DistinctIds db.log) :
    (∀ job ∈ insertedJobs db.log, ∃ n : Nat,
      (claimedAttempts job.id db.log).reverse = List.range' 1 n ∧ n ≤ job.maxAttempts) ∧
    (∀ id r, db.table.find id = some r →
      ((claimedAttempts id db.log).length : Int) = r.attempts ∧ r.attempts ≤ r.maxAttempts ∧
        (r.status = .dead → ((claimedAttempts id db.log).length : Int) = r.maxAttempts)) ∧
    (∀ id q db', queue.step db q = some db' →
      (((∃ r', db'.table.find id = some r' ∧ r'.status = .dead) ∧
          ¬ ∃ r, db.table.find id = some r ∧ r.status = .dead) ↔
        ∃ e row, db'.log = e :: db.log ∧ e.rowOf id = some row ∧ e.statement.GivesUp ∧
          ((claimedAttempts id db.log).length : Int) = row.maxAttempts)) ∧
    (∀ id r, db.table.find id = some r → r.status = .completed ∨ r.status = .dead →
      ∀ inputs db', queue.runFrom db inputs = some db' → DistinctIds db'.log →
        claimedAttempts id db'.log = claimedAttempts id db.log) ∧
    db.log.countP Entry.claims ≤ ((insertedJobs db.log).map NewJob.maxAttempts).sum := by
  refine ⟨?_, ?_, ?_, ?_, countP_claims_le h hd⟩
  · intro job hjob
    exact claimedAttempts_of_inserted h hd hjob
  · intro id r hr
    have hlength := claimedAttempts_length h hd hr
    have hbounded := (JobTable.checks_of_find hr).attemptsBounded
    refine ⟨hlength, hbounded, fun hdead => ?_⟩
    rw [hlength]
    exact (reachable_sound h r (JobTable.find_eq_some.mp hr).1).dead hdead
  · intro id q db' hstep
    exact becomes_dead_iff h hd hstep
  · intro id r hr hterm inputs db' hrun hd'
    exact settled_never_claimed h hr hterm hrun hd'

theorem attempts_accounted_retried :
    let db := (queue.run retriedRun).get rfl
    claimedAttempts 7 db.log = [2, 1] ∧ db.log.countP Entry.claims ≤ 2 := by
  refine ⟨by decide, ?_⟩
  exact (attempts_accounted (Machine.reachable_get rfl) (by unfold DistinctIds; decide)).2.2.2.2

end BaseSkeleton.Job
