import BaseSkeleton.Lib.WorkItem
import BaseSkeleton.Job.Run

/-!
# The queue refines the life of a leased work item

What a run did to one job is a list of work-item events, read off the log (`eventsOf`). The row
that is left is one view of the item these events leave behind:

* `JobRow.Shows` — the row carries the item's cargo, budget and attempts, and its status and
  lock columns tell the item's stage;
* `Tracks` — the same for the lookup: no row before the insert and none after the purge;
* `change_next` — each `Change` of a row is one step in the life of the item;
* `reachable_tracks` — so every run of the queue with distinct job ids is, job by job, a `Life`.

The guarantees of `WorkItem` then hold of the queue.
-/

namespace BaseSkeleton.Job

/-- A job seen as a work item: owners are worker ids, the cargo is the job as it was enqueued. -/
abbrev JobItem := WorkItem.Item String Instant NewJob

abbrev JobEvent := WorkItem.Event String Instant NewJob

/-- What a statement that affected a row, and reported it as `row`, means for the job. -/
def Statement.event (now : Instant) (row : JobRow) : Statement → JobEvent
  | .insert job _ => .submit job job.maxAttempts
  | .reap _ => .giveUp row.attempts.toNat now
  | .claim workerId => .acquire workerId row.attempts.toNat
  | .complete _ _ _ => .finish row.attempts.toNat now
  | .renew _ _ _ => .extend row.attempts.toNat
  | .fail _ _ _ _ _ => .giveUp row.attempts.toNat now
  | .purge completedOlderThan deadOlderThan => .remove now completedOlderThan deadOlderThan

/-- What an entry did to job `id`, if it affected its row. -/
def Entry.event (id : Uuid) (e : Entry) : Option JobEvent :=
  (e.rowOf id).map fun row => e.statement.event e.now row

/-- Everything a run did to job `id`, newest first. -/
def eventsOf (id : Uuid) (log : List Entry) : List JobEvent :=
  log.filterMap (Entry.event id)

/-! ## Rows as views of items

An item has no columns. Its stage decides the status and the lock columns of the row, and the rest
of the row is its cargo. -/

/-- The columns that tell the stage of a job. -/
def JobRow.InStage (r : JobRow) : WorkItem.Stage String Instant → Prop
  | .ready => r.status = .pending
  | .held owner => r.status = .running ∧ r.lockedBy = some owner
  | .done since => r.status = .completed ∧ r.completedAt = some since
  | .dead since => r.status = .dead ∧ r.updatedAt = since
  | .removed => False

structure JobRow.Shows (r : JobRow) (it : JobItem) : Prop where
  jobType : r.jobType = it.cargo.jobType
  payload : r.payload = it.cargo.payload
  traceContext : r.traceContext = it.cargo.traceContext
  maxAttempts : r.maxAttempts = it.budget
  enqueued : it.budget = it.cargo.maxAttempts
  attempts : r.attempts = it.spent
  stage : r.InStage it.stage

/-- The lookup of job `id`, as a view of its item. -/
inductive Tracks (id : Uuid) : Option JobRow → Option JobItem → Prop where
  | unborn : Tracks id none none
  | present {r : JobRow} {it : JobItem} (hshows : r.Shows it) (hid : it.cargo.id = id) :
      Tracks id (some r) (some it)
  | removed {it : JobItem} (hremoved : it.stage = .removed) (hid : it.cargo.id = id) :
      Tracks id none (some it)

/-- The cargo of an item has the `id` it is looked up by. -/
theorem Tracks.cargo_id {id : Uuid} {found : Option JobRow} {it : JobItem}
    (h : Tracks id found (some it)) : it.cargo.id = id := by
  cases h with
  | present hshows hid => exact hid
  | removed hremoved hid => exact hid

variable {r : JobRow} {it : JobItem} {now : Instant}

/-- An item keeps its view when only attempts and stage move, together. -/
theorem JobRow.Shows.move {r' : JobRow} {spent : Nat} {stage : WorkItem.Stage String Instant}
    (h : r.Shows it) (htype : r'.jobType = r.jobType)
    (hpayload : r'.payload = r.payload) (htrace : r'.traceContext = r.traceContext)
    (hmax : r'.maxAttempts = r.maxAttempts) (hattempts : r'.attempts = spent)
    (hstage : r'.InStage stage) : r'.Shows { it with spent := spent, stage := stage } where
  jobType := htype.trans h.jobType
  payload := hpayload.trans h.payload
  traceContext := htrace.trans h.traceContext
  maxAttempts := hmax.trans h.maxAttempts
  enqueued := h.enqueued
  attempts := hattempts
  stage := hstage

/-- A pending row shows an item that is ready. -/
theorem JobRow.Shows.ready (h : r.Shows it) (hpending : r.status = .pending) :
    it.stage = .ready := by
  have hstage := h.stage
  cases hs : it.stage <;> simp_all [JobRow.InStage]

/-- A running row shows an item that somebody holds. -/
theorem JobRow.Shows.held (h : r.Shows it) (hrun : r.status = .running) :
    ∃ owner, it.stage = .held owner ∧ r.lockedBy = some owner := by
  have hstage := h.stage
  cases hs : it.stage <;> simp_all [JobRow.InStage]

/-- The attempt number an event is labelled with. -/
theorem JobRow.Shows.attempts_toNat (h : r.Shows it) : r.attempts.toNat = it.spent := by
  rw [h.attempts, Int.toNat_natCast]

/-- A purgeable row shows an item whose retention has run out. -/
theorem JobRow.Shows.expired {completedOlderThan deadOlderThan : Duration} (h : r.Shows it)
    (hpurge : r.purgeable now completedOlderThan deadOlderThan = true) :
    it.stage.Expired now completedOlderThan deadOlderThan := by
  have hstage := h.stage
  rcases JobRow.purgeable_iff.mp hpurge with ⟨hstatus, since, hsince, hold⟩ | ⟨hstatus, hold⟩
  · cases hs : it.stage <;> simp_all [JobRow.InStage]
    exact Nat.add_lt_of_lt_sub hold
  · cases hs : it.stage <;> simp_all [JobRow.InStage]
    exact Nat.add_lt_of_lt_sub hold

/-- A released row is `pending` or `dead` exactly as the item is ready again or dead. -/
theorem released_inStage {r' : JobRow} (h : r.Shows it) (hstatus : r'.status = r.releasedStatus)
    (hupdated : r'.updatedAt = now) :
    r'.InStage (if it.spent < it.budget then .ready else .dead now) := by
  have hattempts := h.attempts
  have hmax := h.maxAttempts
  rw [JobRow.releasedStatus] at hstatus
  by_cases hlt : it.spent < it.budget
  · rw [if_neg (by omega)] at hstatus
    rw [if_pos hlt]
    exact hstatus
  · rw [if_pos (by omega)] at hstatus
    rw [if_neg hlt]
    exact ⟨hstatus, hupdated⟩

/-! ## One change is one event

The statements and the events of an item correspond one to one; a statement that affects no row is
no event. -/

/-- **The refinement step.** A change of a row that shows an item is one step in its life, and
the row after it shows the item after it. An insert finds no item: `hfresh` rules out an id that
was used before and purged. -/
theorem change_next {id : Uuid} {s : Statement} {before after : Option JobRow} {row : JobRow}
    {i : Option JobItem} (h : Change now s before row after) (hid : row.id = id)
    (ht : Tracks id before i) (hfresh : ∀ job began, s = .insert job began → i = none) :
    ∃ it', WorkItem.Next i (s.event now row) it' ∧ Tracks id after (some it') := by
  cases h with
  | insert job began maxAttempts hvalid =>
    obtain rfl := hfresh job began rfl
    -- `validate_max_attempts` lets no empty budget through
    have hmax : maxAttempts = job.maxAttempts ∧ 0 < job.maxAttempts := by
      unfold validateMaxAttempts at hvalid
      split at hvalid
      · cases hvalid
      · split at hvalid
        · cases hvalid
          omega
        · cases hvalid
    refine ⟨_, .submit job job.maxAttempts hmax.2, .present ?_ hid⟩
    exact ⟨rfl, rfl, rfl, hmax.1, rfl, rfl, rfl⟩
  -- the row is running, so the item is held
  | reap lease r hexpired =>
    cases ht with
    | @present _ it hshows hcargo =>
    obtain ⟨owner, hheld, _⟩ := hshows.held (JobRow.leaseExpired_iff.mp hexpired).1
    refine ⟨{ it with stage := if it.spent < it.budget then .ready else .dead now }, ?_,
      .present ?_ hcargo⟩
    · show WorkItem.Next _ (.giveUp r.attempts.toNat now) _
      rw [hshows.attempts_toNat]
      exact .giveUp it owner now hheld
    · exact hshows.move rfl rfl rfl rfl hshows.attempts (released_inStage hshows rfl rfl)
  | claim workerId r hclaimable =>
    cases ht with
    | @present _ it hshows hcargo =>
    obtain ⟨hpending, _, hbudget⟩ := JobRow.claimable_iff.mp hclaimable
    have hattempts := hshows.attempts
    have hmax := hshows.maxAttempts
    -- the claim spends an attempt, and there is one left to spend
    refine ⟨{ it with spent := it.spent + 1, stage := .held workerId }, ?_, .present ?_ hcargo⟩
    · show WorkItem.Next _ (.acquire workerId (r.attempts + 1).toNat) _
      have hnext : (r.attempts + 1).toNat = it.spent + 1 := by omega
      rw [hnext]
      exact .acquire it workerId (hshows.ready hpending) (by omega)
    · have hnext : r.attempts + 1 = ((it.spent + 1 : Nat) : Int) := by omega
      exact hshows.move rfl rfl rfl rfl hnext ⟨rfl, rfl⟩
  | complete jobId workerId attempt r howned =>
    cases ht with
    | @present _ it hshows hcargo =>
    obtain ⟨owner, hheld, _⟩ := hshows.held (JobRow.ownedBy_iff.mp howned).2.1
    refine ⟨{ it with stage := .done now }, ?_, .present ?_ hcargo⟩
    · show WorkItem.Next _ (.finish r.attempts.toNat now) _
      rw [hshows.attempts_toNat]
      exact .finish it owner now hheld
    · exact hshows.move rfl rfl rfl rfl hshows.attempts ⟨rfl, rfl⟩
  | renew jobId workerId attempt r howned =>
    cases ht with
    | @present _ it hshows hcargo =>
    obtain ⟨owner, hheld, hby⟩ := hshows.held (JobRow.ownedBy_iff.mp howned).2.1
    -- the item does not keep `locked_at`, so a renewal leaves it as it is
    refine ⟨it, ?_, .present ?_ hcargo⟩
    · show WorkItem.Next _ (.extend r.attempts.toNat) _
      rw [hshows.attempts_toNat]
      exact .extend it owner hheld
    · have hstage : (r.renewed now).InStage it.stage := by
        rw [hheld]
        exact ⟨(JobRow.ownedBy_iff.mp howned).2.1, hby⟩
      exact hshows.move rfl rfl rfl rfl hshows.attempts hstage
  | fail jobId workerId attempt error retryDelay r howned =>
    cases ht with
    | @present _ it hshows hcargo =>
    obtain ⟨owner, hheld, _⟩ := hshows.held (JobRow.ownedBy_iff.mp howned).2.1
    refine ⟨{ it with stage := if it.spent < it.budget then .ready else .dead now }, ?_,
      .present ?_ hcargo⟩
    · show WorkItem.Next _ (.giveUp r.attempts.toNat now) _
      rw [hshows.attempts_toNat]
      exact .giveUp it owner now hheld
    · exact hshows.move rfl rfl rfl rfl hshows.attempts (released_inStage hshows rfl rfl)
  | purge completedOlderThan deadOlderThan r hpurgeable =>
    cases ht with
    | @present _ it hshows hcargo =>
    exact ⟨_, .remove it now completedOlderThan deadOlderThan (hshows.expired hpurgeable),
      .removed rfl hcargo⟩

/-! ## Every run is a life, job by job

Reading the log for one `id` gives the events of one item, and the row under that `id` shows the
item they leave. -/

/-- The inserted jobs are those of the inserts in the log. -/
theorem mem_insertedJobs {log : List Entry} {job : NewJob} :
    job ∈ insertedJobs log ↔ ∃ e ∈ log, ∃ began, e.statement = .insert job began := by
  induction log with
  | nil => simp [insertedJobs]
  | cons e log ih =>
    obtain ⟨now, s, rows⟩ := e
    cases s with
    | insert job' began => simp [insertedJobs, ih, eq_comm]
    | _ => simpa [insertedJobs] using ih

/-- A job that was inserted stays inserted. -/
theorem mem_insertedJobs_apply {db : Db} (q : Request) {new : NewJob}
    (h : new ∈ insertedJobs db.log) : new ∈ insertedJobs (db.apply q).log := by
  obtain ⟨entry, hentry, began, hinsert⟩ := mem_insertedJobs.mp h
  rcases Db.apply_cases db q with hsame | ⟨rows, _, hlog⟩
  · rwa [hsame]
  · rw [hlog]
    exact mem_insertedJobs.mpr ⟨entry, List.mem_cons_of_mem _ hentry, began, hinsert⟩

/-- What was submitted to a job's history was inserted. -/
theorem mem_insertedJobs_of_submit {id : Uuid} {log : List Entry} {job : NewJob} {budget : Nat}
    (h : .submit job budget ∈ eventsOf id log) : job ∈ insertedJobs log := by
  obtain ⟨e, he, hevent⟩ := List.mem_filterMap.mp h
  obtain ⟨row, _, hsubmit⟩ := Option.map_eq_some_iff.mp hevent
  obtain ⟨now, s, rows⟩ := e
  cases s with
  | insert job' began =>
    cases hsubmit
    exact mem_insertedJobs.mpr ⟨_, he, began, rfl⟩
  | _ => cases hsubmit

/-- Distinct ids of a log are distinct in its older part. -/
theorem DistinctIds.tail {e : Entry} {log : List Entry} (h : DistinctIds (e :: log)) :
    DistinctIds log := by
  obtain ⟨now, s, rows⟩ := e
  cases s with
  | insert job began => exact (List.nodup_cons.mp h).2
  | _ => exact h

/-- An insert reports the row of its job. -/
theorem Change.inserted_id {job : NewJob} {began : Instant} {before after : Option JobRow}
    {row : JobRow} (h : Change now (.insert job began) before row after) : row.id = job.id := by
  cases h
  rfl

/-- The insert of a new id finds no item: one left behind by an earlier insert would have used
the id already. -/
theorem item_none_of_insert {e : Entry} {log : List Entry} {job : NewJob} {began : Instant}
    {found : Option JobRow} {i : Option JobItem} (hd : DistinctIds (e :: log))
    (hinsert : e.statement = .insert job began) (hlife : WorkItem.Life (eventsOf job.id log) i)
    (htracks : Tracks job.id found i) : i = none := by
  cases i with
  | none => rfl
  | some it =>
    have hsubmit := (hlife.submitted it.cargo it.budget).mpr ⟨rfl, rfl⟩
    have hold := List.mem_map_of_mem (f := NewJob.id) (mem_insertedJobs_of_submit hsubmit)
    rw [htracks.cargo_id] at hold
    obtain ⟨now, s, rows⟩ := e
    obtain rfl : s = .insert job began := hinsert
    exact absurd hold (List.nodup_cons.mp hd).1

/-- An entry that affected the row is the next event of the job. -/
theorem eventsOf_cons_some {id : Uuid} {e : Entry} {row : JobRow} (log : List Entry)
    (hrow : e.rowOf id = some row) :
    eventsOf id (e :: log) = e.statement.event e.now row :: eventsOf id log := by
  simp [eventsOf, Entry.event, hrow]

/-- An entry about other rows is none. -/
theorem eventsOf_cons_none {id : Uuid} {e : Entry} (log : List Entry) (hrow : e.rowOf id = none) :
    eventsOf id (e :: log) = eventsOf id log := by
  simp [eventsOf, Entry.event, hrow]

/-- **The queue refines the work item.** In every run with distinct job ids, the events of each
job are the life of an item, and the table holds the view of that item. -/
theorem reachable_tracks {db : Db} (h : queue.Reachable db) (hd : DistinctIds db.log) (id : Uuid) :
    ∃ i, WorkItem.Life (eventsOf id db.log) i ∧ Tracks id (db.table.find id) i := by
  revert hd
  refine Machine.Reachable.invariant (P := fun db => DistinctIds db.log →
    ∃ i, WorkItem.Life (eventsOf id db.log) i ∧ Tracks id (db.table.find id) i) ?_ ?_ h
  · intro _
    exact ⟨none, .unborn, .unborn⟩
  · intro db q db' _ ih hstep hd
    rcases step_cases hstep with rfl | ⟨rows, hexec, hlog⟩
    · exact ih hd
    · rw [hlog] at hd ⊢
      generalize he : (⟨q.now, q.statement, rows⟩ : Entry) = e at hd
      obtain ⟨i, hlife, htracks⟩ := ih hd.tail
      -- an entry about this job is an event of it; any other leaves row and item alone
      rcases exec_change hexec id with ⟨row, hrow, hch⟩ | ⟨hrow, hsame⟩
      · have hreport : e.rowOf id = some row := he ▸ hrow
        rw [eventsOf_cons_some db.log hreport, ← he]
        have hrowid : row.id = id := Keyed.key_of_get hrow
        have hfresh : ∀ job began, q.statement = .insert job began → i = none := by
          intro job began hinsert
          have hid : id = job.id := hrowid.symm.trans (hinsert ▸ hch).inserted_id
          have hstatement : e.statement = .insert job began := by
            rw [← he]
            exact hinsert
          subst hid
          exact item_none_of_insert hd hstatement hlife htracks
        obtain ⟨it', hnext, hafter⟩ := change_next hch hrowid htracks hfresh
        exact ⟨some it', .next hlife hnext, hafter⟩
      · have hreport : e.rowOf id = none := he ▸ hrow
        rw [eventsOf_cons_none db.log hreport, hsame]
        exact ⟨i, hlife, htracks⟩

/-- In a reachable state the history of an inserted job starts with its submission. -/
theorem submit_mem_eventsOf {db : Db} (h : queue.Reachable db) {job : NewJob}
    (hjob : job ∈ insertedJobs db.log) : .submit job job.maxAttempts ∈ eventsOf job.id db.log := by
  obtain ⟨e, he, began, hinsert⟩ := mem_insertedJobs.mp hjob
  obtain ⟨row, hrow⟩ := reachable_inserted h he hinsert
  refine List.mem_filterMap.mpr ⟨e, he, ?_⟩
  rw [Entry.event, hrow, hinsert]
  rfl

/-- The item of an inserted job carries that job. -/
theorem reachable_item {db : Db} (h : queue.Reachable db) (hd : DistinctIds db.log) {job : NewJob}
    (hjob : job ∈ insertedJobs db.log) :
    ∃ it, WorkItem.Life (eventsOf job.id db.log) (some it) ∧
      Tracks job.id (db.table.find job.id) (some it) ∧ it.cargo = job ∧
      it.budget = job.maxAttempts := by
  have hsubmit := submit_mem_eventsOf h hjob
  obtain ⟨i, hlife, htracks⟩ := reachable_tracks h hd job.id
  cases i with
  | none =>
    rw [hlife.nil_of_none] at hsubmit
    cases hsubmit
  | some it =>
    obtain ⟨hcargo, hbudget⟩ := (hlife.submitted _ _).mp hsubmit
    exact ⟨it, hlife, htracks, hcargo.symm, hbudget.symm⟩

end BaseSkeleton.Job
