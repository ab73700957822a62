import BaseSkeleton.Lib.Machine
import BaseSkeleton.Job.Change

/-!
# Runs of the queue

The queue as a `Machine`: a run is any sequence of statements, each with the instant it takes
effect at, sent by anybody, in any order. A statement that fails changes nothing. The state
carries the log of the statements that went through (newest first), each with the rows it
affected, so that what a run has done to a job can be read off the state.

* `queue` — the runs of the statements that PostgreSQL executes.
* `boundQueue` — the runs of statements with any parameters.
* `reachable_of_bound` — what holds in all runs of the first holds in all runs of the second.
-/

namespace BaseSkeleton.Job

/-- A statement, its `NOW()`, and the rows `SKIP LOCKED` passes over. -/
structure Request where
  now : Instant
  statement : Statement
  skip : List Uuid

/-- A statement that went through, with the rows it affected. -/
structure Entry where
  now : Instant
  statement : Statement
  rows : List JobRow

/-- The row an entry reports under `id`. -/
def Entry.rowOf (e : Entry) (id : Uuid) : Option JobRow :=
  Keyed.get JobRow.id id e.rows

/-- The database: the table and the log of what was done to it. -/
structure Db where
  log : List Entry
  table : JobTable

/-- The database after a request. -/
def Db.apply (db : Db) (q : Request) : Db :=
  match q.statement.exec q.skip q.now db.table with
  | .error _ => db
  | .ok (table, rows) => ⟨⟨q.now, q.statement, rows⟩ :: db.log, table⟩

/-- The queue, starting from an empty table. -/
def queue : Machine Db Request where
  init := ⟨[], .empty⟩
  step := fun db q => some (db.apply q)

/-- A statement that is sent with its parameters; `early` is what the planner decides. -/
structure BoundRequest extends Request where
  early : Bool

/-- The database after a statement was sent to it. -/
def Db.receive (db : Db) (q : BoundRequest) : Db :=
  match q.statement.execBound q.early q.skip q.now db.table with
  | .error _ => db
  | .ok (table, rows) => ⟨⟨q.now, q.statement, rows⟩ :: db.log, table⟩

/-- The queue, with the parameters of its statements checked. -/
def boundQueue : Machine Db BoundRequest where
  init := ⟨[], .empty⟩
  step := fun db q => some (db.receive q)

/-- The jobs whose insert went through, newest first. -/
def insertedJobs : List Entry → List NewJob
  | [] => []
  | ⟨_, .insert job _, _⟩ :: log => job :: insertedJobs log
  | _ :: log => insertedJobs log

def insertedIds (log : List Entry) : List Uuid :=
  (insertedJobs log).map NewJob.id

/-- No two enqueued jobs share an id. -/
def DistinctIds (log : List Entry) : Prop :=
  (insertedIds log).Nodup

/-- A job of two attempts that failed once and was claimed again by a worker with the same id:
the run the examples of the following modules look at. -/
def retriedRun : List Request :=
  [⟨40, .claim "worker", []⟩,
    ⟨30, .fail 7 "worker" 1 "boom" 5, []⟩,
    ⟨20, .claim "worker", []⟩,
    ⟨10, .insert ⟨7, "user.created", .null, .null, 2⟩ 10, []⟩]

variable {db db' : Db} {q : Request}

theorem Db.apply_cases (db : Db) (q : Request) : db.apply q = db ∨
    ∃ rows, q.statement.exec q.skip q.now db.table = .ok ((db.apply q).table, rows) ∧
      (db.apply q).log = ⟨q.now, q.statement, rows⟩ :: db.log := by
  unfold Db.apply
  split
  · exact Or.inl rfl
  · exact Or.inr ⟨_, ‹_›, rfl⟩

theorem Db.apply_ok {table : JobTable} {rows : List JobRow}
    (h : q.statement.exec q.skip q.now db.table = .ok (table, rows)) :
    db.apply q = ⟨⟨q.now, q.statement, rows⟩ :: db.log, table⟩ := by
  unfold Db.apply
  rw [h]

/-- A step either refuses its statement and changes nothing, or executes it. -/
theorem step_cases (h : queue.step db q = some db') :
    db' = db ∨ ∃ rows, q.statement.exec q.skip q.now db.table = .ok (db'.table, rows) ∧
      db'.log = ⟨q.now, q.statement, rows⟩ :: db.log := by
  obtain rfl : db.apply q = db' := Option.some.inj h
  exact Db.apply_cases db q

/-- **Refused statements.** For the table a statement that is refused was never sent: every state
that is reached with the parameters checked is reached without the refused ones. -/
theorem reachable_of_bound (h : boundQueue.Reachable db) : queue.Reachable db := by
  refine Machine.Reachable.simulate (M := boundQueue) (N := queue) id rfl ?_ h
  intro db q db' _ hstep
  obtain rfl : db.receive q = db' := Option.some.inj hstep
  unfold Db.receive
  rcases q.statement.execBound_cases q.early q.skip q.now db.table with ⟨_, hexec⟩ | ⟨_, e, herror⟩
  · rw [hexec]
    exact Or.inr ⟨q.toRequest, rfl⟩
  · rw [herror]
    exact Or.inl rfl

/-- Every entry of the log was executed in a reachable state, the one whose log is the older
part. -/
theorem reachable_executed (h : queue.Reachable db) {newer older : List Entry} {e : Entry}
    (hlog : db.log = newer ++ e :: older) :
    ∃ db₀ skip T', queue.Reachable db₀ ∧ db₀.log = older ∧
      e.statement.exec skip e.now db₀.table = .ok (T', e.rows) := by
  refine Machine.Reachable.invariant (P := fun db => ∀ newer, db.log = newer ++ e :: older →
    ∃ db₀ skip T', queue.Reachable db₀ ∧ db₀.log = older ∧
      e.statement.exec skip e.now db₀.table = .ok (T', e.rows)) ?_ ?_ h newer hlog
  · intro newer hlog
    cases newer <;> cases hlog
  · intro db q db' hreach ih hstep newer hlog
    rcases step_cases hstep with rfl | ⟨rows, hexec, hlog'⟩
    · exact ih newer hlog
    · rw [hlog'] at hlog
      cases newer with
      | nil =>
        obtain ⟨rfl, rfl⟩ := List.cons.inj hlog
        exact ⟨db, q.skip, db'.table, hreach, rfl, hexec⟩
      | cons e' newer => exact ih newer (List.cons.inj hlog).2

/-- Every row an entry reports was changed by it. -/
theorem reachable_reported (h : queue.Reachable db) {e : Entry} (he : e ∈ db.log) {id : Uuid}
    {row : JobRow} (hrow : e.rowOf id = some row) :
    ∃ before after, Change e.now e.statement before row after := by
  obtain ⟨newer, older, hlog⟩ := List.append_of_mem he
  obtain ⟨db₀, skip, T', _, _, hexec⟩ := reachable_executed h hlog
  rcases exec_change hexec id with ⟨row', hrow', hch⟩ | ⟨hnone, _⟩
  · cases hrow.symm.trans hrow'
    exact ⟨_, _, hch⟩
  · cases hrow.symm.trans hnone

/-- An insert that went through reports the row of its job. -/
theorem reachable_inserted (h : queue.Reachable db) {e : Entry} (he : e ∈ db.log) {job : NewJob}
    {began : Instant} (hinsert : e.statement = .insert job began) :
    ∃ row, e.rowOf job.id = some row := by
  obtain ⟨newer, older, hlog⟩ := List.append_of_mem he
  obtain ⟨db₀, skip, T', _, _, hexec⟩ := reachable_executed h hlog
  rw [hinsert] at hexec
  simp only [Statement.exec] at hexec
  split at hexec
  · cases hexec
  · rename_i maxAttempts _
    have hrows := (JobTable.insert_spec hexec).1
    refine ⟨job.row maxAttempts began, ?_⟩
    rw [Entry.rowOf, hrows, Keyed.get_cons]
    exact if_pos rfl

/-- What is kept by every change of a single row holds of every row of every reachable table. -/
theorem reachable_row_invariant {P : JobRow → Prop}
    (hchange : ∀ now s before row after, (∀ r, before = some r → r.Checks ∧ P r) →
      Change now s before row after → ∀ r, after = some r → P r)
    (h : queue.Reachable db) : ∀ r ∈ db.table.rows, P r := by
  refine Machine.Reachable.invariant (P := fun db => ∀ r ∈ db.table.rows, P r) ?_ ?_ h
  · intro r hr
    cases hr
  · intro db q db' _ ih hstep
    rcases step_cases hstep with rfl | ⟨rows, hexec, _⟩
    · exact ih
    · intro r hr
      have hafter := JobTable.find_of_mem hr
      rcases exec_change hexec r.id with ⟨row, _, hch⟩ | ⟨_, hsame⟩
      · refine hchange _ _ _ _ _ (fun r₀ hr₀ => ?_) hch r hafter
        exact ⟨JobTable.checks_of_find hr₀, ih r₀ (JobTable.find_eq_some.mp hr₀).1⟩
      · rw [hafter] at hsame
        exact ih r (JobTable.find_eq_some.mp hsame.symm).1

end BaseSkeleton.Job
