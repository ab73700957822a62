import Mathlib.Data.List.Sort
import BaseSkeleton.Job.Table

/-!
# `PostgresJobQueue` — the queue's SQL statements

`src/infrastructure/database/postgres/job_queue.rs`: every statement the adapter sends, as a
function from the table and the statement's `NOW()` to the table after it and the rows it
affected, and the adapter's reading of the answer.

Each statement takes effect atomically. Rows another statement holds locked at that moment are
invisible to `FOR UPDATE SKIP LOCKED`: the list `skip` names them. It also stands for whatever
decides between rows that tie in an ORDER BY, or that a LIMIT without ORDER BY leaves out.

`duration_seconds` (an `f64`) is exact here: durations keep their nanoseconds. The axis of the
database begins at the earliest `TIMESTAMPTZ`.

* `Statement.exec` — the effect of a statement that PostgreSQL executes.
* `Statement.execBound` — the same with the checks PostgreSQL makes of the parameters: a statement
  with U+0000 in a text, or with a time that is no timestamp, has no effect.
-/

namespace BaseSkeleton.Job

/-! ## Row expressions

One function per `SET` list and per `WHERE` condition. -/

/-- `CASE WHEN attempts >= max_attempts THEN 'dead' ELSE 'pending' END`. -/
def JobRow.releasedStatus (r : JobRow) : Status :=
  if r.attempts ≥ r.maxAttempts then .dead else .pending

/-- The reap statement's `SET`. -/
def JobRow.reaped (now : Instant) (r : JobRow) : JobRow :=
  { r with
    status := r.releasedStatus
    -- an expired lease has no backoff
    availableAt := now
    lockedAt := none
    lockedBy := none
    lastError := some "worker lease expired"
    updatedAt := now }

/-- The claim statement's `SET`. -/
def JobRow.claimed (now : Instant) (workerId : String) (r : JobRow) : JobRow :=
  { r with
    status := .running
    attempts := r.attempts + 1
    lockedAt := some now
    lockedBy := some workerId
    updatedAt := now }

/-- `complete`'s `SET`. -/
def JobRow.completed (now : Instant) (r : JobRow) : JobRow :=
  { r with
    status := .completed
    lockedAt := none
    lockedBy := none
    completedAt := some now
    updatedAt := now }

/-- `renew`'s `SET`. -/
def JobRow.renewed (now : Instant) (r : JobRow) : JobRow :=
  { r with lockedAt := some now, updatedAt := now }

/-- `error.chars().take(4_000).collect()`. -/
def cutError (error : String) : String :=
  .ofList (error.toList.take 4000)

/-- `fail`'s `SET`; the message is cut to 4000 characters before it is bound. -/
def JobRow.failed (now : Instant) (error : String) (retryDelay : Duration) (r : JobRow) : JobRow :=
  { r with
    status := r.releasedStatus
    -- a job without attempts left keeps its column
    availableAt := if r.attempts ≥ r.maxAttempts then r.availableAt else now + retryDelay
    lockedAt := none
    lockedBy := none
    lastError := some (cutError error)
    updatedAt := now }

/-- The row `insert_job` writes, with the defaults of the schema. -/
def NewJob.row (job : NewJob) (maxAttempts : Int) (now : Instant) : JobRow where
  id := job.id
  jobType := job.jobType
  payload := job.payload
  traceContext := job.traceContext
  status := .pending
  attempts := 0
  maxAttempts := maxAttempts
  availableAt := now
  lockedAt := none
  lockedBy := none
  lastError := none
  createdAt := now
  updatedAt := now
  completedAt := none

/-- `status = 'running' AND locked_at < NOW() - $1`. -/
def JobRow.leaseExpired (now : Instant) (lease : Duration) (r : JobRow) : Bool :=
  r.status = .running ∧ r.lockedAt.any fun lockedAt => lockedAt < now - lease

/-- `status = 'pending' AND available_at <= NOW() AND attempts < max_attempts`. -/
def JobRow.claimable (now : Instant) (r : JobRow) : Bool :=
  r.status = .pending ∧ r.availableAt ≤ now ∧ r.attempts < r.maxAttempts

/-- `id = $1 AND status = 'running' AND locked_by = $2 AND attempts = $3`. -/
def JobRow.ownedBy (jobId : Uuid) (workerId : String) (attempt : Nat) (r : JobRow) : Bool :=
  r.id = jobId ∧ r.status = .running ∧ r.lockedBy = some workerId ∧ r.attempts = attempt

/-- The retention condition of `purge_terminal`. -/
def JobRow.purgeable (now : Instant) (completedOlderThan deadOlderThan : Duration)
    (r : JobRow) : Bool :=
  (r.status = .completed ∧
      r.completedAt.any fun completedAt => completedAt < now - completedOlderThan) ∨
    (r.status = .dead ∧ r.updatedAt < now - deadOlderThan)

/-- `ORDER BY locked_at, id`; the rows it sorts are running, so `locked_at` is not NULL. -/
def reapOrder (r s : JobRow) : Prop :=
  r.lockedAt.getD 0 < s.lockedAt.getD 0 ∨ (r.lockedAt.getD 0 = s.lockedAt.getD 0 ∧ r.id ≤ s.id)

instance : DecidableRel reapOrder := fun _ _ =>
  inferInstanceAs (Decidable (_ ∨ (_ ∧ _)))

/-- `ORDER BY available_at, created_at`. -/
def claimOrder (r s : JobRow) : Prop :=
  r.availableAt < s.availableAt ∨ (r.availableAt = s.availableAt ∧ r.createdAt ≤ s.createdAt)

instance : DecidableRel claimOrder := fun _ _ =>
  inferInstanceAs (Decidable (_ ∨ (_ ∧ _)))

/-! ## Statements

One constructor for each statement, with what is bound to it. `expired`, `candidate` and `retired`
are the rows that their `SELECT … FOR UPDATE SKIP LOCKED` has found. -/

/-- `validate_max_attempts`. -/
def validateMaxAttempts (value : Nat) : Option Int :=
  if value = 0 then none
  else if (value : Int) ≤ integerMax then some value
  else none

/-- The statements sent to `background_jobs`. An `insert` carries the `NOW()` of its transaction:
the instant of the statement itself for `enqueue`, the start of the registration transaction for
`create_with_job`. `reap` and `claim` are the two statements of `PostgresJobQueue::claim`. -/
inductive Statement where
  | insert (job : NewJob) (began : Instant)
  | reap (lease : Duration)
  | claim (workerId : String)
  | complete (jobId : Uuid) (workerId : String) (attempt : Nat)
  | renew (jobId : Uuid) (workerId : String) (attempt : Nat)
  | fail (jobId : Uuid) (workerId : String) (attempt : Nat) (error : String)
      (retryDelay : Duration)
  | purge (completedOlderThan deadOlderThan : Duration)

namespace JobTable

/-- The reap statement's `expired` rows. -/
def expired (T : JobTable) (skip : List Uuid) (now : Instant) (lease : Duration) : List JobRow :=
  ((T.rows.filter fun r => r.leaseExpired now lease && !decide (r.id ∈ skip)).insertionSort
    reapOrder).take 1000

/-- The claim statement's `candidate` row. -/
def candidate (T : JobTable) (skip : List Uuid) (now : Instant) : Option JobRow :=
  ((T.rows.filter fun r => r.claimable now && !decide (r.id ∈ skip)).insertionSort
    claimOrder).head?

/-- `purge_terminal`'s `expired` rows. -/
def retired (T : JobTable) (skip : List Uuid) (now : Instant)
    (completedOlderThan deadOlderThan : Duration) : List JobRow :=
  (T.rows.filter fun r =>
    r.purgeable now completedOlderThan deadOlderThan && !decide (r.id ∈ skip)).take purgeBatchSize

end JobTable

/-- The effect of a statement at its `NOW()`, with the rows it affected. -/
def Statement.exec (skip : List Uuid) (now : Instant) (T : JobTable) :
    Statement → Except SqlError (JobTable × List JobRow)
  | .insert job began =>
    -- an invalid `max_attempts` is rejected before a statement is sent
    match validateMaxAttempts job.maxAttempts with
    | none => .error .refused
    | some maxAttempts => T.insert (job.row maxAttempts began)
  | .reap lease =>
    T.update (fun r => r.id ∈ (T.expired skip now lease).map JobRow.id) (JobRow.reaped now)
  | .claim workerId =>
    -- no candidate, no row: `some r.id` is never `none`
    T.update (fun r => (T.candidate skip now).map JobRow.id = some r.id)
      (JobRow.claimed now workerId)
  | .complete jobId workerId attempt =>
    T.update (JobRow.ownedBy jobId workerId attempt) (JobRow.completed now)
  | .renew jobId workerId attempt =>
    T.update (JobRow.ownedBy jobId workerId attempt) (JobRow.renewed now)
  | .fail jobId workerId attempt error retryDelay =>
    T.update (JobRow.ownedBy jobId workerId attempt) (JobRow.failed now error retryDelay)
  | .purge completedOlderThan deadOlderThan =>
    .ok (T.delete fun r =>
      r.id ∈ (T.retired skip now completedOlderThan deadOlderThan).map JobRow.id)

/-! ## Parameters

PostgreSQL reads the texts of a statement before anything else. A time is computed when the
statement is planned for these values, or with the first row that needs it: which of the two, is up
to the planner (`early`). -/

/-- The TEXT parameters of a statement, and the strings in its JSONB parameters. -/
def Statement.texts : Statement → List String
  | insert job _ => job.jobType :: (job.payload.strings ++ job.traceContext.strings)
  | reap _ => []
  | claim workerId => [workerId]
  | complete _ workerId _ => [workerId]
  | renew _ workerId _ => [workerId]
  | fail _ workerId _ error _ => [workerId, cutError error]
  | purge _ _ => []

/-- The first instant after the last `TIMESTAMPTZ`, the end of the year 294276. -/
def endTimestamp : Instant := 9435184819200000000 * 1000

/-- `$1 * INTERVAL '1 second'` is an `INTERVAL`: it has 64 bits of microseconds. -/
def isInterval (d : Duration) : Bool :=
  d < 2 ^ 63 * 1000

/-- `NOW() - $1 * INTERVAL '1 second'` is a timestamp. -/
def pastInRange (now : Instant) (d : Duration) : Bool :=
  isInterval d && d ≤ now

/-- `NOW() + $1 * INTERVAL '1 second'` is a timestamp. -/
def futureInRange (now : Instant) (d : Duration) : Bool :=
  isInterval d && now + d < endTimestamp

/-- The planner can compute what it finds in the statement: the bounds of a WHERE, and the
intervals of a `SET`. -/
def Statement.plannable (now : Instant) : Statement → Bool
  | reap lease => pastInRange now lease
  | fail _ _ _ _ retryDelay => isInterval retryDelay
  | purge completedOlderThan deadOlderThan =>
    pastInRange now completedOlderThan && pastInRange now deadOlderThan
  | _ => true

/-- A row needs a time that is no timestamp. -/
def Statement.overflows (skip : List Uuid) (now : Instant) (T : JobTable) : Statement → Bool
  | reap lease => !pastInRange now lease && T.rows.any fun r => r.status = .running
  | fail jobId workerId attempt _ retryDelay =>
    -- the CASE looks at the delay only while there are attempts left
    !futureInRange now retryDelay && T.rows.any fun r =>
      r.ownedBy jobId workerId attempt && decide (r.attempts < r.maxAttempts)
  | purge completedOlderThan deadOlderThan =>
    -- with a whole batch at hand no further row has to be looked at
    decide ((T.retired skip now completedOlderThan deadOlderThan).length < purgeBatchSize) &&
      (!pastInRange now completedOlderThan && (T.rows.any fun r => r.status = .completed) ||
        !pastInRange now deadOlderThan && T.rows.any fun r => r.status = .dead)
  | _ => false

/-- PostgreSQL executes the statement. -/
structure Statement.Accepted (early : Bool) (skip : List Uuid) (now : Instant) (T : JobTable)
    (statement : Statement) : Prop where
  texts : ∀ text ∈ statement.texts, IsText text
  plan : early = true → statement.plannable now = true
  rows : statement.overflows skip now T = false

/-- The effect of a statement that is sent with its parameters. -/
def Statement.execBound (early : Bool) (skip : List Uuid) (now : Instant) (T : JobTable)
    (statement : Statement) : Except SqlError (JobTable × List JobRow) :=
  if ∀ text ∈ statement.texts, IsText text then
    if early && !statement.plannable now || statement.overflows skip now T then
      .error .datetimeFieldOverflow
    else statement.exec skip now T
  else .error .invalidByteSequence

/-- A statement that is accepted has its effect, and any other one fails. -/
theorem Statement.execBound_cases (early : Bool) (skip : List Uuid) (now : Instant) (T : JobTable)
    (s : Statement) :
    (s.Accepted early skip now T ∧ s.execBound early skip now T = s.exec skip now T) ∨
      (¬ s.Accepted early skip now T ∧ ∃ e, s.execBound early skip now T = .error e) := by
  unfold execBound
  split
  · next htexts =>
    split
    · next hout =>
      refine Or.inr ⟨fun h => ?_, _, rfl⟩
      rw [Bool.or_eq_true, Bool.and_eq_true, Bool.not_eq_true', h.rows] at hout
      obtain ⟨hearly, hplan⟩ := hout.resolve_right Bool.false_ne_true
      rw [h.plan hearly] at hplan
      cases hplan
    · next hin =>
      rw [Bool.not_eq_true, Bool.or_eq_false_iff] at hin
      refine Or.inl ⟨⟨htexts, fun hearly => ?_, hin.2⟩, rfl⟩
      rw [hearly, Bool.true_and, Bool.not_eq_false'] at hin
      exact hin.1
  · next htexts => exact Or.inr ⟨fun h => htexts h.texts, _, rfl⟩

theorem Statement.Accepted.execBound {early : Bool} {skip : List Uuid} {now : Instant}
    {T : JobTable} {s : Statement} (h : s.Accepted early skip now T) :
    s.execBound early skip now T = s.exec skip now T := by
  rcases s.execBound_cases early skip now T with ⟨_, hexec⟩ | ⟨hrefused, _⟩
  · exact hexec
  · exact absurd h hrefused

/-- A statement that is not executed leaves the table as it is. -/
def tableAfter (T : JobTable) : Except SqlError (JobTable × List JobRow) → JobTable
  | .error _ => T
  | .ok (T', _) => T'

/-! ## The adapter's reading of an answer

What the methods of `PostgresJobQueue` make of the rows a statement has returned. Any error of the
database is `Unavailable`. -/

/-- `u32::try_from` of an INTEGER column. -/
def u32TryFrom (value : Int) : Option Nat :=
  if 0 ≤ value then some value.toNat else none

/-- `ClaimedJobRow::into_application`. -/
def JobRow.intoApplication (r : JobRow) : Except JobQueueError ClaimedJob :=
  match u32TryFrom r.attempts with
  | none => .error .unavailable
  | some attempts =>
    match u32TryFrom r.maxAttempts with
    | none => .error .unavailable
    | some maxAttempts =>
      .ok
        { id := r.id
          jobType := r.jobType
          payload := r.payload
          traceContext := r.traceContext
          attempts := attempts
          maxAttempts := maxAttempts }

/-- `ensure_lease`. -/
def ensureLease (rowsAffected : Nat) : Except JobQueueError Unit :=
  if rowsAffected = 1 then .ok () else .error .leaseLost

namespace PostgresJobQueue

/-- What the adapter returns for a statement, given how it reads the affected rows; every
`sqlx::Error` becomes `Unavailable`. -/
def answer {α : Type} (read : List JobRow → Except JobQueueError α)
    (result : Except SqlError (JobTable × List JobRow)) : Except JobQueueError α :=
  match result with
  | .error _ => .error .unavailable
  | .ok (_, rows) => read rows

/-- `fetch_optional` and `into_application` on the rows of the claim statement. -/
def readClaim : List JobRow → Except JobQueueError (Option ClaimedJob)
  | [] => .ok none
  | row :: _ => row.intoApplication.map some

/-- `complete` and `renew` count the affected rows. -/
def readLease (rows : List JobRow) : Except JobQueueError Unit :=
  ensureLease rows.length

/-- `fail` matches on the returned status; anything but the two statuses its own CASE produces
is the `invalid status` branch. -/
def readFail : List JobRow → Except JobQueueError JobDisposition
  | [] => .error .leaseLost
  | row :: _ =>
    match row.status with
    | .pending => .ok .retryScheduled
    | .dead => .ok .deadLettered
    -- the branch that logs `job failure returned an invalid status`
    | .running => .error .unavailable
    | .completed => .error .unavailable

/-- `purge_terminal` returns the number of deleted rows. -/
def readPurge (rows : List JobRow) : Except JobQueueError Nat :=
  .ok rows.length

end PostgresJobQueue

end BaseSkeleton.Job
