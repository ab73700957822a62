import BaseSkeleton.Job.Fencing
import BaseSkeleton.Job.World

/-!
# Reporting a failed attempt

The failure branch of `run_once` up to the row it leaves behind, with what its statement binds:
PostgreSQL does not execute a statement with U+0000 in a text, or with a delay that leads out of the
timestamps.

* `cutError_longest` — what `fail` stores of a message.
* `exec_fail_owned` — the row a report of its owner leaves behind, if the statement is executed.
* `failure_recorded_iff` — which failures the owner can report.
-/

namespace BaseSkeleton.Job

/-! ## The stored message

`cut_error` counts scalar values, as `chars().take(4000)` does, not bytes. -/

/-- `cut` is the longest prefix of `message` with at most `n` scalar values. -/
structure IsLongestPrefix (n : Nat) (message cut : String) : Prop where
  begins : cut.toList <+: message.toList
  short : cut.toList.length ≤ n
  longest : ∀ other, other <+: message.toList → other.length ≤ n → other <+: cut.toList

/-- **What is stored** is the longest beginning of at most 4000 scalar values. -/
theorem cutError_longest (error : String) : IsLongestPrefix 4000 error (cutError error) where
  begins := by
    rw [cutError, String.toList_ofList]
    exact List.take_prefix 4000 error.toList
  short := by
    rw [cutError, String.toList_ofList]
    exact List.length_take_le 4000 error.toList
  longest other hother hshort := by
    rw [cutError, String.toList_ofList, List.prefix_take_iff]
    exact ⟨hother, hshort⟩

/-! ## The report

From the poll in which the handler's error is seen to the poll in which the run returns, with the
statement in between; nobody else touches the row meanwhile. -/

/-- The end of a run whose handler has failed, on a database that executes the statement at `now`
and answers in time: the run sends its report at `p`, and is answered at `answeredAt`. -/
def JobWorker.report (w : JobWorker) (s : RunOnce) (p : Poll) (answeredAt : Instant) (early : Bool)
    (skip : List Uuid) (now : Instant) (T : JobTable) : Option (RunOnce × JobTable) := do
  let sent ← w.poll s p
  let statement ← sent.phase.statement w
  let result := statement.execBound early skip now T
  let answered ← w.poll sent
    { now := answeredAt
      fail := some (PostgresJobQueue.answer PostgresJobQueue.readFail result) }
  return (answered, tableAfter T result)

/-- The row after a failed attempt was recorded. -/
structure JobRow.FailureRecorded (message : String) (now : Instant) (delay : Duration)
    (r r' : JobRow) : Prop where
  lastError : ∃ cut, r'.lastError = some cut ∧ IsLongestPrefix 4000 message cut
  retried : r.attempts < r.maxAttempts → r'.status = .pending ∧ r'.availableAt = now + delay
  dead : r.maxAttempts ≤ r.attempts → r'.status = .dead
  unlocked : r'.lockedAt = none ∧ r'.lockedBy = none

/-- What a run returns once the failure was recorded. -/
def JobRow.failureOutcome (r : JobRow) : RunOutcome :=
  if r.attempts < r.maxAttempts then .retryScheduled else .deadLettered

/-- What `fail` writes records the failure. -/
theorem failed_recorded (r : JobRow) (message : String) (now : Instant) (delay : Duration) :
    r.FailureRecorded message now delay (r.failed now message delay) where
  lastError := ⟨cutError message, rfl, cutError_longest message⟩
  retried h := by
    have hbudget : ¬ r.attempts ≥ r.maxAttempts := Int.not_le.mpr h
    exact ⟨if_neg hbudget, if_neg hbudget⟩
  dead h := if_pos h
  unlocked := ⟨rfl, rfl⟩

/-- What `fail` reads from the row it wrote is how the run ends. -/
theorem readFail_failed_row (r : JobRow) (message : String) (now : Instant) (delay : Duration) :
    (PostgresJobQueue.readFail [r.failed now message delay]).map JobDisposition.outcome =
      .ok r.failureOutcome := by
  unfold JobRow.failureOutcome
  by_cases h : r.attempts < r.maxAttempts
  · have hbudget : ¬ r.attempts ≥ r.maxAttempts := Int.not_le.mpr h
    simp only [PostgresJobQueue.readFail, JobRow.failed, JobRow.releasedStatus, if_neg hbudget,
      if_pos h]
    rfl
  · have hbudget : r.attempts ≥ r.maxAttempts := Int.not_lt.mp h
    simp only [PostgresJobQueue.readFail, JobRow.failed, JobRow.releasedStatus, if_pos hbudget,
      if_neg h]
    rfl

/-! ## The two steps of the run

The first sends the statement, the second hears its answer. Neither depends on what the message is.
-/

section Run

variable {w : JobWorker} {s : RunOnce} {p : Poll} {job : ClaimedJob} {error : JobHandlerError}
  {deadline : Instant}

/-- Before the deadline the failure is sent, with the delay of its attempt. -/
theorem poll_sendFail (hphase : s.phase = .settled job (.error error) deadline)
    (hclock : s.now ≤ p.now) (hintime : p.now < deadline) :
    w.poll s p = some (s.record p.now
      (.failSent error.message (retryDelay w.config.retryBase w.config.retryMax job.attempts))
      (.failing job error.message
        (retryDelay w.config.retryBase w.config.retryMax job.attempts) deadline)) := by
  unfold JobWorker.poll
  rw [if_neg (Nat.not_lt.mpr hclock), hphase]
  exact if_neg (Nat.not_le.mpr hintime)

/-- The run ends with the answer. -/
theorem poll_failAnswered {message : String} {delay : Duration}
    {answer : Except JobQueueError JobDisposition}
    (hphase : s.phase = .failing job message delay deadline) (hclock : s.now ≤ p.now)
    (hanswer : p.fail = some answer) :
    w.poll s p = some (s.record p.now (.failAnswered answer)
      (.returned (answer.map JobDisposition.outcome))) := by
  unfold JobWorker.poll
  rw [if_neg (Nat.not_lt.mpr hclock), hphase]
  simp only [hanswer]

/-- A run that reports in time returns what the database answers. -/
theorem report_answered (hphase : s.phase = .settled job (.error error) deadline)
    (hclock : s.now ≤ p.now) (hintime : p.now < deadline) {answeredAt : Instant}
    (hanswered : p.now ≤ answeredAt) (early : Bool) (skip : List Uuid) (now : Instant)
    (T : JobTable) {result : Except SqlError (JobTable × List JobRow)}
    (hresult : (Statement.fail job.id w.config.workerId job.attempts error.message
      (retryDelay w.config.retryBase w.config.retryMax job.attempts)).execBound early skip now T =
        result) :
    ∃ s', w.report s p answeredAt early skip now T = some (s', tableAfter T result) ∧
      s'.phase = .returned ((PostgresJobQueue.answer PostgresJobQueue.readFail result).map
        JobDisposition.outcome) := by
  unfold JobWorker.report
  rw [poll_sendFail hphase hclock hintime]
  simp only [Option.bind_eq_bind, Option.bind_some, RunOnce.record, Phase.statement, hresult]
  rw [poll_failAnswered rfl hanswered rfl]
  exact ⟨_, rfl, rfl⟩

end Run

/-! ## The statement of an owner

Of the parameters only two can stop the statement: the message, which the handler chooses, and the
delay, which the configuration does. -/

section Owned

variable {id : Uuid} {workerId message : String} {attempt : Nat} {now : Instant}
  {delay : Duration} {T : JobTable} {r : JobRow} (skip : List Uuid)

/-- A report of the owner that is executed records the failure in its row, and touches no other. -/
theorem exec_fail_owned (hrow : T.find id = some r)
    (howned : r.ownedBy id workerId attempt = true) :
    ∃ T', (Statement.fail id workerId attempt message delay).exec skip now T =
        .ok (T', [r.failed now message delay]) ∧
      T'.find id = some (r.failed now message delay) ∧
      ∀ other, other ≠ id → T'.find other = T.find other := by
  obtain ⟨T', hexec, hfind, hframe, _⟩ :=
    exec_fenced_owned skip now (.fail message delay) hrow howned
  exact ⟨T', hexec, hfind, hframe⟩

/-- PostgreSQL executes the report of an attempt: the message can be stored, and the delay leads to
a timestamp if there is an attempt left to delay. -/
def Reportable (early : Bool) (now : Instant) (r : JobRow) (message : String) (delay : Duration) :
    Prop :=
  '\x00' ∉ message.toList.take 4000 ∧ (early = true → isInterval delay = true) ∧
    (futureInRange now delay = true ∨ r.maxAttempts ≤ r.attempts)

/-- **PostgreSQL executes the report** of an owner with a proper worker id exactly if it is
reportable. -/
theorem accepted_iff_reportable {early : Bool} (hrow : T.find id = some r)
    (howned : r.ownedBy id workerId attempt = true) (hworker : IsText workerId) :
    (Statement.fail id workerId attempt message delay).Accepted early skip now T ↔
      Reportable early now r message delay := by
  have hfenced : Statement.fail id workerId attempt message delay =
      (Fenced.fail message delay).statement id workerId attempt := rfl
  rw [hfenced, accepted_iff]
  constructor
  · intro h
    obtain ⟨_, hmessage, hplan, hdelay⟩ := h
    exact ⟨hmessage, hplan, hdelay.imp_right fun hbudget => hbudget r hrow howned⟩
  · intro h
    obtain ⟨hmessage, hplan, hdelay⟩ := h
    refine ⟨hworker, hmessage, hplan, hdelay.imp_right fun hbudget r' hr' _ => ?_⟩
    cases hrow.symm.trans hr'
    exact hbudget

end Owned

/-! ## The failures an owner can report

If the report is refused nothing is recorded: the row stays as it was, and the run ends with an
error. -/

/-- The failure was recorded in the row of the job, and the run says what became of it. -/
def ReportRecorded (w : JobWorker) (job : ClaimedJob) (error : JobHandlerError) (now : Instant)
    (r : JobRow) (s : RunOnce) (T : JobTable) : Prop :=
  (∃ r', T.find job.id = some r' ∧
    r.FailureRecorded error.message now
      (retryDelay w.config.retryBase w.config.retryMax job.attempts) r') ∧
  s.phase = .returned (.ok r.failureOutcome)

/-- **When a failure is recorded.** A run whose handler failed reports it before its deadline, as
the owner of a row of `T`, to a database that answers. The failure is recorded exactly if there is
no U+0000 among the first 4000 scalar values of the message, and the backoff leads to a timestamp or
is not needed; otherwise nothing changes. -/
theorem failure_recorded_iff {w : JobWorker} {s : RunOnce} {p : Poll} {job : ClaimedJob}
    {error : JobHandlerError} {deadline answeredAt now : Instant} {T : JobTable} {r : JobRow}
    (early : Bool) (skip : List Uuid) (hphase : s.phase = .settled job (.error error) deadline)
    (hclock : s.now ≤ p.now) (hintime : p.now < deadline) (hanswered : p.now ≤ answeredAt)
    (hrow : T.find job.id = some r)
    (howned : r.ownedBy job.id w.config.workerId job.attempts = true)
    (hstored : ∀ workerId ∈ r.lockedBy, IsText workerId) :
    ∃ s' T', w.report s p answeredAt early skip now T = some (s', T') ∧
      (∀ other, other ≠ job.id → T'.find other = T.find other) ∧
      (ReportRecorded w job error now r s' T' ↔ Reportable early now r error.message
        (retryDelay w.config.retryBase w.config.retryMax job.attempts)) ∧
      (¬ Reportable early now r error.message
        (retryDelay w.config.retryBase w.config.retryMax job.attempts) → T' = T) := by
  obtain ⟨_, hrunning, hholder, _⟩ := JobRow.ownedBy_iff.mp howned
  have hworker : IsText w.config.workerId := hstored _ hholder
  have hreportable := @accepted_iff_reportable job.id w.config.workerId error.message job.attempts
    now (retryDelay w.config.retryBase w.config.retryMax job.attempts) T r skip early hrow howned
    hworker
  rcases (Statement.fail job.id w.config.workerId job.attempts error.message (retryDelay
      w.config.retryBase w.config.retryMax job.attempts)).execBound_cases early skip now T with
    ⟨haccepted, hbound⟩ | ⟨hrefused, e, hbound⟩
  · obtain ⟨T', hexec, hfind, hframe⟩ := exec_fail_owned skip hrow howned
    obtain ⟨s', hreport, hs'⟩ := report_answered hphase hclock hintime hanswered early skip now T
      (hbound.trans hexec)
    refine ⟨s', T', hreport, hframe, ?_, fun hnot => absurd (hreportable.mp haccepted) hnot⟩
    have hrecorded : ReportRecorded w job error now r s' T' :=
      ⟨⟨_, hfind, failed_recorded r _ now _⟩,
        hs'.trans (congrArg _ (readFail_failed_row r _ now _))⟩
    exact iff_of_true hrecorded (hreportable.mp haccepted)
  · -- the run returns an error, which is not what it returns of a recorded failure
    obtain ⟨s', hreport, hs'⟩ := report_answered hphase hclock hintime hanswered early skip now T
      hbound
    refine ⟨s', T, hreport, fun _ _ => rfl, ?_, fun _ => rfl⟩
    refine iff_of_false (fun hrecorded => ?_) fun hnot => hrefused (hreportable.mpr hnot)
    cases hs'.symm.trans hrecorded.2

/-! ## A message with a NUL

The handler of the sample fails with a text that PostgreSQL does not store. The worker reports it,
the statement is refused, and the attempt stays open until its lease is reaped. -/

/-- The first attempt of a job, held by `worker-1`. -/
def ownedRow : JobRow where
  id := 1
  jobType := "user.created"
  payload := .null
  traceContext := .null
  status := .running
  attempts := 1
  maxAttempts := 5
  availableAt := 0
  lockedAt := some 10
  lockedBy := some "worker-1"
  lastError := none
  createdAt := 0
  updatedAt := 10
  completedAt := none

def ownedTable : JobTable :=
  ⟨[ownedRow], List.nodup_singleton _, fun r hr => by
    rw [List.mem_singleton.mp hr]
    decide⟩

def reportingWorker : JobWorker :=
  ⟨["user.created"], ⟨"worker-1", 300, 5, 300⟩⟩

def ownedJob : ClaimedJob :=
  ⟨1, "user.created", .null, .null, 1, 5⟩

/-- The handler of `reportingWorker` has failed, ten ticks after the claim. -/
def failedRun (message : String) : RunOnce :=
  ⟨10, 20, .settled ownedJob (.error ⟨message⟩) 310, []⟩

theorem failure_recorded_iff_boom :
    ∃ s' T', reportingWorker.report (failedRun "boom") { now := 30 } 40 true [] 35 ownedTable =
        some (s', T') ∧
      ReportRecorded reportingWorker ownedJob ⟨"boom"⟩ 35 ownedRow s' T' := by
  have hstored : ∀ workerId ∈ ownedRow.lockedBy, IsText workerId := by
    intro workerId hworker
    cases hworker
    decide
  obtain ⟨s', T', hreport, _, hiff, _⟩ :=
    @failure_recorded_iff reportingWorker (failedRun "boom") { now := 30 } ownedJob ⟨"boom"⟩
      310 40 35 ownedTable ownedRow true [] rfl (by decide) (by decide) (by decide) rfl (by decide)
      hstored
  exact ⟨s', T', hreport, hiff.mpr ⟨by decide, fun _ => by decide, Or.inl (by decide)⟩⟩

/-- The message is refused, and the job is still running. -/
theorem nul_message_not_recorded :
    (ownedTable.find ownedJob.id).map JobRow.status = some .running ∧
      ∀ early, ∃ s', reportingWorker.report (failedRun "bad input: \x00") { now := 30 } 40 early []
          35 ownedTable = some (s', ownedTable) ∧
        s'.phase = .returned (.error .unavailable) :=
  ⟨rfl, fun _ => ⟨_, rfl, rfl⟩⟩

end BaseSkeleton.Job
