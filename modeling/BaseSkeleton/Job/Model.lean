import BaseSkeleton.Basic

/-!
# Jobs and the queue port

The application's view of the job queue: `src/application/job/model.rs` and the error and result
types of `src/application/job/ports.rs`.
-/

namespace BaseSkeleton.Job

/-- Maximum terminal jobs a single `purgeTerminal` call may delete. -/
def purgeBatchSize : Nat := 1000

/-- A job as it is enqueued. `traceContext` is opaque to the application. -/
structure NewJob where
  id : Uuid
  jobType : String
  payload : Value
  traceContext : Value
  maxAttempts : Nat

/-- `NewJob::new`, with the identifier it draws. -/
def NewJob.new (id : Uuid) (jobType : String) (payload : Value) (maxAttempts : Nat) : NewJob where
  id := id
  jobType := jobType
  payload := payload
  traceContext := .object []
  maxAttempts := maxAttempts

/-- `NewJob::with_trace_context`. -/
def NewJob.withTraceContext (job : NewJob) (traceContext : Value) : NewJob :=
  { job with traceContext := traceContext }

/-- The type of the job that is stored with a new user. -/
def userCreatedJob : String := "user.created"

/-- A job as `claim` hands it to a worker; `attempts` is the current attempt, starting at one. -/
structure ClaimedJob where
  id : Uuid
  jobType : String
  payload : Value
  traceContext : Value
  attempts : Nat
  maxAttempts : Nat

inductive JobDisposition where
  | retryScheduled
  | deadLettered
deriving DecidableEq

inductive JobQueueError where
  | unavailable
  | leaseLost
deriving DecidableEq

structure JobHandlerError where
  message : String
deriving DecidableEq

end BaseSkeleton.Job
