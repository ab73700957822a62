import BaseSkeleton.Lib.Linearized
import BaseSkeleton.Users.Coherence

/-!
# One request alone

`build_cache` of `src/bootstrap/dependencies.rs` puts `RedisUserCache` or `NoOpUserCache`
(`src/infrastructure/cache/noop.rs`) under the use cases. What a request does when it is alone with
the database is how it runs over a cache that holds nothing; the failures of its calls are part of
its circumstances, and the reply to a statement may be lost after the statement was executed.

* `UserService.object_lawful` — next to others a request does what it does alone, at its call of
  the repository.
-/

namespace BaseSkeleton.Users

open Text (CaseMapping)
open Program (Exchange)

variable {u : CaseMapping}

/-! ## The cache that is not there

`NoOpUserCache` finds nothing, keeps nothing and never fails. -/

namespace NoOpUserCache

def get (u : CaseMapping) (_ : UserId) : Except CacheError (Option (User u)) :=
  .ok none

def set (_ : User u) (_ : Nat) : Except CacheError Unit :=
  .ok ()

def delete (_ : UserId) : Except CacheError Unit :=
  .ok ()

end NoOpUserCache

/-- The adapters `build_cache` chooses from. -/
inductive CacheAdapter where
  | noOp
  | redis
deriving DecidableEq

/-- What the outcome of a call depends on, with what becomes of the reply. -/
structure Fate where
  circumstances : Circumstances
  /-- a statement was executed, and the error of a lost connection is returned -/
  replyLost : Bool

/-- What a call finds and leaves behind, over either cache. -/
def CacheAdapter.answer (cache : CacheAdapter) (w : Fate) :
    (c : Call u) → Stores → Reply u c × Stores
  | .findById id, s =>
    (if w.replyLost then .error .unavailable
      else (Users.answer w.circumstances (.findById (u := u) id) s).1, s)
  | .update id email displayName, s =>
    let done := Users.answer w.circumstances (.update id email displayName) s
    (if w.replyLost then .error .unavailable else done.1, done.2)
  | .delete id, s =>
    let done := Users.answer w.circumstances (.delete (u := u) id) s
    (if w.replyLost then .error .unavailable else done.1, done.2)
  -- a lost reply is an outcome of the COMMIT
  | .createWithJob user job, s => Users.answer w.circumstances (.createWithJob user job) s
  | .cacheGet id, s =>
    match cache with
    | .noOp => (NoOpUserCache.get u id, s)
    | .redis => Users.answer w.circumstances (.cacheGet (u := u) id) s
  | .cacheSet user ttlSeconds, s =>
    match cache with
    | .noOp => (NoOpUserCache.set user ttlSeconds, s)
    | .redis => Users.answer w.circumstances (.cacheSet user ttlSeconds) s
  | .cacheDelete id, s =>
    match cache with
    | .noOp => (NoOpUserCache.delete id, s)
    | .redis => Users.answer w.circumstances (.cacheDelete (u := u) id) s

variable {cache : CacheAdapter} {w : Fate} {c : Call u}

/-- Only the repository changes the database. -/
theorem answer_database (h : c.asksRepository = false) (s : Stores) :
    (cache.answer w c s).2.database = s.database := by
  cases c with
  | cacheGet id => cases cache <;> rfl
  | cacheSet user ttlSeconds => cases cache <;> rfl
  | cacheDelete id => cases cache <;> rfl
  | _ => cases h

/-! ## The server

The part of the stores that counts is the database. A request is served with its call of the
repository. -/

/-- The server over a database and a cache, which is empty. -/
def UserService.setupOver (service : UserService) (u : CaseMapping) (cache : CacheAdapter)
    (database : Database) : Pool.Setup (Reply u) Stores Request Fate UserId (Response u) where
  program := service.program
  handler := cache.answer
  disturb id s := { s with entries := Function.update s.entries id none }
  init := ⟨database, fun _ => none⟩

/-- A request that has the database for itself. -/
def UserService.alone (service : UserService) (u : CaseMapping) (request : Request) (w : Fate)
    (database : Database) : Response u × Database :=
  let done := (service.program request).eval (CacheAdapter.noOp.answer w)
    ⟨database, fun _ => none⟩
  (done.1, done.2.database)

/-- The server as it looks to its clients: it runs each request alone. -/
def UserService.object (service : UserService) (u : CaseMapping) (database : Database) :
    Pool.Object (Call u) Stores Request Fate (Response u) Database :=
  .alone Stores.database Call.asksRepository (fun database => ⟨database, fun _ => none⟩)
    (service.setupOver u .noOp database)

variable {service : UserService} {database : Database} {id : UserId}

/-- Both caches leave the answers to the repository. -/
theorem answer_agrees (h : c.asksRepository = true) {s s' : Stores}
    (hs : s'.database = s.database) :
    (cache.answer w c s).1 = (CacheAdapter.noOp.answer w c s').1 ∧
      (cache.answer w c s).2.database = (CacheAdapter.noOp.answer w c s').2.database := by
  obtain ⟨database, entries⟩ := s
  obtain ⟨database', entries'⟩ := s'
  obtain rfl : database' = database := hs
  cases c with
  | cacheGet id => cases h
  | cacheSet user ttlSeconds => cases h
  | cacheDelete id => cases h
  | _ => exact ⟨rfl, rfl⟩

/-- The request waits with a call of the repository, after which it closes. -/
theorem waiting_repository {request : Request} {k : Reply u c → UseCase u (Response u)}
    (hc : c.asksRepository = true)
    (hcomes : ∀ (w : Fate) (database : Database),
      (service.program request).eval (CacheAdapter.noOp.answer w) ⟨database, fun _ => none⟩ =
        (Program.call c k).eval (CacheAdapter.noOp.answer w) ⟨database, fun _ => none⟩)
    (hk : ∀ r, ∃ a, Pool.Object.Closed Call.asksRepository a (k r)) :
    (service.object u database).Waiting (service.setupOver u cache database) request
      (.call c k) := by
  unfold UserService.object
  refine Pool.Object.waiting_alone hc (fun w c s h => answer_database h s) ?_ ?_ hk
  · intro w s s' hs
    exact answer_agrees hc hs
  · intro w v
    exact ⟨⟨v, fun _ => none⟩, rfl, hcomes w v⟩

/-! ## What a request asks the repository

A valid request makes exactly one call of the repository and concludes its result from the reply; an
invalid one makes none. The calls of the cache around it decide nothing of that. -/

/-- Both fields of an input. -/
def UserInput.parse (u : CaseMapping) (input : UserInput) :
    Except UserError (Email u × DisplayName) := do
  let email ← Email.parse input.email
  let displayName ← DisplayName.parse input.displayName
  return (email, displayName)

/-- The program makes the call `c` of the repository, and then returns what it concludes from the
reply, without another one. -/
def Asks (program : UseCase u (Response u)) (c : Call u) (conclude : Reply u c → Response u) :
    Prop :=
  ∃ k, program = .call c k ∧ ∀ r, Pool.Object.Closed Call.asksRepository (conclude r) (k r)

/-- The repository returned a user, or an error. -/
def fromWrite (reply : Except RepositoryError (User u)) : Response u :=
  (reply.mapError .fromRepository).map some

/-- The repository deleted a user, or found none. -/
def fromDelete : Except RepositoryError Bool → Response u
  | .error e => .error (.fromRepository e)
  | .ok false => .error .notFound
  | .ok true => .ok none

variable {now : Instant} {input : UserInput} {email : Email u} {displayName : DisplayName}
  {e : UserError}

theorem UserInput.parse_eq_ok : input.parse u = .ok (email, displayName) ↔
    Email.parse input.email = .ok email ∧ DisplayName.parse input.displayName = .ok displayName := by
  simp only [UserInput.parse, Except.bind_eq_ok, Except.pure_eq_ok, Prod.mk.injEq]
  constructor
  · rintro ⟨_, hemail, _, hname, rfl, rfl⟩
    exact ⟨hemail, hname⟩
  · rintro ⟨hemail, hname⟩
    exact ⟨_, hemail, _, hname, rfl, rfl⟩

theorem UserInput.parse_eq_error : input.parse u = .error e ↔
    Email.parse (u := u) input.email = .error e ∨
      ∃ email : Email u, Email.parse input.email = .ok email ∧
        DisplayName.parse input.displayName = .error e := by
  unfold UserInput.parse
  cases Email.parse (u := u) input.email with
  | error e' => simp [bind, Except.bind]
  | ok email =>
    cases DisplayName.parse input.displayName with
    | error e' => simp [bind, Except.bind]
    | ok displayName => simp [bind, Except.bind, pure, Except.pure]

theorem createUser_asks (h : input.parse u = .ok (email, displayName)) :
    Asks (service.program (.create id now input))
      (.createWithJob (.new id now email displayName) (service.createUser.job service.uuid id))
      fromWrite := by
  obtain ⟨hemail, hname⟩ := UserInput.parse_eq_ok.mp h
  unfold Asks UserService.program CreateUserUseCase.execute
  simp only
  rw [hemail, hname]
  refine ⟨_, rfl, fun reply => ?_⟩
  cases reply with
  | error e => exact rfl
  | ok created => exact ⟨rfl, fun _ => rfl⟩

theorem createUser_invalid (h : input.parse u = .error e) :
    service.program (u := u) (.create id now input) = .ret (.error (.invalidInput e)) := by
  unfold UserService.program CreateUserUseCase.execute
  simp only
  rcases UserInput.parse_eq_error.mp h with hemail | ⟨email, hemail, hname⟩
  · rw [hemail]
    rfl
  · rw [hemail, hname]
    rfl

theorem updateUser_asks (h : input.parse u = .ok (email, displayName)) :
    Asks (service.program (.update id input)) (.update id email displayName) fromWrite := by
  obtain ⟨hemail, hname⟩ := UserInput.parse_eq_ok.mp h
  unfold Asks UserService.program UpdateUserUseCase.execute
  simp only
  rw [hemail, hname]
  refine ⟨_, rfl, fun reply => ?_⟩
  cases reply with
  | error e => exact rfl
  | ok updated =>
    refine ⟨rfl, fun cached => ?_⟩
    cases cached with
    | ok _ => exact rfl
    | error e => exact ⟨rfl, fun _ => rfl⟩

theorem updateUser_invalid (h : input.parse u = .error e) :
    service.program (u := u) (.update id input) = .ret (.error (.invalidInput e)) := by
  unfold UserService.program UpdateUserUseCase.execute
  simp only
  rcases UserInput.parse_eq_error.mp h with hemail | ⟨email, hemail, hname⟩
  · rw [hemail]
    rfl
  · rw [hemail, hname]
    rfl

theorem deleteUser_asks :
    Asks (service.program (u := u) (.delete id)) (.delete id) fromDelete := by
  unfold Asks UserService.program DeleteUserUseCase.execute
  refine ⟨_, rfl, fun reply => ?_⟩
  cases reply with
  | error e => exact rfl
  | ok deleted =>
    cases deleted with
    | false => exact rfl
    | true => exact ⟨rfl, fun _ => rfl⟩

/-- `GetUser` when the cache has no answer. -/
theorem load_asks (useCase : GetUserUseCase) (id : UserId) :
    Asks ((useCase.load (u := u) id).map fun result => result.map some) (.findById id)
      fromRepository := by
  unfold Asks GetUserUseCase.load
  refine ⟨_, rfl, fun reply => ?_⟩
  cases reply with
  | error e => exact rfl
  | ok found =>
    cases found with
    | none => exact rfl
    | some user => exact ⟨rfl, fun _ => rfl⟩

variable (service id) in
/-- `GetUser` asks the cache first. -/
theorem getUser_asks : ∃ k, service.program (u := u) (.get id) = .call (.cacheGet id) k ∧
    ∀ cached, (∃ user, k cached = .ret (.ok (some user))) ∨
      k cached = (service.getUser.load id).map fun result => result.map some := by
  unfold UserService.program GetUserUseCase.execute
  refine ⟨_, rfl, fun cached => ?_⟩
  cases cached with
  | error e => exact Or.inr rfl
  | ok found =>
    cases found with
    | none => exact Or.inr rfl
    | some user => exact Or.inl ⟨user, rfl⟩

/-! ## Next to others -/

theorem object_waiting (request : Request) :
    (service.object u database).Waiting (service.setupOver u cache database) request
      (service.program request) := by
  have hinvalid : ∀ e, service.program (u := u) request = .ret (.error (.invalidInput e)) →
      (service.object u database).Waiting (service.setupOver u cache database) request
        (service.program request) := by
    intro e h
    rw [h]
    exact Pool.Object.waiting_ret
  have hasks : ∀ {c : Call u} {conclude : Reply u c → Response u}, c.asksRepository = true →
      Asks (service.program request) c conclude →
      (service.object u database).Waiting (service.setupOver u cache database) request
        (service.program request) := by
    intro c conclude hc h
    obtain ⟨k, hprogram, hk⟩ := h
    rw [hprogram]
    exact waiting_repository hc (fun w db => by rw [hprogram]) fun r => ⟨_, hk r⟩
  cases request with
  | create id now input =>
    cases hinput : input.parse u with
    | error e => exact hinvalid e (createUser_invalid hinput)
    | ok fields => exact hasks rfl (createUser_asks hinput)
  | get id =>
    obtain ⟨k, hprogram, hk⟩ := getUser_asks (u := u) service id
    rw [hprogram, Pool.Object.waiting_silent rfl]
    intro w s
    rcases hk _ with ⟨user, hcached⟩ | hmissed
    · rw [hcached]
      exact Pool.Object.waiting_ret
    · obtain ⟨k', hload, hk'⟩ := load_asks (u := u) service.getUser id
      rw [hmissed, hload]
      refine waiting_repository rfl (fun w db => ?_) fun r => ⟨_, hk' r⟩
      -- alone, it finds nothing in the cache
      rw [← hload]
      rfl
  | update id input =>
    cases hinput : input.parse u with
    | error e => exact hinvalid e (updateUser_invalid hinput)
    | ok fields => exact hasks rfl (updateUser_asks hinput)
  | delete id => exact hasks rfl deleteUser_asks

/-- **The server does what its object does.** -/
theorem object_lawful : (service.object u database).Lawful (service.setupOver u cache database) where
  waiting := object_waiting
  silent _ _ s h := answer_database h s
  disturbed _ _ := rfl

/-! ## What a request does alone

The same program over a cache that holds nothing, up to its result. -/

theorem alone_invalid {request : Request}
    (h : service.program (u := u) request = .ret (.error (.invalidInput e))) :
    service.alone u request w database = (.error (.invalidInput e), database) := by
  unfold UserService.alone
  rw [h]
  rfl

/-- A program that asks the repository alone concludes from its answer, and changes no more. -/
theorem eval_asks {program : UseCase u (Response u)} {conclude : Reply u c → Response u}
    (h : Asks program c conclude) (s : Stores) :
    (program.eval (CacheAdapter.noOp.answer w) s).1 =
        conclude (CacheAdapter.noOp.answer w c s).1 ∧
      (program.eval (CacheAdapter.noOp.answer w) s).2.database =
        (CacheAdapter.noOp.answer w c s).2.database := by
  obtain ⟨k, rfl, hk⟩ := h
  exact (hk _).eval (fun c s hc => answer_database hc s) (CacheAdapter.noOp.answer w c s).2

theorem alone_asks {request : Request} {conclude : Reply u c → Response u}
    (h : Asks (service.program request) c conclude) :
    service.alone u request w database =
      (conclude (CacheAdapter.noOp.answer w c ⟨database, fun _ => none⟩).1,
        (CacheAdapter.noOp.answer w c ⟨database, fun _ => none⟩).2.database) :=
  Prod.ext (eval_asks h _).1 (eval_asks h _).2

/-- Alone, `GetUser` finds nothing in the cache. -/
theorem alone_get : service.alone u (.get id) w database =
    (fromRepository (CacheAdapter.noOp.answer w (Call.findById (u := u) id)
      ⟨database, fun _ => none⟩).1, database) :=
  Prod.ext (eval_asks (load_asks service.getUser id) _).1
    (eval_asks (load_asks service.getUser id) _).2

/-! ## How a registration ends

The replies of `create_with_job`, with what the transaction has left behind in each case. -/

theorem fromSqlx_cases (e : SqlxError) : RepositoryError.fromSqlx e = .duplicateEmail ∨
    RepositoryError.fromSqlx e = .unavailable := by
  cases e with
  | uniqueViolation constraint =>
    by_cases hemail : constraint = "users_email_unique" ∨ constraint = "users_email_key"
    · exact Or.inl (if_pos hemail)
    · exact Or.inr (if_neg hemail)
  | other => exact Or.inr rfl

theorem transact_eq_error {t : Transaction} {row : UserRow} {job : Job.NewJob}
    {maxAttempts : Int} {db : Database} {e : RepositoryError}
    (h : transact t row job maxAttempts db = .error e) :
    e = .unavailable ∨ ∃ e', db.users.insert row = .error e' ∧ e = .fromSqlx e' := by
  unfold transact at h
  cases hbegin : t.beginFails with
  | true =>
    rw [hbegin] at h
    cases h
    exact Or.inl rfl
  | false =>
    cases hinsert : t.insertUserFails with
    | true =>
      rw [hbegin, hinsert] at h
      cases h
      exact Or.inl rfl
    | false =>
      rw [hbegin, hinsert] at h
      cases husers : db.users.insert row with
      | error e' =>
        rw [husers] at h
        cases h
        exact Or.inr ⟨e', rfl, rfl⟩
      | ok users =>
        rw [husers] at h
        left
        cases hjobs : (if t.insertJobFails = true then .error .refused
            else db.jobs.insert (job.row maxAttempts t.began)) with
        | error e' =>
          rw [hjobs] at h
          cases h
          rfl
        | ok inserted =>
          rw [hjobs] at h
          cases h

/-- The transaction has stored the user and the job. -/
structure Registers (t : Transaction) (user : User u) (job : UserCreationJob) (db db' : Database) :
    Prop where
  users : db.users.insert (.bound user) = .ok db'.users
  jobs : ∃ newJob : Job.NewJob, newJob.id = t.jobId ∧ newJob.jobType = job.jobType ∧
    newJob.payload = job.payload ∧ newJob.maxAttempts = job.maxAttempts ∧
    ∃ rows, (Job.Statement.insert newJob t.began).exec [] t.began db.jobs = .ok (db'.jobs, rows)

/-- A registration is rejected as a duplicate, or fails, or stores the user; and it may have stored
the user when it fails. -/
theorem createWithJob_cases {t : Transaction} {user : User u} {job : UserCreationJob}
    {db db' : Database} {reply : Except RepositoryError (User u)}
    (h : PostgresUserRepository.createWithJob t user job db = (reply, db')) :
    (reply = .error .unavailable ∧ (db' = db ∨ Registers t user job db db')) ∨
      (reply = .error .duplicateEmail ∧ db' = db ∧ ∃ e, db.users.insert (.bound user) = .error e ∧
        RepositoryError.fromSqlx e = .duplicateEmail) ∨
      (reply = .ok user.stored ∧ Registers t user job db db') := by
  unfold PostgresUserRepository.createWithJob at h
  split at h
  · cases h
    exact Or.inl ⟨rfl, Or.inl rfl⟩
  · next maxAttempts hmax =>
    simp only at h
    split at h
    · next e htransact =>
      cases h
      rcases transact_eq_error htransact with rfl | ⟨e', hinsert, rfl⟩
      · exact Or.inl ⟨rfl, Or.inl rfl⟩
      · rcases fromSqlx_cases e' with hduplicate | hother
        · exact Or.inr (Or.inl ⟨by rw [hduplicate], rfl, e', hinsert, hduplicate⟩)
        · exact Or.inl ⟨by rw [hother], Or.inl rfl⟩
    · next created db'' htransact =>
      obtain ⟨rfl, hinsert, hjobs⟩ := transact_eq_ok htransact
      have hregisters : Registers t user job db db'' := by
        refine ⟨hinsert, (Job.NewJob.new t.jobId job.jobType job.payload
          job.maxAttempts).withTraceContext t.traceContext, rfl, rfl, rfl, rfl, ?_⟩
        unfold Job.Statement.exec
        simp only [Job.NewJob.withTraceContext, Job.NewJob.new, hmax]
        exact ⟨_, Job.JobTable.insert_eq_ok.mpr ⟨hjobs, rfl⟩⟩
      -- The transaction is done, and what is left to tell apart is the COMMIT.
      split at h
      · cases h
        exact Or.inl ⟨rfl, Or.inl rfl⟩
      · cases h
        exact Or.inl ⟨rfl, Or.inr hregisters⟩
      · rw [intoDomain_bound] at h
        cases h
        exact Or.inr (Or.inr ⟨rfl, hregisters⟩)

end BaseSkeleton.Users
