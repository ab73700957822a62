import BaseSkeleton.Job.Run
import BaseSkeleton.Users.Linearizable
import BaseSkeleton.Users.TextColumns

/-!
# Every user has its job

A registration stores a user and a job in one transaction. Next to any other requests, with any
calls failing or losing their replies, the `background_jobs` table is what the inserts of the
registrations make of the queue, and every user that was added has the job of its registration:
what the queue promises of an inserted job it promises of the jobs of these users.

* `alone_registers` — a request registers nobody, or one user and the job of this user.
* `history_enqueues` — the same for one request after the other.
* `registrations_enqueue` — in every run of the server.
-/

namespace BaseSkeleton.Users

open Text (CaseMapping)

variable {u : CaseMapping} {service : UserService} {cache : CacheAdapter} {database : Database}
  {w : Fate} {id : UserId}

/-! ## One request

Only the transaction of `create_with_job` touches the `background_jobs` table, and it adds a user
with its job or adds nothing. -/

/-- The job of a registration, and its transaction. -/
structure Registration where
  thread : Nat
  user : UserId
  job : Job.NewJob
  began : Instant

/-- The INSERT of the job. -/
def Registration.insert (r : Registration) : Job.Request :=
  ⟨r.began, .insert r.job r.began, []⟩

/-- The job is in the table as it was inserted. -/
def Registration.Stored (r : Registration) (T : Job.JobTable) : Prop :=
  ∃ maxAttempts, T.find r.job.id = some (r.job.row maxAttempts r.began)

/-- The job is one that tells the handler of the user. -/
structure Registration.Announces (service : UserService) (r : Registration) : Prop where
  jobType : r.job.jobType = UserCreatedHandler.jobType
  maxAttempts : r.job.maxAttempts = service.createUser.jobMaxAttempts
  payload : r.job.payload = (service.createUser.job service.uuid r.user).payload

/-- What the handler reads from the job, when it reads what `Uuid::to_string` has written. -/
theorem Registration.Announces.handled {r : Registration} (h : r.Announces service)
    (huuid : service.uuid.parseStr (service.uuid.toString r.user) = some r.user)
    (reject : Value → String) :
    UserCreatedHandler.fromValue service.uuid reject r.job.payload = .ok ⟨r.user⟩ := by
  rw [h.payload]
  exact UserCreatedHandler.fromValue_userId reject huuid

/-- A request that registers nobody leaves the jobs alone, and adds no user. -/
structure RegistersNobody (database : Database) (request : Request)
    (done : Response u × Database) : Prop where
  jobs : done.2.jobs = database.jobs
  users : ∀ row ∈ done.2.users.rows, row.id ∈ database.userIds
  told : ∀ id now input user, request = .create id now input → done.1 ≠ .ok user

/-- A request that registers a user inserts its job. -/
structure RegistersUser (service : UserService) (database : Database) (request : Request)
    (done : Response u × Database) (r : Registration) : Prop where
  request : ∃ now input, request = .create r.user now input
  announces : r.Announces service
  inserted : ∃ rows, r.insert.statement.exec [] r.began database.jobs = .ok (done.2.jobs, rows)
  users : ∀ row ∈ done.2.users.rows, row.id ∈ database.userIds ∨ row.id = r.user
  told : ∀ user, done.1 = .ok (some user) → user.id = r.user

theorem update_ids {fails : Bool} {now : Instant} {email : Email u} {displayName : DisplayName}
    {T : UserTable} :
    (PostgresUserRepository.update fails now id email displayName T).2.rows.map UserRow.id =
      T.rows.map UserRow.id := by
  have hids : ∀ {T' : UserTable} {returned : Option UserRow},
      T.update id email.asStr displayName.asStr (timestamptz now) = .ok (T', returned) →
      T'.rows.map UserRow.id = T.rows.map UserRow.id := by
    intro T' returned hupdate
    rw [(UserTable.update_eq_ok hupdate).1]
    exact Keyed.map_key (fun r => UserRow.id_updated_if id email.asStr displayName.asStr _ r) _
  unfold PostgresUserRepository.update
  split
  · rfl
  · split
    · rfl
    · next hupdate => exact hids hupdate
    · next hupdate => exact hids hupdate

/-- A registration that was stored registers its user. -/
theorem registersUser {now : Instant} {input : UserInput} {email : Email u}
    {displayName : DisplayName} {database' : Database} {response : Response u} {i : Nat}
    (h : Registers w.circumstances.transaction (.new id now email displayName)
      (service.createUser.job service.uuid id) database database')
    (htold : ∀ user, response = .ok (some user) → user.id = id) :
    ∃ r : Registration, r.thread = i ∧
      RegistersUser service database (.create id now input) (response, database') r := by
  obtain ⟨newJob, _, htype, hpayload, hmax, hinserted⟩ := h.jobs
  refine ⟨⟨i, id, newJob, w.circumstances.transaction.began⟩, rfl, ⟨now, input, rfl⟩,
    ⟨htype, hmax, hpayload⟩, hinserted, fun row hrow => ?_, htold⟩
  rw [(UserTable.insert_eq_ok h.users).1, List.mem_append, List.mem_singleton] at hrow
  rcases hrow with hold | rfl
  · exact Or.inl (List.mem_map_of_mem hold)
  · exact Or.inr rfl

/-- **One request** registers nobody, or a user and the job of the user. -/
theorem alone_registers (service : UserService) (request : Request) (w : Fate)
    (database : Database) (i : Nat) :
    RegistersNobody database request (service.alone u request w database) ∨
      ∃ r, r.thread = i ∧
        RegistersUser service database request (service.alone u request w database) r := by
  have hsame : ∀ row ∈ database.users.rows, row.id ∈ database.userIds :=
    fun row hrow => List.mem_map_of_mem hrow
  cases request with
  | get id =>
    -- A read, an update and a delete bring no id into the table.
    left
    rw [alone_get]
    exact ⟨rfl, hsame, fun _ _ _ _ h => nomatch h⟩
  | delete id =>
    left
    rw [alone_asks deleteUser_asks]
    refine ⟨rfl, fun row hrow => ?_, fun _ _ _ _ h => nomatch h⟩
    have hkept : row ∈ (PostgresUserRepository.delete w.circumstances.queryFails id
      database.users).2.rows := hrow
    unfold PostgresUserRepository.delete at hkept
    split at hkept
    · exact hsame row hkept
    · exact hsame row (List.mem_of_mem_filter hkept)
  | update id input =>
    left
    cases hinput : input.parse u with
    | error e =>
      rw [alone_invalid (updateUser_invalid hinput)]
      exact ⟨rfl, hsame, fun _ _ _ _ h => nomatch h⟩
    | ok fields =>
      rw [alone_asks (updateUser_asks hinput)]
      refine ⟨rfl, fun row hrow => ?_, fun _ _ _ _ h => nomatch h⟩
      have hmem : row.id ∈ (PostgresUserRepository.update w.circumstances.queryFails
          w.circumstances.now id fields.1 fields.2 database.users).2.rows.map UserRow.id :=
        List.mem_map_of_mem hrow
      rwa [update_ids] at hmem
  | create id now input =>
    cases hinput : input.parse u with
    | error e =>
      left
      rw [alone_invalid (createUser_invalid hinput)]
      exact ⟨rfl, hsame, fun _ _ _ _ _ h => nomatch h⟩
    | ok fields =>
      obtain ⟨email, displayName⟩ := fields
      rw [alone_asks (createUser_asks hinput)]
      generalize hdone : CacheAdapter.noOp.answer w _ (⟨database, fun _ => none⟩ : Stores) = done
      obtain ⟨reply, ⟨database', entries⟩⟩ := done
      have hcreate : PostgresUserRepository.createWithJob w.circumstances.transaction
          (.new id now email displayName) (service.createUser.job service.uuid id) database =
            (reply, database') := by
        have hreply := congrArg Prod.fst hdone
        have hdatabase := congrArg (fun done => done.2.database) hdone
        exact Prod.ext hreply hdatabase
      -- Rolled back, lost after it took effect, refused and committed: the user is registered in
      -- the second case and in the last, and is returned in the last only.
      rcases createWithJob_cases hcreate with ⟨rfl, rfl | hstored⟩ | ⟨rfl, rfl, _⟩ | ⟨rfl, hstored⟩
      · exact Or.inl ⟨rfl, hsame, fun _ _ _ _ _ h => nomatch h⟩
      · exact Or.inr (registersUser hstored fun _ h => nomatch h)
      · exact Or.inl ⟨rfl, hsame, fun _ _ _ _ _ h => nomatch h⟩
      · refine Or.inr (registersUser hstored fun user huser => ?_)
        cases huser
        rfl

/-! ## The table

An insert that went through has added one row under an identifier that was free. -/

/-- The job of a registration that went through is stored. -/
theorem Registration.stored_insert {r : Registration} {T T' : Job.JobTable} {rows : List Job.JobRow}
    (h : r.insert.statement.exec [] r.began T = .ok (T', rows)) : r.Stored T' := by
  simp only [Registration.insert, Job.Statement.exec] at h
  split at h
  · cases h
  · next maxAttempts _ =>
    obtain ⟨_, _, hfind, _⟩ := Job.JobTable.insert_spec h
    exact ⟨maxAttempts, hfind⟩

/-- What is stored stays stored when another registration goes through. -/
theorem Registration.Stored.insert {r r' : Registration} {T T' : Job.JobTable}
    {rows : List Job.JobRow} (hr : r.Stored T)
    (h : r'.insert.statement.exec [] r'.began T = .ok (T', rows)) : r.Stored T' := by
  obtain ⟨maxAttempts, hfind⟩ := hr
  simp only [Registration.insert, Job.Statement.exec] at h
  split at h
  · cases h
  · obtain ⟨_, hfresh, _, hframe⟩ := Job.JobTable.insert_spec h
    refine ⟨maxAttempts, (hframe r.job.id fun hid => ?_).trans hfind⟩
    -- the identifier of the new row was free
    rw [← hid, hfind] at hfresh
    cases hfresh

/-! ## A history

One request after the other, each alone: the registrations of the history are those of its requests
that have stored a user. -/

/-- The registrations of a history, the newest at the head. -/
structure Enqueued (service : UserService) (u : CaseMapping) (database : Database) (db₀ : Job.Db)
    (history : History) (registrations : List Registration) (db : Job.Db) : Prop where
  /-- the queue after the inserts of the registrations -/
  run : Job.queue.runFrom db₀ (registrations.map Registration.insert) = some db
  table : db.table = ((service.object u database).after database history).jobs
  stored : ∀ r ∈ registrations, r.Stored db.table
  inserted : Job.insertedJobs db.log =
    registrations.map Registration.job ++ Job.insertedJobs db₀.log
  threads : (registrations.map Registration.thread).Sublist (history.map Pool.Serving.thread)
  announces : ∀ r ∈ registrations, r.Announces service ∧
    ∃ e ∈ history, e.thread = r.thread ∧ ∃ now input, e.request = .create r.user now input
  users : ∀ row ∈ ((service.object u database).after database history).users.rows,
    row.id ∈ database.userIds ∨ ∃ r ∈ registrations, r.user = row.id
  told : ∀ newer e older, history = newer ++ e :: older →
    ∀ id now input user, e.request = .create id now input →
      (service.alone u e.request e.circumstances
        ((service.object u database).after database older)).1 = .ok (some user) →
      ∃ r ∈ registrations, r.thread = e.thread ∧ r.user = user.id

/-- A request that registers nobody. -/
theorem Enqueued.nobody {db₀ db : Job.Db} {history : History} {registrations : List Registration}
    {e : Pool.Serving Request Fate} (h : Enqueued service u database db₀ history registrations db)
    (hnobody : RegistersNobody ((service.object u database).after database history) e.request
      (service.alone u e.request e.circumstances
        ((service.object u database).after database history))) :
    Enqueued service u database db₀ (e :: history) registrations db where
  run := h.run
  table := h.table.trans hnobody.jobs.symm
  stored := h.stored
  inserted := h.inserted
  threads := h.threads.cons _
  announces := by
    intro r hr
    obtain ⟨hannounces, e', he', hcreate⟩ := h.announces r hr
    exact ⟨hannounces, e', List.mem_cons_of_mem _ he', hcreate⟩
  users := by
    intro row hrow
    obtain ⟨before, hbefore, hid⟩ := List.mem_map.mp (hnobody.users row hrow)
    rw [← hid]
    exact h.users before hbefore
  told := by
    intro newer e' older hhistory id now input user hcreate hok
    cases newer with
    | nil =>
      obtain ⟨rfl, rfl⟩ := List.cons.inj hhistory
      exact absurd hok (hnobody.told id now input (some user) hcreate)
    | cons first newer =>
      obtain ⟨_, hrest⟩ := List.cons.inj hhistory
      exact h.told newer e' older hrest id now input user hcreate hok

/-- A request that registers a user. -/
theorem Enqueued.user {db₀ db : Job.Db} {history : History} {registrations : List Registration}
    {e : Pool.Serving Request Fate} {r : Registration}
    (h : Enqueued service u database db₀ history registrations db) (hthread : r.thread = e.thread)
    (huser : RegistersUser service ((service.object u database).after database history) e.request
      (service.alone u e.request e.circumstances
        ((service.object u database).after database history)) r) :
    Enqueued service u database db₀ (e :: history) (r :: registrations) (db.apply r.insert) := by
  obtain ⟨rows, hexec⟩ := huser.inserted
  rw [← h.table] at hexec
  -- The INSERT of the transaction is a statement of the queue, and the log of the queue records it.
  have happly : db.apply r.insert = ⟨⟨r.began, .insert r.job r.began, rows⟩ :: db.log,
      ((service.object u database).after database (e :: history)).jobs⟩ :=
    Job.Db.apply_ok hexec
  refine ⟨?_, ?_, ?_, ?_, ?_, ?_, ?_, ?_⟩
  · rw [List.map_cons]
    exact Machine.runFrom_cons.mpr ⟨db, h.run, rfl⟩
  · rw [happly]
  · rw [happly]
    exact List.forall_mem_cons.mpr
      ⟨Registration.stored_insert hexec, fun r' hr' => (h.stored r' hr').insert hexec⟩
  · rw [happly, List.map_cons, List.cons_append, ← h.inserted]
    rfl
  · rw [List.map_cons, List.map_cons, hthread]
    exact h.threads.cons_cons _
  · rw [List.forall_mem_cons]
    refine ⟨⟨huser.announces, e, List.mem_cons_self, hthread.symm, huser.request⟩, ?_⟩
    intro r' hr'
    obtain ⟨hannounces, e', he', hcreate⟩ := h.announces r' hr'
    exact ⟨hannounces, e', List.mem_cons_of_mem _ he', hcreate⟩
  · intro row hrow
    rcases huser.users row hrow with hold | hnew
    · obtain ⟨before, hbefore, hid⟩ := List.mem_map.mp hold
      rw [← hid]
      rcases h.users before hbefore with hinit | ⟨r', hr', hid'⟩
      · exact Or.inl hinit
      · exact Or.inr ⟨r', List.mem_cons_of_mem _ hr', hid'⟩
    · exact Or.inr ⟨r, List.mem_cons_self, hnew.symm⟩
  · intro newer e' older hhistory id now input user hcreate hok
    cases newer with
    | nil =>
      obtain ⟨rfl, rfl⟩ := List.cons.inj hhistory
      exact ⟨r, List.mem_cons_self, hthread, (huser.told user hok).symm⟩
    | cons first newer =>
      obtain ⟨_, hrest⟩ := List.cons.inj hhistory
      obtain ⟨r', hr', hfound⟩ := h.told newer e' older hrest id now input user hcreate hok
      exact ⟨r', List.mem_cons_of_mem _ hr', hfound⟩

theorem history_enqueues (service : UserService) {db₀ : Job.Db} (h₀ : db₀.table = database.jobs)
    (history : History) :
    ∃ registrations db, Enqueued service u database db₀ history registrations db := by
  induction history with
  | nil =>
    refine ⟨[], db₀, rfl, h₀, fun r hr => absurd hr List.not_mem_nil, rfl, List.Sublist.slnil,
      fun r hr => absurd hr List.not_mem_nil, fun row hrow => Or.inl (List.mem_map_of_mem hrow),
      fun newer e older hhistory => ?_⟩
    simp at hhistory
  | cons e history ih =>
    obtain ⟨registrations, db, h⟩ := ih
    rcases alone_registers (u := u) service e.request e.circumstances
      ((service.object u database).after database history) e.thread with hnobody | ⟨r, hr, huser⟩
    · exact ⟨registrations, db, h.nobody hnobody⟩
    · exact ⟨_, _, h.user hr huser⟩

/-! ## Every run

What holds of the history of a run holds of the run, since both leave the same database behind. -/

/-- **Every user has its job.** In every run over a `background_jobs` table the queue can be in,
with any calls failing or losing their replies, the table is what the inserts of some registrations
make of it, so it is one the queue can be in, and the job of each registration is in it. Each
registration is of its own `create`, announces the user of it in a form that the handler reads, and
every user that was added, and every user a `create` has returned, has one. -/
theorem registrations_enqueue (service : UserService) (cache : CacheAdapter) (database : Database)
    {db₀ : Job.Db} (h₀ : Job.queue.Reachable db₀) (hjobs : db₀.table = database.jobs)
    {s : ServicePool u}
    (h : (Pool.machine (service.setupOver u cache database)).Reachable s) :
    ∃ (registrations : List Registration) (db : Job.Db), Job.queue.Reachable db ∧
      Job.queue.runFrom db₀ (registrations.map Registration.insert) = some db ∧
      db.table = s.store.database.jobs ∧
      Job.insertedJobs db.log =
        registrations.map Registration.job ++ Job.insertedJobs db₀.log ∧
      (registrations.map Registration.thread).Nodup ∧
      (∀ r ∈ registrations, r.Stored s.store.database.jobs ∧ r.Announces service ∧
        (service.uuid.parseStr (service.uuid.toString r.user) = some r.user → ∀ reject,
          UserCreatedHandler.fromValue service.uuid reject r.job.payload = .ok ⟨r.user⟩) ∧
        ∃ thread, s.threads[r.thread]? = some thread ∧
          ∃ now input, thread.request = .create r.user now input) ∧
      (∀ row ∈ s.store.database.users.rows,
        row.id ∈ database.userIds ∨ ∃ r ∈ registrations, r.user = row.id) ∧
      ∀ i (thread : Thread (Reply u) Request (Response u)) id now input user,
        s.threads[i]? = some thread → thread.request = .create id now input →
        thread.rest = .ret (.ok (some user)) →
          ∃ r ∈ registrations, r.thread = i ∧ r.user = user.id := by
  obtain ⟨history, hlinearized⟩ := Pool.Object.reachable_linearized object_lawful h
  obtain ⟨registrations, db, henqueued⟩ := history_enqueues (u := u) service hjobs history
  have hview : s.store.database = (service.object u database).after database history :=
    hlinearized.view
  have htable : db.table = s.store.database.jobs := by
    rw [hview]
    exact henqueued.table
  refine ⟨registrations, db, h₀.runFrom henqueued.run, henqueued.run, htable, henqueued.inserted,
    henqueued.threads.nodup hlinearized.once, ?_, ?_, ?_⟩
  · -- The registration was made by a served request, and a request is served with what its thread
    -- has sent.
    intro r hr
    obtain ⟨hannounces, e, he, hthread, hcreate⟩ := henqueued.announces r hr
    obtain ⟨thread, ht, hrequest⟩ := hlinearized.request_eq he
    rw [← hthread, ← htable]
    refine ⟨henqueued.stored r hr, hannounces, fun huuid reject => hannounces.handled huuid reject,
      thread, ht, ?_⟩
    rw [hrequest]
    exact hcreate
  · rw [hview]
    exact henqueued.users
  · intro i thread id now input user ht hcreate hret
    have hanswered := answered h hlinearized ht hret
    rw [hcreate] at hanswered
    generalize hresponse : (Except.ok (some user) : Response u) = response at hanswered
    cases hanswered with
    | invalid _ e _ => cases hresponse
    | served newer _ w older hhistory =>
      exact henqueued.told newer _ older hhistory id now input user rfl hresponse.symm

/-! ## A registration whose reply is lost

The COMMIT has taken effect, and the client is told of an outage. -/

/-- The COMMIT of a registration takes effect, and its reply is lost. -/
def unheardCommit : List (PoolInput Request Fate UserId) :=
  [.call 0 { sampleFate with
      circumstances :=
        { sampleCircumstances with
          transaction := { sampleCircumstances.transaction with commit := .replyLost } } },
    .start (.create sampleId 1001 sampleInput)]

theorem unheardCommit_possible :
    ((Pool.machine (sampleService.setupOver Text.asciiCase .noOp emptyStores.database)).run
      unheardCommit).isSome := by
  decide

def unheardCommitState : ServicePool Text.asciiCase :=
  ((Pool.machine (sampleService.setupOver Text.asciiCase .noOp emptyStores.database)).run
    unheardCommit).get unheardCommit_possible

/-- The `create` has failed, and the job of the user is there. -/
theorem registrations_enqueue_unheard :
    ∃ r : Registration, r.user = sampleId ∧ r.Stored unheardCommitState.store.database.jobs := by
  obtain ⟨registrations, db, _, _, _, _, _, hregistrations, husers, _⟩ :=
    registrations_enqueue sampleService .noOp emptyStores.database Machine.reachable_init rfl
      (Machine.reachable_get unheardCommit_possible)
  rcases husers ⟨sampleId, "a@b.c", "Al", 1000, 1000⟩ (List.mem_singleton_self _) with
    hinit | ⟨r, hr, huser⟩
  · exact absurd hinit List.not_mem_nil
  · exact ⟨r, huser, (hregistrations r hr).1⟩

end BaseSkeleton.Users
