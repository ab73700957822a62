import BaseSkeleton.Users.Registration

/-!
# What the columns of `users` can hold

`Email::parse` and `DisplayName::parse` accept U+0000, TEXT does not store it, and
`From<sqlx::Error>` has no case for the statement PostgreSQL rejects then.

* `createWithJob_healthy` / `update_healthy` — the answers of a healthy database, case by case.
* `client_input_outage_iff` — when a request is answered as an outage although there is none.
-/

namespace BaseSkeleton.Users

open Text (CaseMapping)
open Job (JobTable NewJob)

/-! ## The statements

What each INSERT comes to, by what it is given: a text that is none, a taken identifier, a taken
address, or a new row. -/

namespace UserTable

variable {T : UserTable} {row : UserRow} {id : Uuid}

theorem insert_not_text (h : ¬ (IsText row.email ∧ IsText row.displayName)) :
    T.insert row = .error .other :=
  if_pos h

theorem insert_taken_id (htext : IsText row.email ∧ IsText row.displayName)
    (hid : row.id ∈ T.rows.map UserRow.id) :
    T.insert row = .error (.uniqueViolation "users_pkey") := by
  have hkeyed : ¬ ((T.rows ++ [row]).map UserRow.id).Nodup := fun h =>
    (nodup_append_iff T.keyed).mp h hid
  unfold insert
  rw [if_neg (not_not_intro htext), dif_neg hkeyed]

theorem insert_new (htext : IsText row.email ∧ IsText row.displayName)
    (hid : row.id ∉ T.rows.map UserRow.id) (hemail : row.email ∉ T.rows.map UserRow.email) :
    ∃ T', T.insert row = .ok T' := by
  have hkeyed := (nodup_append_iff T.keyed).mpr hid
  have hunique := (nodup_append_iff T.unique).mpr hemail
  unfold insert
  rw [if_neg (not_not_intro htext), dif_pos hkeyed, dif_pos hunique]
  exact ⟨_, rfl⟩

/-- The addresses after an update. -/
def emailsAfter (T : UserTable) (id : Uuid) (email : String) : List String :=
  T.rows.map fun r => if r.id = id then email else r.email

theorem emailsAfter_eq (id : Uuid) (email displayName : String) (now : Instant) :
    (T.rows.map fun r => if r.id = id then r.updated email displayName now else r).map
      UserRow.email = T.emailsAfter id email := by
  rw [List.map_map]
  refine List.map_congr_left fun r _ => ?_
  show UserRow.email (if r.id = id then _ else r) = _
  split <;> rfl

end UserTable

theorem jobRow_checks {job : NewJob} {maxAttempts : Int} (now : Instant)
    (htype : 1 ≤ (Job.btrim job.jobType).length ∧ (Job.btrim job.jobType).length ≤ 200)
    (hpos : 0 < maxAttempts) (hmax : maxAttempts ≤ Job.integerMax) :
    (job.row maxAttempts now).Checks where
  typeValid := htype
  attemptsNonnegative := le_refl 0
  maxAttemptsPositive := hpos
  attemptsBounded := hpos.le
  lockConsistent := by simp [NewJob.row]
  completionConsistent := by simp [NewJob.row]
  integerColumns := ⟨by simp [NewJob.row, Job.integerMax], hmax⟩

theorem insertJob_taken {T : JobTable} {row : Job.JobRow} (h : row.id ∈ T.rows.map Job.JobRow.id) :
    ∃ e, T.insert row = .error e := by
  cases hinsert : T.insert row with
  | error e => exact ⟨e, rfl⟩
  | ok inserted =>
    obtain ⟨_, hnone, _⟩ := JobTable.insert_spec hinsert
    obtain ⟨r, hr, hid⟩ := List.mem_map.mp h
    exact absurd hid (Keyed.get_eq_none.mp hnone r hr)

theorem insertJob_new {T : JobTable} {row : Job.JobRow} (hchecks : row.Checks)
    (h : row.id ∉ T.rows.map Job.JobRow.id) : ∃ inserted, T.insert row = .ok inserted := by
  have hkeyed : ((T.rows ++ [row]).map Job.JobRow.id).Nodup := by
    rw [List.map_append, List.map_singleton, List.nodup_append_comm, List.singleton_append,
      List.nodup_cons]
    exact ⟨h, T.keyed⟩
  have hchecked : ∀ r ∈ T.rows ++ [row], r.Checks := by
    intro r hr
    rcases List.mem_append.mp hr with hold | hnew
    · exact T.checked r hold
    · rw [List.mem_singleton.mp hnew]
      exact hchecks
  exact ⟨_, JobTable.insert_eq_ok.mpr ⟨show (JobTable.mk _ hkeyed hchecked).rows = _ from rfl, rfl⟩⟩

/-! ## The answers of a healthy database

Nothing fails that PostgreSQL does not refuse, so that the reply is decided by the request and the
tables. -/

/-- Every step of a transaction that PostgreSQL does not reject succeeds. -/
structure Transaction.Healthy (t : Transaction) : Prop where
  begins : t.beginFails = false
  insertsUser : t.insertUserFails = false
  insertsJob : t.insertJobFails = false
  commits : t.commit = .committed

/-- The database is healthy; the cache may fail. -/
structure Circumstances.DatabaseHealthy (w : Circumstances) : Prop where
  queries : w.queryFails = false
  transaction : w.transaction.Healthy

variable {u : CaseMapping} {t : Transaction} {db : Database} {row : UserRow} {maxAttempts : Int}

theorem transact_user_error (ht : t.Healthy) (newJob : NewJob) {e : SqlxError}
    (h : db.users.insert row = .error e) :
    transact t row newJob maxAttempts db = .error (.fromSqlx e) := by
  unfold transact
  rw [ht.begins, ht.insertsUser, h]
  rfl

theorem transact_job_error (ht : t.Healthy) {newJob : NewJob} {users : UserTable} {e : Job.SqlError}
    (h : db.users.insert row = .ok users)
    (hjob : db.jobs.insert (newJob.row maxAttempts t.began) = .error e) :
    transact t row newJob maxAttempts db = .error .unavailable := by
  unfold transact
  rw [ht.begins, ht.insertsUser, ht.insertsJob, h, hjob]
  rfl

theorem transact_done (ht : t.Healthy) {newJob : NewJob} {users : UserTable}
    {inserted : JobTable × List Job.JobRow} (h : db.users.insert row = .ok users)
    (hjob : db.jobs.insert (newJob.row maxAttempts t.began) = .ok inserted) :
    transact t row newJob maxAttempts db = .ok (row, ⟨users, inserted.1⟩) := by
  unfold transact
  rw [ht.begins, ht.insertsUser, ht.insertsJob, h, hjob]
  rfl

/-- The identifiers in use. -/
def Database.userIds (db : Database) : List Uuid :=
  db.users.rows.map UserRow.id

def Database.emails (db : Database) : List String :=
  db.users.rows.map UserRow.email

def Database.jobIds (db : Database) : List Uuid :=
  db.jobs.rows.map Job.JobRow.id

/-- **What a registration is answered**, in the order in which PostgreSQL finds out. -/
theorem createWithJob_healthy (ht : t.Healthy) (user : User u) {job : UserCreationJob}
    (htype : 1 ≤ (Job.btrim job.jobType).length ∧ (Job.btrim job.jobType).length ≤ 200)
    (hpos : 0 < job.maxAttempts) (hmax : (job.maxAttempts : Int) ≤ Job.integerMax) :
    (PostgresUserRepository.createWithJob t user job db).1 =
      if ¬ (IsText user.email.asStr ∧ IsText user.displayName.asStr) then .error .unavailable
      else if user.id ∈ db.userIds then .error .unavailable
      else if user.email.asStr ∈ db.emails then .error .duplicateEmail
      else if t.jobId ∈ db.jobIds then .error .unavailable
      else .ok user.stored := by
  have hbudget := validateMaxAttempts_of_pos hpos hmax
  unfold PostgresUserRepository.createWithJob
  simp only [hbudget]
  -- The cases are in the order in which PostgreSQL meets them: the parameters, the primary key, the
  -- unique index, and the INSERT of the job.
  by_cases htext : IsText user.email.asStr ∧ IsText user.displayName.asStr
  · rw [if_neg (not_not_intro htext)]
    by_cases hid : user.id ∈ db.userIds
    · rw [if_pos hid]
      have hinsert : db.users.insert (.bound user) = _ := UserTable.insert_taken_id htext hid
      simp only [transact_user_error ht _ hinsert]
      rfl
    · rw [if_neg hid]
      by_cases hemail : user.email.asStr ∈ db.emails
      · rw [if_pos hemail]
        have hinsert : db.users.insert (.bound user) = _ :=
          UserTable.insert_duplicate htext hid hemail
        simp only [transact_user_error ht _ hinsert, RepositoryError.fromSqlx_email]
      · rw [if_neg hemail]
        obtain ⟨users, hinsert⟩ : ∃ users, db.users.insert (.bound user) = .ok users :=
          UserTable.insert_new htext hid hemail
        by_cases hjob : t.jobId ∈ db.jobIds
        · rw [if_pos hjob]
          obtain ⟨e, hrejected⟩ : ∃ e, db.jobs.insert
              (((NewJob.new t.jobId job.jobType job.payload job.maxAttempts).withTraceContext
                t.traceContext).row job.maxAttempts t.began) = .error e := insertJob_taken hjob
          simp only [transact_job_error ht hinsert hrejected]
        · rw [if_neg hjob]
          obtain ⟨inserted, hinserted⟩ : ∃ inserted, db.jobs.insert
              (((NewJob.new t.jobId job.jobType job.payload job.maxAttempts).withTraceContext
                t.traceContext).row job.maxAttempts t.began) = .ok inserted :=
            insertJob_new (jobRow_checks _ htype (by exact_mod_cast hpos) hmax) hjob
          simp only [transact_done ht hinsert hinserted, ht.commits, intoDomain_bound]
  · rw [if_pos htext]
    have hinsert : db.users.insert (.bound user) = _ := UserTable.insert_not_text htext
    simp only [transact_user_error ht _ hinsert]
    rfl

theorem createWithJob_unavailable_iff (ht : t.Healthy) (user : User u) {job : UserCreationJob}
    (htype : 1 ≤ (Job.btrim job.jobType).length ∧ (Job.btrim job.jobType).length ≤ 200)
    (hpos : 0 < job.maxAttempts) (hmax : (job.maxAttempts : Int) ≤ Job.integerMax) :
    (PostgresUserRepository.createWithJob t user job db).1 = .error .unavailable ↔
      ¬ (IsText user.email.asStr ∧ IsText user.displayName.asStr) ∨ user.id ∈ db.userIds ∨
        (user.email.asStr ∉ db.emails ∧ t.jobId ∈ db.jobIds) := by
  rw [createWithJob_healthy ht user htype hpos hmax]
  split_ifs <;> simp [*]

/-- **What an update is answered.** -/
theorem update_healthy (now : Instant) (id : UserId) (email : Email u) (displayName : DisplayName)
    (T : UserTable) :
    (PostgresUserRepository.update false now id email displayName T).1 =
      if ¬ (IsText email.asStr ∧ IsText displayName.asStr) then .error .unavailable
      else if ¬ (T.emailsAfter id email.asStr).Nodup then .error .duplicateEmail
      else match T.find id with
        | none => .error .notFound
        | some row => .ok ⟨row.id, email, displayName, row.createdAt, timestamptz now⟩ := by
  unfold PostgresUserRepository.update UserTable.update
  simp only [UserTable.emailsAfter_eq]
  by_cases htext : IsText email.asStr ∧ IsText displayName.asStr
  · simp only [htext, not_true_eq_false, and_self, Bool.false_eq_true, if_false]
    by_cases hunique : (T.emailsAfter id email.asStr).Nodup
    · simp only [hunique, dif_pos, not_true_eq_false, if_false]
      cases hfind : T.find id with
      | none => rfl
      | some row => exact intoDomain_parsed row.id email displayName row.createdAt _
    · simp only [hunique, dif_neg, not_false_eq_true, if_true, RepositoryError.fromSqlx_email]
  · simp only [htext, not_false_eq_true, Bool.false_eq_true, if_false, if_true]
    rfl

theorem update_unavailable_iff (now : Instant) (id : UserId) (email : Email u)
    (displayName : DisplayName) (T : UserTable) :
    (PostgresUserRepository.update false now id email displayName T).1 = .error .unavailable ↔
      ¬ (IsText email.asStr ∧ IsText displayName.asStr) := by
  rw [update_healthy]
  split_ifs with htext hunique
  · cases T.find id with
    | none => simp [htext]
    | some row => simp [htext]
  · simp [htext]
  · simp [htext]

/-! ## The requests

An input is accepted by the value objects, and it is storable if what they make of it is TEXT. -/

/-- Both fields are valid. -/
def UserInput.Accepted (u : CaseMapping) (input : UserInput) : Prop :=
  (∃ email : Email u, Email.parse input.email = .ok email) ∧
    ∃ displayName, DisplayName.parse input.displayName = .ok displayName

/-- TEXT stores both fields. -/
def UserInput.Storable (input : UserInput) : Prop :=
  IsText input.email ∧ IsText input.displayName

/-- Parsing neither adds nor removes a NUL. -/
theorem Email.isText_iff {value : String} {email : Email u} (h : Email.parse value = .ok email) :
    IsText email.asStr ↔ IsText value := by
  unfold IsText
  rw [Email.asStr_of_parse h, CaseMapping.mem_toLowercase_iff rfl]
  exact not_congr ⟨Text.mem_of_mem_trim, Text.mem_trim_of_mem (by decide)⟩

theorem DisplayName.isText_iff {value : String} {name : DisplayName}
    (h : DisplayName.parse value = .ok name) : IsText name.asStr ↔ IsText value := by
  unfold IsText
  rw [DisplayName.asStr_of_parse h]
  exact not_congr ⟨Text.mem_of_mem_trim, Text.mem_trim_of_mem (by decide)⟩

/-- `UpdateUserUseCase::execute` on the stores, in circumstances `w`. -/
def UpdateUserUseCase.run (u : CaseMapping) (useCase : UpdateUserUseCase) (id : UserId)
    (input : UserInput) (w : Circumstances) (s : Stores) :
    Except ApplicationError (User u) × Stores :=
  (useCase.execute id input).eval (answer w) s

section Runs

variable {createUser : CreateUserUseCase} {updateUser : UpdateUserUseCase} {uuid : UuidText}
  {newId id : UserId} {now : Instant} {input : UserInput} {email : Email u}
  {displayName : DisplayName} {w : Circumstances} {s : Stores}

/-- What becomes of the cache does not change the answer. -/
theorem run_updateUser (hemail : Email.parse input.email = .ok email)
    (hname : DisplayName.parse input.displayName = .ok displayName) :
    (updateUser.run u id input w s).1 =
      (PostgresUserRepository.update w.queryFails w.now id email displayName
        s.database.users).1.mapError .fromRepository := by
  unfold UpdateUserUseCase.run UpdateUserUseCase.execute
  rw [hemail, hname]
  show (Program.eval (answer w) (.call (Call.update _ _ _) _) s).1 = _
  rw [Program.eval]
  simp only [answer]
  generalize PostgresUserRepository.update _ _ _ _ _ _ = done
  obtain ⟨reply, users⟩ := done
  cases reply with
  | error e => rfl
  | ok updated =>
    show (Program.eval (answer w) (.call (Call.cacheSet updated _) _) _).1 = _
    rw [Program.eval]
    simp only [answer]
    generalize RedisUserCache.set _ _ _ = stored
    obtain ⟨reply, entries⟩ := stored
    cases reply with
    | error e => rfl
    | ok _ => rfl

theorem run_updateUser_invalid (h : ¬ input.Accepted u) :
    ∃ e, (updateUser.run u id input w s).1 = .error (.invalidInput e) := by
  unfold UpdateUserUseCase.run UpdateUserUseCase.execute
  cases hemail : Email.parse (u := u) input.email with
  | error e => exact ⟨e, rfl⟩
  | ok email =>
    cases hname : DisplayName.parse input.displayName with
    | error e => exact ⟨e, rfl⟩
    | ok displayName => exact absurd ⟨⟨email, hemail⟩, displayName, hname⟩ h

theorem run_createUser_reply (hemail : Email.parse input.email = .ok email)
    (hname : DisplayName.parse input.displayName = .ok displayName) :
    (createUser.run u uuid newId now input w s).1 =
      (PostgresUserRepository.createWithJob w.transaction (.new newId now email displayName)
        (createUser.job uuid newId) s.database).1.mapError .fromRepository := by
  rw [run_createUser hemail hname]
  generalize PostgresUserRepository.createWithJob _ _ _ _ = done
  obtain ⟨reply, db⟩ := done
  cases reply with
  | error e => rfl
  | ok created => rfl

theorem run_createUser_not_accepted (h : ¬ input.Accepted u) :
    ∃ e, (createUser.run u uuid newId now input w s).1 = .error (.invalidInput e) := by
  cases hemail : Email.parse (u := u) input.email with
  | error e => exact ⟨e, by rw [run_createUser_invalid (Or.inl hemail)]⟩
  | ok email =>
    cases hname : DisplayName.parse input.displayName with
    | error e => exact ⟨e, by rw [run_createUser_invalid (Or.inr ⟨⟨email, hemail⟩, hname⟩)]⟩
    | ok displayName => exact absurd ⟨⟨email, hemail⟩, displayName, hname⟩ h

/-- Only `Unavailable` becomes `DependencyUnavailable`. -/
theorem mapError_outage_iff {α : Type} {reply : Except RepositoryError α} :
    reply.mapError .fromRepository = .error ApplicationError.dependencyUnavailable ↔
      reply = .error .unavailable := by
  cases reply with
  | error e => cases e <;> simp [Except.mapError, ApplicationError.fromRepository]
  | ok a => simp [Except.mapError]

/-- **When client input surfaces as an outage.** Let the database be healthy and the budget be one
that `validate_max_attempts` admits. Then neither use case answers `DependencyUnavailable`, exactly
if a field is invalid or there is no NUL in either field; a registration that the address does not
end first also needs the UUIDs it draws to be new. -/
theorem client_input_outage_iff (hpos : 0 < createUser.jobMaxAttempts)
    (hmax : (createUser.jobMaxAttempts : Int) ≤ Job.integerMax) (hw : w.DatabaseHealthy) :
    ((createUser.run u uuid newId now input w s).1 ≠ .error .dependencyUnavailable ↔
      (input.Accepted u → input.Storable ∧ newId ∉ s.database.userIds ∧
        (u.toLowercase (Text.trim input.email) ∈ s.database.emails ∨
          w.transaction.jobId ∉ s.database.jobIds))) ∧
    ((updateUser.run u id input w s).1 ≠ .error .dependencyUnavailable ↔
      (input.Accepted u → input.Storable)) := by
  by_cases haccepted : input.Accepted u
  · obtain ⟨⟨email, hemail⟩, displayName, hname⟩ := haccepted
    have haccepted : input.Accepted u := ⟨⟨email, hemail⟩, displayName, hname⟩
    -- Trimming and lowercasing neither bring a NUL in nor take one out.
    have hstorable : IsText email.asStr ∧ IsText displayName.asStr ↔ input.Storable :=
      and_congr (Email.isText_iff hemail) (DisplayName.isText_iff hname)
    have htype : (Job.btrim Job.userCreatedJob).length = 12 := by decide
    have hcreate : (PostgresUserRepository.createWithJob w.transaction
        (.new newId now email displayName) (createUser.job uuid newId) s.database).1 =
          .error .unavailable ↔ _ :=
      createWithJob_unavailable_iff hw.transaction _
        ⟨by rw [CreateUserUseCase.job, htype]; decide,
          by rw [CreateUserUseCase.job, htype]; decide⟩ hpos hmax
    constructor
    · rw [run_createUser_reply hemail hname, Ne, mapError_outage_iff, hcreate,
        ← Email.asStr_of_parse hemail]
      show ¬ (¬ (IsText email.asStr ∧ IsText displayName.asStr) ∨ newId ∈ _ ∨
        (email.asStr ∉ _ ∧ _)) ↔ _
      rw [hstorable, imp_iff_right haccepted, not_or, not_or, not_not, not_and_or, not_not]
    · rw [run_updateUser hemail hname, Ne, mapError_outage_iff, hw.queries,
        update_unavailable_iff, hstorable, imp_iff_right haccepted, not_not]
  · obtain ⟨e, hcreate⟩ : ∃ e, (createUser.run u uuid newId now input w s).1 =
        .error (.invalidInput e) := run_createUser_not_accepted haccepted
    obtain ⟨e', hupdate⟩ : ∃ e, (updateUser.run u id input w s).1 = .error (.invalidInput e) :=
      run_updateUser_invalid haccepted
    rw [hcreate, hupdate]
    exact ⟨by simp [haccepted], by simp [haccepted]⟩

end Runs

/-! ## A NUL in the display name -/

/-- The address of `sampleInput`, and a display name with a NUL. -/
def nulInput : UserInput :=
  { sampleInput with displayName := "A\x00b" }

theorem sampleCircumstances_healthy : sampleCircumstances.DatabaseHealthy :=
  ⟨rfl, rfl, rfl, rfl, rfl⟩

theorem client_input_outage_iff_sample :
    (sampleCreateUser.run Text.asciiCase sampleUuid sampleId 1001 sampleInput
      sampleCircumstances emptyStores).1 ≠ .error .dependencyUnavailable ∧
    ((⟨300⟩ : UpdateUserUseCase).run Text.asciiCase sampleId sampleInput
      sampleCircumstances emptyStores).1 ≠ .error .dependencyUnavailable := by
  have hiff := @client_input_outage_iff Text.asciiCase sampleCreateUser ⟨300⟩ sampleUuid sampleId
    sampleId 1001 sampleInput sampleCircumstances emptyStores (by decide) (by decide)
    sampleCircumstances_healthy
  have hstorable : sampleInput.Storable := ⟨by decide, by decide⟩
  exact ⟨hiff.1.mpr fun _ => ⟨hstorable, by decide, Or.inr (by decide)⟩,
    hiff.2.mpr fun _ => hstorable⟩

/-- The display name is accepted, and no healthy database stores it. -/
theorem nul_in_display_name :
    sampleCircumstances.DatabaseHealthy ∧ nulInput.Accepted Text.asciiCase ∧
    (sampleCreateUser.run Text.asciiCase sampleUuid sampleId 1001 nulInput
      sampleCircumstances emptyStores).1 = .error .dependencyUnavailable ∧
    ((⟨300⟩ : UpdateUserUseCase).run Text.asciiCase sampleId nulInput
      sampleCircumstances (takenStores sampleId)).1 = .error .dependencyUnavailable := by
  have hemail : Email.parse nulInput.email = .ok sampleEmail := parse_sampleEmail
  have hname : DisplayName.parse nulInput.displayName = .ok ⟨"A\x00b", by decide, by decide⟩ :=
    DisplayName.parse_of_trimmed (by decide)
  refine ⟨sampleCircumstances_healthy, ⟨⟨_, hemail⟩, _, hname⟩, ?_, ?_⟩
  · rw [run_createUser hemail hname]
    rfl
  · rw [run_updateUser hemail hname]
    rfl

end BaseSkeleton.Users
