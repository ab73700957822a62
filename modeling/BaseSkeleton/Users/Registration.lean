import BaseSkeleton.Users.Stores
import BaseSkeleton.Users.UseCases

/-!
# Registration

`CreateUserUseCase` against the database, and the handler that receives the job it stores
(`src/infrastructure/job/user_created_handler.rs`).

* `eval_createUser` — a valid request is one transaction and one write to the cache.
* `create_user_atomic` — the user is stored with its job, or nothing is stored.
-/

namespace BaseSkeleton.Users

open Text (CaseMapping)
open Job (ClaimedJob JobHandlerError)

/-! ## The handler

The payload is read with `serde`: the field `user_id`, a UUID in text form. -/

structure UserCreatedPayload where
  userId : Uuid

namespace UserCreatedHandler

def jobType : String := Job.userCreatedJob

/-- The `Uuid` of a document. -/
def uuidFromValue (uuid : UuidText) : Value → Option Uuid
  | .string s => uuid.parseStr s
  | _ => none

/-- `serde_json::from_value::<UserCreatedPayload>`: the record is a map with its field, or the
sequence of its fields. `reject` is the text of the error. -/
def fromValue (uuid : UuidText) (reject : Value → String) (payload : Value) :
    Except String UserCreatedPayload :=
  let userId :=
    match payload with
    | .object entries => (entries.lookup "user_id").bind (uuidFromValue uuid)
    | .array [value] => uuidFromValue uuid value
    | _ => none
  .ofOption (reject payload) (userId.map UserCreatedPayload.mk)

def handle (uuid : UuidText) (reject : Value → String) (job : ClaimedJob) :
    Except JobHandlerError Unit :=
  match fromValue uuid reject job.payload with
  | .error error => .error ⟨"invalid user.created payload: " ++ error⟩
  | .ok _ => .ok ()

theorem fromValue_userId {uuid : UuidText} {id : Uuid} (reject : Value → String)
    (huuid : uuid.parseStr (uuid.toString id) = some id) :
    fromValue uuid reject (.object [("user_id", .string (uuid.toString id))]) = .ok ⟨id⟩ := by
  simp [fromValue, uuidFromValue, huuid, Except.ofOption]

theorem handle_of_fromValue {uuid : UuidText} {reject : Value → String} {job : ClaimedJob}
    {payload : UserCreatedPayload} (h : fromValue uuid reject job.payload = .ok payload) :
    handle uuid reject job = .ok () := by
  unfold handle
  rw [h]

end UserCreatedHandler

/-! ## The use case

A valid request is one transaction, and after it one write to the cache whose failure is only
logged. -/

variable {u : CaseMapping} {useCase : CreateUserUseCase} {uuid : UuidText} {id : UserId}
  {now : Instant} {input : UserInput} {email : Email u} {displayName : DisplayName}

/-- `execute` on the stores, in circumstances `w`. -/
def CreateUserUseCase.run (u : CaseMapping) (useCase : CreateUserUseCase) (uuid : UuidText)
    (id : UserId) (now : Instant) (input : UserInput) (w : Circumstances) (s : Stores) :
    Except ApplicationError (User u) × Stores :=
  (useCase.execute uuid id now input).eval (answer w) s

/-- A request with valid fields is one transaction, and one write to the cache if it commits. -/
theorem run_createUser (hemail : Email.parse input.email = .ok email)
    (hname : DisplayName.parse input.displayName = .ok displayName) (w : Circumstances)
    (s : Stores) :
    useCase.run u uuid id now input w s =
      match PostgresUserRepository.createWithJob w.transaction (.new id now email displayName)
        (useCase.job uuid id) s.database with
      | (.error e, db) => (.error (.fromRepository e), { s with database := db })
      | (.ok created, db) =>
        (.ok created, ⟨db, (RedisUserCache.set w.cache created s.entries).2⟩) := by
  unfold CreateUserUseCase.run CreateUserUseCase.execute
  rw [hemail, hname]
  show Program.eval (answer w) (.call (Call.createWithJob _ _) _) s = _
  rw [Program.eval]
  simp only [answer, User.new]
  generalize PostgresUserRepository.createWithJob _ _ _ _ = done
  obtain ⟨reply, db⟩ := done
  cases reply with
  | error e => rfl
  | ok created => rfl

/-- A request with an invalid field asks nobody. -/
theorem run_createUser_invalid {e : UserError}
    (h : Email.parse (u := u) input.email = .error e ∨
      (∃ email : Email u, Email.parse input.email = .ok email) ∧
        DisplayName.parse input.displayName = .error e) (w : Circumstances) (s : Stores) :
    useCase.run u uuid id now input w s = (.error (.invalidInput e), s) := by
  unfold CreateUserUseCase.run CreateUserUseCase.execute
  rcases h with hemail | ⟨⟨email, hemail⟩, hname⟩
  · rw [hemail]
    rfl
  · rw [hemail, hname]
    rfl

/-- How `execute` ends. -/
theorem run_createUser_cases (useCase : CreateUserUseCase) (uuid : UuidText) (id : UserId)
    (now : Instant) (input : UserInput) (w : Circumstances) (s : Stores) :
    (∃ e, useCase.run u uuid id now input w s = (.error (.invalidInput e), s)) ∨
      ∃ (email : Email u) (displayName : DisplayName) (reply : _) (db : Database),
        PostgresUserRepository.createWithJob w.transaction (.new id now email displayName)
          (useCase.job uuid id) s.database = (reply, db) ∧
        (useCase.run u uuid id now input w s).1 = reply.mapError .fromRepository ∧
        (useCase.run u uuid id now input w s).2.database = db := by
  cases hemail : Email.parse (u := u) input.email with
  | error e => exact Or.inl ⟨e, run_createUser_invalid (Or.inl hemail) w s⟩
  | ok email =>
    cases hname : DisplayName.parse input.displayName with
    | error e => exact Or.inl ⟨e, run_createUser_invalid (Or.inr ⟨⟨email, hemail⟩, hname⟩) w s⟩
    | ok displayName =>
      obtain ⟨⟨reply, db⟩, hdone⟩ : ∃ done, PostgresUserRepository.createWithJob w.transaction
        (.new id now email displayName) (useCase.job uuid id) s.database = done := ⟨_, rfl⟩
      refine Or.inr ⟨email, displayName, reply, db, hdone, ?_⟩
      rw [run_createUser hemail hname, hdone]
      cases reply with
      | error e => exact ⟨rfl, rfl⟩
      | ok created => exact ⟨rfl, rfl⟩

/-- **A user is stored with its job, or nothing is.** Let `execute` run with a budget the
configuration allows, in any database and with any of its steps failing:

* if it returns a user, one user and one job were added: the user is the one that is returned, the
  job is pending without an attempt, and the handler of its type accepts it and reads the `id`;
* if it returns an error, and no reply to a COMMIT was lost, the database is as before;
* if the fields are valid, the `id` is new, the transaction gets to the first INSERT and the
  address is taken, it returns `EmailAlreadyExists`;
* what a transaction that is about to commit has stored is converted without an error. -/
theorem create_user_atomic (hpos : 0 < useCase.jobMaxAttempts)
    (hmax : (useCase.jobMaxAttempts : Int) ≤ Job.integerMax)
    (huuid : uuid.parseStr (uuid.toString id) = some id) (reject : Value → String)
    (w : Circumstances) (s : Stores) :
    (∀ user, (useCase.run u uuid id now input w s).1 = .ok user →
      ∃ (row : UserRow) (job : Job.JobRow),
        (useCase.run u uuid id now input w s).2.database.users.rows =
          s.database.users.rows ++ [row] ∧ row.intoDomain u = .ok user ∧
        (useCase.run u uuid id now input w s).2.database.jobs.rows =
          s.database.jobs.rows ++ [job] ∧
        job.status = .pending ∧ job.attempts = 0 ∧ job.maxAttempts = useCase.jobMaxAttempts ∧
        job.jobType = UserCreatedHandler.jobType ∧
        UserCreatedHandler.fromValue uuid reject job.payload = .ok ⟨user.id⟩ ∧
        ∀ claimed : ClaimedJob, claimed.payload = job.payload →
          UserCreatedHandler.handle uuid reject claimed = .ok ()) ∧
    (∀ e, (useCase.run u uuid id now input w s).1 = .error e →
      w.transaction.commit ≠ .replyLost →
      (useCase.run u uuid id now input w s).2.database = s.database) ∧
    (∀ (email : Email u) (displayName : DisplayName), Email.parse input.email = .ok email →
      DisplayName.parse input.displayName = .ok displayName →
      IsText input.email → IsText input.displayName → w.transaction.beginFails = false →
      w.transaction.insertUserFails = false → id ∉ s.database.users.rows.map UserRow.id →
      (∃ row ∈ s.database.users.rows, row.email = email.asStr) →
      (useCase.run u uuid id now input w s).1 = .error .emailAlreadyExists) ∧
    (∀ (user : User u) job maxAttempts created db,
      transact w.transaction (.bound user) job maxAttempts s.database = .ok (created, db) →
      created.intoDomain u = .ok user.stored) := by
  have hcases := run_createUser_cases (u := u) useCase uuid id now input w s
  refine ⟨?_, ?_, ?_, ?_⟩
  · -- A success has committed: both rows are in, and what was built before the INSERTs is what the
    -- tables hold.
    intro user hok
    rcases hcases with ⟨e, hinvalid⟩ | ⟨email, displayName, reply, db, hdone, hresult, hdb⟩
    · rw [hinvalid] at hok
      cases hok
    · rw [hresult, Except.mapError_eq_ok] at hok
      rw [hok] at hdone
      rcases createWithJob_spec hdone with ⟨e, herror, _⟩ |
        ⟨hstored, husers, newJob, maxAttempts, htype, hpayload, hbudget, hjobs⟩
      · cases herror
      · obtain rfl := Except.ok.inj hstored
        have hread : UserCreatedHandler.fromValue uuid reject (useCase.job uuid id).payload =
            .ok ⟨id⟩ := UserCreatedHandler.fromValue_userId reject huuid
        have hjob := validateMaxAttempts_of_pos hpos hmax
        refine ⟨.bound (.new id now email displayName), newJob.row maxAttempts w.transaction.began,
          ?_, intoDomain_bound _, ?_, rfl, rfl, ?_, htype, ?_, ?_⟩
        · rw [hdb]
          exact (UserTable.insert_eq_ok husers).1
        · rw [hdb]
          exact hjobs
        · exact Option.some.inj (hbudget.symm.trans hjob)
        · show UserCreatedHandler.fromValue uuid reject newJob.payload = _
          rw [hpayload]
          exact hread
        · intro claimed hclaimed
          have hpayload' : claimed.payload = (useCase.job uuid id).payload :=
            hclaimed.trans hpayload
          rw [← hpayload'] at hread
          exact UserCreatedHandler.handle_of_fromValue hread
  · -- Nothing has run after a failed step, and the transaction was dropped. Only a lost COMMIT may
    -- have taken effect all the same.
    intro e herror hcommit
    rcases hcases with ⟨e', hinvalid⟩ | ⟨email, displayName, reply, db, hdone, hresult, hdb⟩
    · rw [hinvalid]
    · rcases createWithJob_spec hdone with ⟨e', _, hsame⟩ | ⟨hstored, _⟩
      · rw [hdb]
        exact hsame.resolve_right hcommit
      · rw [hresult, hstored] at herror
        cases herror
  · -- Everything before the first INSERT succeeds, so it is the unique index that answers.
    intro email displayName hemail hname htext htext' hbegin hinsert hid htaken
    obtain ⟨row, hrow, hsame⟩ := htaken
    have hduplicate := createWithJob_duplicate w.transaction (.new id now email displayName)
      (useCase.job uuid id) (validateMaxAttempts_of_pos hpos hmax) hbegin hinsert
      ⟨fun h => htext (Email.nul_of_parse hemail h),
        fun h => htext' (DisplayName.nul_of_parse hname h)⟩ hid
      (List.mem_map.mpr ⟨row, hrow, hsame⟩)
    rw [run_createUser hemail hname, hduplicate]
    rfl
  · intro user job maxAttempts created db htransact
    rw [(transact_eq_ok htransact).1, intoDomain_bound]

/-! ## A registration -/

def sampleId : Uuid := 0x67e5504410b1426f9247bb680e5fe0c8#128

/-- The `uuid` crate on `sampleId`. -/
def sampleUuid : UuidText where
  toString _ := "67e55044-10b1-426f-9247-bb680e5fe0c8"
  parseStr s := if s = "67e55044-10b1-426f-9247-bb680e5fe0c8" then some sampleId else none

def sampleCreateUser : CreateUserUseCase := ⟨300, 5⟩

def sampleInput : UserInput := ⟨" A@b.C", "Al "⟩

def sampleEmail : Email Text.asciiCase := ⟨"a@b.c", by decide, by decide⟩

def sampleName : DisplayName := ⟨"Al", by decide, by decide⟩

theorem parse_sampleEmail : Email.parse sampleInput.email = .ok sampleEmail :=
  Email.parse_of_normalized (by decide)

theorem parse_sampleName : DisplayName.parse sampleInput.displayName = .ok sampleName :=
  DisplayName.parse_of_trimmed (by decide)

/-- Every step succeeds. -/
def sampleCircumstances : Circumstances where
  queryFails := false
  now := 0
  transaction := ⟨1, .object [], 0, false, false, false, .committed⟩
  cache := .done

/-- No user, no job, nothing cached. -/
def emptyStores : Stores where
  database := ⟨⟨[], .usersEmailUnique, List.nodup_nil, List.nodup_nil⟩, .empty⟩
  entries _ := none

theorem run_sample : ∃ s, sampleCreateUser.run Text.asciiCase sampleUuid sampleId 1001 sampleInput
    sampleCircumstances emptyStores = (.ok ⟨sampleId, sampleEmail, sampleName, 1000, 1000⟩, s) := by
  rw [run_createUser parse_sampleEmail parse_sampleName]
  exact ⟨_, rfl⟩

theorem create_user_atomic_sample :
    ∃ (row : UserRow) (job : Job.JobRow),
      (sampleCreateUser.run Text.asciiCase sampleUuid sampleId 1001 sampleInput
        sampleCircumstances emptyStores).2.database.users.rows = [] ++ [row] ∧
      row.intoDomain Text.asciiCase = .ok ⟨sampleId, sampleEmail, sampleName, 1000, 1000⟩ ∧
      (sampleCreateUser.run Text.asciiCase sampleUuid sampleId 1001 sampleInput
        sampleCircumstances emptyStores).2.database.jobs.rows = [] ++ [job] ∧
      job.status = .pending ∧ job.attempts = 0 ∧ job.maxAttempts = 5 ∧
      job.jobType = UserCreatedHandler.jobType ∧
      UserCreatedHandler.fromValue sampleUuid (fun _ => "") job.payload = .ok ⟨sampleId⟩ ∧
      ∀ claimed : ClaimedJob, claimed.payload = job.payload →
        UserCreatedHandler.handle sampleUuid (fun _ => "") claimed = .ok () := by
  obtain ⟨s, hrun⟩ := run_sample
  have hatomic := @create_user_atomic Text.asciiCase sampleCreateUser sampleUuid sampleId 1001
    sampleInput (by decide) (by decide) rfl (fun _ => "") sampleCircumstances emptyStores
  exact hatomic.1 _ (by rw [hrun])

/-- A user with the address of `sampleInput`. -/
def takenStores (id : Uuid) : Stores :=
  { emptyStores with
    database :=
      { emptyStores.database with
        users := ⟨[⟨id, "a@b.c", "Al", 0, 0⟩], .usersEmailUnique, List.nodup_singleton _,
          List.nodup_singleton _⟩ } }

/-- The address of `sampleInput`, and a display name that is too short. -/
def invalidInput : UserInput :=
  { sampleInput with displayName := "x" }

/-- The address is taken, and this is not what is reported: the display name is invalid; or the
INSERT fails for another reason; or the new `id` is taken as well. -/
theorem taken_address_unreported :
    (∀ id, ∃ row ∈ (takenStores id).database.users.rows, row.email = sampleEmail.asStr) ∧
    (sampleCreateUser.run Text.asciiCase sampleUuid sampleId 1001 invalidInput
      sampleCircumstances (takenStores 0)).1 = .error (.invalidInput .invalidDisplayName) ∧
    (sampleCreateUser.run Text.asciiCase sampleUuid sampleId 1001 sampleInput
      { sampleCircumstances with
        transaction := { sampleCircumstances.transaction with insertUserFails := true } }
      (takenStores 0)).1 = .error .dependencyUnavailable ∧
    (sampleCreateUser.run Text.asciiCase sampleUuid sampleId 1001 sampleInput
      sampleCircumstances (takenStores sampleId)).1 = .error .dependencyUnavailable := by
  refine ⟨fun id => ⟨_, List.mem_cons_self, rfl⟩, ?_, ?_, ?_⟩
  · have hemail : Email.parse invalidInput.email = .ok sampleEmail := parse_sampleEmail
    have hname : DisplayName.parse invalidInput.displayName = .error .invalidDisplayName := rfl
    rw [run_createUser_invalid (Or.inr ⟨⟨sampleEmail, hemail⟩, hname⟩)]
  · rw [run_createUser parse_sampleEmail parse_sampleName]
    rfl
  · rw [run_createUser parse_sampleEmail parse_sampleName]
    rfl

end BaseSkeleton.Users
