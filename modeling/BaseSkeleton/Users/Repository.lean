import BaseSkeleton.Job.PostgresQueue
import BaseSkeleton.Lib.Fallible
import BaseSkeleton.Users.Ports

/-!
# `PostgresUserRepository` and the `users` table

`migrations/20260730000000_create_users.up.sql` as a type whose values satisfy the schema, the
statements of `src/infrastructure/database/postgres/user_repository.rs` on it, and the transaction
that stores a user together with its job. A statement that fails changes nothing; why it fails
when PostgreSQL does not reject it is not modelled: a `Bool` says that it does.

* `UserTable.insert` / `UserTable.update` / `UserTable.delete` and their `_spec`s.
* `intoDomain_storedBy` — a row that stores a user is read back as that user.
* `createWithJob_ok` / `createWithJob_error` — what a registration leaves behind.
-/

namespace BaseSkeleton.Users

open Text (CaseMapping)
open Job (JobTable NewJob)

/-! ## The table

Both unique columns are fields of the type. The texts of a statement are checked before its
constraints. -/

structure UserRow where
  id : Uuid
  email : String
  displayName : String
  createdAt : Instant
  updatedAt : Instant

/-- `update`'s `SET`. -/
def UserRow.updated (email displayName : String) (now : Instant) (r : UserRow) : UserRow :=
  { r with email := email, displayName := displayName, updatedAt := now }

theorem UserRow.id_updated_if (id : Uuid) (email displayName : String) (now : Instant)
    (r : UserRow) : (if r.id = id then r.updated email displayName now else r).id = r.id := by
  split <;> rfl

/-- The name of the constraint on `users.email`: the second migration renames it. -/
inductive EmailConstraint where
  | usersEmailKey
  | usersEmailUnique

def EmailConstraint.name : EmailConstraint → String
  | usersEmailKey => "users_email_key"
  | usersEmailUnique => "users_email_unique"

/-- `sqlx::Error`, as far as the adapter tells errors apart. -/
inductive SqlxError where
  | uniqueViolation (constraint : String)
  | other

/-- `From<sqlx::Error>`. -/
def RepositoryError.fromSqlx : SqlxError → RepositoryError
  | .uniqueViolation constraint =>
    if constraint = "users_email_unique" ∨ constraint = "users_email_key" then .duplicateEmail
    else .unavailable
  | .other => .unavailable

theorem RepositoryError.fromSqlx_email (constraint : EmailConstraint) :
    fromSqlx (.uniqueViolation constraint.name) = .duplicateEmail := by
  cases constraint <;> decide

/-- A timestamp as TIMESTAMPTZ keeps it, in microseconds. -/
def timestamptz (t : Instant) : Instant :=
  t / 1000 * 1000

/-- A `users` table that satisfies its schema. -/
structure UserTable where
  rows : List UserRow
  emailConstraint : EmailConstraint
  keyed : (rows.map UserRow.id).Nodup
  unique : (rows.map UserRow.email).Nodup

namespace UserTable

/-- `SELECT .. WHERE id = $1`. -/
def find (T : UserTable) (id : Uuid) : Option UserRow :=
  Keyed.get UserRow.id id T.rows

/-- `INSERT .. VALUES row`; the primary key is checked first. -/
def insert (T : UserTable) (row : UserRow) : Except SqlxError UserTable :=
  if ¬ (IsText row.email ∧ IsText row.displayName) then .error .other
  else if hkeyed : ((T.rows ++ [row]).map UserRow.id).Nodup then
    if hunique : ((T.rows ++ [row]).map UserRow.email).Nodup then
      .ok ⟨T.rows ++ [row], T.emailConstraint, hkeyed, hunique⟩
    else .error (.uniqueViolation T.emailConstraint.name)
  else .error (.uniqueViolation "users_pkey")

/-- `UPDATE .. WHERE id = $1`, with the row it returns. -/
def update (T : UserTable) (id : Uuid) (email displayName : String) (now : Instant) :
    Except SqlxError (UserTable × Option UserRow) :=
  let rows := T.rows.map fun r => if r.id = id then r.updated email displayName now else r
  if ¬ (IsText email ∧ IsText displayName) then .error .other
  else if hunique : (rows.map UserRow.email).Nodup then
    .ok (
      { rows := rows
        emailConstraint := T.emailConstraint
        keyed := by
          rw [Keyed.map_key fun r => UserRow.id_updated_if id email displayName now r]
          exact T.keyed
        unique := hunique },
      (T.find id).map fun r => r.updated email displayName now)
  else .error (.uniqueViolation T.emailConstraint.name)

/-- `DELETE .. WHERE id = $1`, with the number of rows it affected. -/
def delete (T : UserTable) (id : Uuid) : UserTable × Nat :=
  ({ rows := T.rows.filter fun r => r.id ≠ id
     emailConstraint := T.emailConstraint
     keyed := T.keyed.sublist (List.filter_sublist.map UserRow.id)
     unique := T.unique.sublist (List.filter_sublist.map UserRow.email) },
    (T.rows.filter fun r => r.id = id).length)

/-! ## What a write does to one row

Each write is read off one `id` at a time. -/

variable {T T' : UserTable} {row : UserRow} {id : Uuid}

theorem find_eq_some : T.find id = some row ↔ row ∈ T.rows ∧ row.id = id :=
  Keyed.get_eq_some T.keyed

/-- A value of a column is not there yet exactly if one more row with it keeps them apart. -/
theorem nodup_append_iff {α : Type} {column : UserRow → α} (h : (T.rows.map column).Nodup) :
    ((T.rows ++ [row]).map column).Nodup ↔ column row ∉ T.rows.map column := by
  rw [List.map_append, List.nodup_append_comm, List.map_singleton, List.singleton_append,
    List.nodup_cons]
  exact and_iff_left h

theorem insert_eq_ok (h : T.insert row = .ok T') :
    T'.rows = T.rows ++ [row] ∧ row.id ∉ T.rows.map UserRow.id := by
  unfold insert at h
  split at h
  · cases h
  · split at h
    · next hkeyed =>
      split at h
      · rw [← Except.ok.inj h]
        exact ⟨rfl, (nodup_append_iff T.keyed).mp hkeyed⟩
      · cases h
    · cases h

/-- A second row with an address is rejected by the constraint on it. -/
theorem insert_duplicate (htext : IsText row.email ∧ IsText row.displayName)
    (hid : row.id ∉ T.rows.map UserRow.id) (hemail : row.email ∈ T.rows.map UserRow.email) :
    T.insert row = .error (.uniqueViolation T.emailConstraint.name) := by
  have hkeyed := (nodup_append_iff T.keyed).mpr hid
  have hunique : ¬ ((T.rows ++ [row]).map UserRow.email).Nodup := fun h =>
    (nodup_append_iff T.unique).mp h hemail
  unfold insert
  rw [if_neg (not_not_intro htext), dif_pos hkeyed, dif_neg hunique]

theorem find_insert (h : T.insert row = .ok T') (k : Uuid) :
    T'.find k = if k = row.id then some row else T.find k := by
  obtain ⟨hrows, hid⟩ := insert_eq_ok h
  have hfind : T'.find k = (T.find k).or (if row.id = k then some row else none) := by
    unfold find
    rw [hrows]
    exact Keyed.get_append_singleton k T.rows row
  rw [hfind]
  by_cases hk : k = row.id
  · have hnone : T.find k = none := by
      refine Keyed.get_eq_none.mpr fun r hr hrk => hid ?_
      rw [← hk, ← hrk]
      exact List.mem_map_of_mem hr
    rw [hnone, if_pos hk, if_pos hk.symm, Option.none_or]
  · rw [if_neg hk, if_neg (Ne.symm hk), Option.or_none]

theorem update_eq_ok {email displayName : String} {now : Instant} {returned : Option UserRow}
    (h : T.update id email displayName now = .ok (T', returned)) :
    T'.rows = T.rows.map (fun r => if r.id = id then r.updated email displayName now else r) ∧
      returned = (T.find id).map fun r => r.updated email displayName now := by
  unfold update at h
  simp only at h
  split at h
  · cases h
  · split at h
    · have hpair := Except.ok.inj h
      rw [← (Prod.mk.inj hpair).1, ← (Prod.mk.inj hpair).2]
      exact ⟨rfl, rfl⟩
    · cases h

theorem find_update {email displayName : String} {now : Instant} {returned : Option UserRow}
    (h : T.update id email displayName now = .ok (T', returned)) (k : Uuid) :
    T'.find k = if k = id then returned else T.find k := by
  obtain ⟨hrows, hreturned⟩ := update_eq_ok h
  have hfind : T'.find k = (T.find k).map fun r =>
      if r.id = id then r.updated email displayName now else r := by
    unfold find
    rw [hrows]
    exact Keyed.get_map (UserRow.id_updated_if id email displayName now) k T.rows
  rw [hfind, hreturned]
  cases hk : T.find k with
  | none =>
    split
    · next heq =>
      rw [← heq, hk]
      rfl
    · rfl
  | some r =>
    have hrid := (find_eq_some.mp hk).2
    split
    · next heq => rw [← heq, hk, Option.map_some, Option.map_some, if_pos hrid]
    · next hne => rw [Option.map_some, if_neg (by rw [hrid]; exact hne)]

theorem find_delete (k : Uuid) :
    (T.delete id).1.find k = if k = id then none else T.find k := by
  have hfind : (T.delete id).1.find k = (T.find k).filter fun r => r.id ≠ id :=
    Keyed.get_filter T.keyed _ k
  rw [hfind]
  cases hk : T.find k with
  | none => split <;> rfl
  | some r =>
    have hrid := (find_eq_some.mp hk).2
    split
    · next heq => simp [Option.filter, hrid, heq]
    · next hne => simp [Option.filter, hrid, hne]

/-- `DELETE` affects the row it finds. -/
theorem delete_affected : (T.delete id).2 = if (T.find id).isSome then 1 else 0 := by
  have hrows : T.rows.filter (fun r => r.id = id) =
      ((T.find id).filter fun r => r.id = id).toList :=
    Keyed.filter_of_key T.keyed fun r hr => of_decide_eq_true hr
  show (T.rows.filter fun r => r.id = id).length = _
  rw [hrows]
  cases hid : T.find id with
  | none => rfl
  | some r => simp [Option.filter, (find_eq_some.mp hid).2]

end UserTable

/-! ## The adapter

A row is read back through the value objects, so that a row with an invalid text is an error. -/

variable {u : CaseMapping}

/-- `UserRow::into_domain`. -/
def UserRow.intoDomain (u : CaseMapping) (row : UserRow) : Except RepositoryError (User u) := do
  let email ← (Email.parse row.email).mapError fun _ => .unavailable
  let displayName ← (DisplayName.parse row.displayName).mapError fun _ => .unavailable
  return ⟨row.id, email, displayName, row.createdAt, row.updatedAt⟩

/-- The values that are bound for a user. -/
def UserRow.bound (user : User u) : UserRow where
  id := user.id
  email := user.email.asStr
  displayName := user.displayName.asStr
  createdAt := timestamptz user.createdAt
  updatedAt := timestamptz user.updatedAt

/-- **A row with a parsed address and a parsed name is read back.** -/
theorem intoDomain_parsed (id : Uuid) (email : Email u) (displayName : DisplayName)
    (createdAt updatedAt : Instant) :
    UserRow.intoDomain u ⟨id, email.asStr, displayName.asStr, createdAt, updatedAt⟩ =
      .ok ⟨id, email, displayName, createdAt, updatedAt⟩ := by
  unfold UserRow.intoDomain
  simp only [Email.parse_asStr, DisplayName.parse_asStr]
  rfl

theorem intoDomain_id {row : UserRow} {user : User u} (h : row.intoDomain u = .ok user) :
    user.id = row.id := by
  simp only [UserRow.intoDomain, Except.bind_eq_ok, Except.pure_eq_ok] at h
  obtain ⟨email, _, displayName, _, rfl⟩ := h
  rfl

namespace PostgresUserRepository

def findById (u : CaseMapping) (fails : Bool) (id : UserId) (T : UserTable) :
    Except RepositoryError (Option (User u)) :=
  if fails then .error .unavailable
  else
    match T.find id with
    | none => .ok none
    | some row => (row.intoDomain u).map some

def update (fails : Bool) (now : Instant) (id : UserId) (email : Email u)
    (displayName : DisplayName) (T : UserTable) : Except RepositoryError (User u) × UserTable :=
  if fails then (.error .unavailable, T)
  else
    match T.update id email.asStr displayName.asStr (timestamptz now) with
    | .error e => (.error (.fromSqlx e), T)
    | .ok (T', none) => (.error .notFound, T')
    | .ok (T', some row) => (row.intoDomain u, T')

def delete (fails : Bool) (id : UserId) (T : UserTable) : Except RepositoryError Bool × UserTable :=
  if fails then (.error .unavailable, T)
  else (.ok ((T.delete id).2 = 1), (T.delete id).1)

variable {fails : Bool} {now : Instant} {id : UserId} {T T' : UserTable}

theorem findById_ok {user : User u} (h : findById u fails id T = .ok (some user)) :
    ∃ row, T.find id = some row ∧ row.intoDomain u = .ok user := by
  unfold findById at h
  split at h
  · cases h
  · split at h
    · cases h
    · next row hrow =>
      refine ⟨row, hrow, ?_⟩
      cases hdomain : row.intoDomain u with
      | error e =>
        rw [hdomain] at h
        cases h
      | ok user' =>
        rw [hdomain] at h
        cases h
        rfl

/-- An update changes the row of its user, and only if it is reported. -/
theorem update_spec {email : Email u} {displayName : DisplayName}
    {reply : Except RepositoryError (User u)}
    (h : update fails now id email displayName T = (reply, T')) :
    (∀ user, reply = .ok user →
      user.id = id ∧ ∃ row, T'.find id = some row ∧ row.intoDomain u = .ok user) ∧
    ∀ k, T'.find k = T.find k ∨ (k = id ∧ ∃ user, reply = .ok user) := by
  unfold update at h
  split at h
  · cases h
    exact ⟨fun _ h => (nomatch h), fun k => Or.inl rfl⟩
  · split at h
    · cases h
      exact ⟨fun _ h => (nomatch h), fun k => Or.inl rfl⟩
    · next T'' hupdate =>
      cases h
      -- No row has the id, so that the UPDATE has changed none.
      refine ⟨fun _ h => (nomatch h), fun k => Or.inl ?_⟩
      have hreturned := (UserTable.update_eq_ok hupdate).2
      rw [UserTable.find_update hupdate]
      split
      · next hk => rw [hk, Option.map_eq_none_iff.mp hreturned.symm]
      · rfl
    · next T'' row hupdate =>
      obtain ⟨hreply, hT⟩ := Prod.mk.inj h
      subst hT
      obtain ⟨row₀, hrow₀, hset⟩ := Option.map_eq_some_iff.mp
        (UserTable.update_eq_ok hupdate).2.symm
      have hfound : T''.find id = some row := by
        rw [UserTable.find_update hupdate, if_pos rfl]
      -- A row that was written from parsed values is read back as they are.
      have hdomain : row.intoDomain u =
          .ok ⟨row.id, email, displayName, row.createdAt, row.updatedAt⟩ := by
        rw [← hset]
        exact intoDomain_parsed row₀.id email displayName row₀.createdAt _
      refine ⟨fun user huser => ?_, fun k => ?_⟩
      · rw [huser] at hreply
        have hid := (UserTable.find_eq_some.mp hfound).2
        exact ⟨(intoDomain_id hreply).trans hid, row, hfound, hreply⟩
      · by_cases hk : k = id
        · exact Or.inr ⟨hk, _, hreply.symm.trans hdomain⟩
        · left
          rw [UserTable.find_update hupdate, if_neg hk]

/-- A deletion removes the row of its user, and only if it is reported. -/
theorem delete_spec {reply : Except RepositoryError Bool}
    (h : delete fails id T = (reply, T')) (k : Uuid) :
    T'.find k = T.find k ∨ (k = id ∧ reply = .ok true) := by
  unfold delete at h
  split at h
  · cases h
    exact Or.inl rfl
  · cases h
    rw [UserTable.find_delete, UserTable.delete_affected]
    by_cases hk : k = id
    · rw [hk]
      cases hfind : T.find id with
      | none => exact Or.inl (if_pos rfl)
      | some row => exact Or.inr ⟨rfl, rfl⟩
    · exact Or.inl (if_neg hk)

end PostgresUserRepository

/-! ## Registration

BEGIN, two INSERTs, COMMIT. A transaction that was not committed has changed nothing. -/

structure Database where
  users : UserTable
  jobs : JobTable

/-- How a COMMIT ends. -/
inductive CommitOutcome where
  | committed
  | failed
  /-- committed, but the reply is lost -/
  | replyLost
deriving DecidableEq

/-- What a transaction of `create_with_job` finds around it, and which of its steps fail. -/
structure Transaction where
  jobId : Uuid
  traceContext : Value
  /-- `NOW()` of the transaction -/
  began : Instant
  beginFails : Bool
  insertUserFails : Bool
  insertJobFails : Bool
  commit : CommitOutcome

/-- From BEGIN to before COMMIT. -/
def transact (t : Transaction) (row : UserRow) (job : NewJob) (maxAttempts : Int) (db : Database) :
    Except RepositoryError (UserRow × Database) := do
  .ensure (¬ t.beginFails) .unavailable
  let users ← (if t.insertUserFails then .error .other else db.users.insert row).mapError .fromSqlx
  let (jobs, _) ← (if t.insertJobFails then .error .refused
    else db.jobs.insert (job.row maxAttempts t.began)).mapError fun _ => .unavailable
  return (row, ⟨users, jobs⟩)

/-- `create_with_job`. -/
def PostgresUserRepository.createWithJob (t : Transaction) (user : User u) (job : UserCreationJob)
    (db : Database) : Except RepositoryError (User u) × Database :=
  match Job.validateMaxAttempts job.maxAttempts with
  | none => (.error .unavailable, db)
  | some maxAttempts =>
    let newJob := (NewJob.new t.jobId job.jobType job.payload job.maxAttempts).withTraceContext
      t.traceContext
    match transact t (.bound user) newJob maxAttempts db with
    -- a transaction that is dropped rolls back
    | .error e => (.error e, db)
    | .ok (created, db') =>
      match t.commit with
      | .failed => (.error .unavailable, db)
      | .replyLost => (.error .unavailable, db')
      | .committed => (created.intoDomain u, db')

/-- A user as its row keeps it. -/
def User.stored (user : User u) : User u :=
  { user with
    createdAt := timestamptz user.createdAt
    updatedAt := timestamptz user.updatedAt }

@[simp] theorem intoDomain_bound (user : User u) :
    (UserRow.bound user).intoDomain u = .ok user.stored :=
  intoDomain_parsed user.id user.email user.displayName _ _

theorem transact_eq_ok {t : Transaction} {row created : UserRow} {job : NewJob}
    {maxAttempts : Int} {db db' : Database}
    (h : transact t row job maxAttempts db = .ok (created, db')) :
    created = row ∧ db.users.insert row = .ok db'.users ∧
      db'.jobs.rows = db.jobs.rows ++ [job.row maxAttempts t.began] := by
  simp only [transact, Except.bind_eq_ok, Except.mapError_eq_ok, Except.pure_eq_ok,
    Prod.mk.injEq] at h
  obtain ⟨_, _, users, husers, ⟨jobs, inserted⟩, hjobs, rfl, rfl⟩ := h
  refine ⟨rfl, ?_, ?_⟩
  · split at husers
    · cases husers
    · exact husers
  · split at hjobs
    · cases hjobs
    · exact (Job.JobTable.insert_eq_ok.mp hjobs).1

theorem validateMaxAttempts_of_pos {value : Nat} (hpos : 0 < value)
    (hmax : (value : Int) ≤ Job.integerMax) :
    Job.validateMaxAttempts value = some (value : Int) := by
  unfold Job.validateMaxAttempts
  rw [if_neg (Nat.ne_of_gt hpos), if_pos hmax]

/-- A registration whose address is taken is rejected as such. -/
theorem createWithJob_duplicate (t : Transaction) (user : User u) (job : UserCreationJob)
    {db : Database} {maxAttempts : Int}
    (hmax : Job.validateMaxAttempts job.maxAttempts = some maxAttempts)
    (hbegin : t.beginFails = false) (hinsert : t.insertUserFails = false)
    (htext : IsText user.email.asStr ∧ IsText user.displayName.asStr)
    (hid : user.id ∉ db.users.rows.map UserRow.id)
    (hemail : user.email.asStr ∈ db.users.rows.map UserRow.email) :
    PostgresUserRepository.createWithJob t user job db = (.error .duplicateEmail, db) := by
  have hduplicate : db.users.insert (.bound user) = .error (.uniqueViolation _) :=
    UserTable.insert_duplicate htext hid hemail
  have htransact : ∀ newJob, transact t (.bound user) newJob maxAttempts db =
      .error .duplicateEmail := by
    intro newJob
    unfold transact
    rw [hbegin, hinsert, hduplicate]
    show Except.error (RepositoryError.fromSqlx _) = _
    rw [RepositoryError.fromSqlx_email]
  unfold PostgresUserRepository.createWithJob
  rw [hmax]
  simp only [htransact]

/-- **What a registration leaves behind**: a user and a job, or nothing; or both under an error
when the reply to the COMMIT is lost. The conversion after the COMMIT does not fail. -/
theorem createWithJob_spec {t : Transaction} {user : User u} {job : UserCreationJob}
    {db db' : Database} {result : Except RepositoryError (User u)}
    (h : PostgresUserRepository.createWithJob t user job db = (result, db')) :
    (∃ e, result = .error e ∧ (db' = db ∨ t.commit = .replyLost)) ∨
      (result = .ok user.stored ∧ db.users.insert (.bound user) = .ok db'.users ∧
        ∃ (newJob : NewJob) (maxAttempts : Int),
          newJob.jobType = job.jobType ∧ newJob.payload = job.payload ∧
          Job.validateMaxAttempts job.maxAttempts = some maxAttempts ∧
          db'.jobs.rows = db.jobs.rows ++ [newJob.row maxAttempts t.began]) := by
  unfold PostgresUserRepository.createWithJob at h
  split at h
  · cases h
    exact Or.inl ⟨_, rfl, Or.inl rfl⟩
  · next maxAttempts hmax =>
    simp only at h
    split at h
    · cases h
      exact Or.inl ⟨_, rfl, Or.inl rfl⟩
    · next created db'' htransact =>
      obtain ⟨hcreated, husers, hjobs⟩ := transact_eq_ok htransact
      split at h
      · cases h
        exact Or.inl ⟨_, rfl, Or.inl rfl⟩
      · next hcommit =>
        cases h
        exact Or.inl ⟨_, rfl, Or.inr hcommit⟩
      · obtain ⟨hresult, hdb⟩ := Prod.mk.inj h
        rw [hcreated, intoDomain_bound] at hresult
        rw [← hdb]
        exact Or.inr ⟨hresult.symm, husers, _, maxAttempts, rfl, rfl, hmax, hjobs⟩

end BaseSkeleton.Users
