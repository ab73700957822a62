import BaseSkeleton.Lib.Registry
import BaseSkeleton.Users.Linearizable
import BaseSkeleton.Users.TextColumns

/-!
# What the server is for

A registry of users: each is found under its `id`, and no two have the same address. `Does` says
what a request does to the registry and what it is told; a request may also be told that a
dependency is unavailable, and then it has been carried out or not.

A `users` table `Represents` a registry when its rows are the users of the registry as the adapter
writes them; the empty table represents the empty registry, and every request leaves a table that
represents what it has made of the registry.

* `alone_refines` — one request.
* `server_refines_registry` — every run of the server.
-/

namespace BaseSkeleton.Users

open Text (CaseMapping)

variable {u : CaseMapping}

/-! ## The registry

What the server is for, in terms of users and addresses: nothing of rows, statements or caches.
`Does` is what a request may do; `Serves` adds what no client can tell apart, a dependency that is
unavailable before or after it has done its part. -/

abbrev UserRegistry (u : CaseMapping) := Registry (User.id (u := u)) (User.email (u := u))

variable {R R' : UserRegistry u} {id : UserId}

/-- The fields a request brings. -/
def Request.input : Request → Option UserInput
  | .create _ _ input => some input
  | .update _ input => some input
  | _ => none

/-- What a request does, and what it is told. -/
inductive Does (R : UserRegistry u) : Request → Response u → UserRegistry u → Prop where
  | invalid (request : Request) (input : UserInput) (e : UserError)
      (hrequest : request.input = some input) (hinput : input.parse u = .error e) :
      Does R request (.error (.invalidInput e)) R
  | created (now : Instant) (input : UserInput) (user : User u)
      (hinput : input.parse u = .ok (user.email, user.displayName))
      (hstamps : user.createdAt = timestamptz now ∧ user.updatedAt = timestamptz now)
      (hnew : R.find user.id = none) (hfree : R.Free user.id user.email) :
      Does R (.create user.id now input) (.ok (some user)) (R.put user hfree)
  | createTaken (id : UserId) (now : Instant) (input : UserInput) (email : Email u)
      (displayName : DisplayName) (hinput : input.parse u = .ok (email, displayName))
      (htaken : ¬ R.Free id email) : Does R (.create id now input) (.error .emailAlreadyExists) R
  | found (user : User u) (h : R.find user.id = some user) :
      Does R (.get user.id) (.ok (some user)) R
  | updated (input : UserInput) (before user : User u) (hbefore : R.find user.id = some before)
      (hinput : input.parse u = .ok (user.email, user.displayName))
      (hcreated : user.createdAt = before.createdAt) (hfree : R.Free user.id user.email) :
      Does R (.update user.id input) (.ok (some user)) (R.put user hfree)
  | updateTaken (input : UserInput) (before : User u) (email : Email u) (displayName : DisplayName)
      (hbefore : R.find before.id = some before)
      (hinput : input.parse u = .ok (email, displayName)) (htaken : ¬ R.Free before.id email) :
      Does R (.update before.id input) (.error .emailAlreadyExists) R
  | deleted (user : User u) (h : R.find user.id = some user) :
      Does R (.delete user.id) (.ok none) (R.remove user.id)
  /-- only a request that creates no user finds none -/
  | notFound (request : Request) (hcreate : ∀ id now input, request ≠ .create id now input)
      (h : R.find request.about = none) : Does R request (.error .notFound) R

/-- A request is carried out and answered; or it is told that a dependency is unavailable, and is
carried out or not. -/
def Serves (R : UserRegistry u) (request : Request) (response : Response u)
    (R' : UserRegistry u) : Prop :=
  Does R request response R' ∨
    response = .error .dependencyUnavailable ∧ (R' = R ∨ ∃ told, Does R request told R')

/-! ## The table

The rows are the users of the registry, as the adapter binds them. An INSERT or an UPDATE succeeds
when the address is free in this sense, so that the constraint of the schema and the rule of the
registry are the same (`Represents.free_iff`). -/

/-- The row the adapter writes for `user`. -/
def UserRow.storing (user : User u) : UserRow :=
  ⟨user.id, user.email.asStr, user.displayName.asStr, user.createdAt, user.updatedAt⟩

/-- The rows are the users of the registry. -/
structure Represents (T : UserTable) (R : UserRegistry u) : Prop where
  find : ∀ id, T.find id = (R.find id).map UserRow.storing

@[simp] theorem intoDomain_storing (user : User u) :
    (UserRow.storing user).intoDomain u = .ok user :=
  intoDomain_parsed user.id user.email user.displayName user.createdAt user.updatedAt

/-- An address is its text. -/
theorem Email.eq_of_asStr {email email' : Email u} (h : email.asStr = email'.asStr) :
    email = email' := by
  cases email
  cases email'
  cases h
  rfl

variable {T T' : UserTable} {user : User u} {row : UserRow}

/-- A row that is found is the row of a user. -/
theorem Represents.found (h : Represents T R) (hfind : T.find id = some row) :
    ∃ user, R.find id = some user ∧ user.id = id ∧ row = .storing user := by
  rw [h.find id, Option.map_eq_some_iff] at hfind
  obtain ⟨user, huser, rfl⟩ := hfind
  exact ⟨user, huser, R.keyed id user huser, rfl⟩

/-- Every row is the row of a user. -/
theorem Represents.of_row (h : Represents T R) (hrow : row ∈ T.rows) :
    ∃ user, R.find row.id = some user ∧ row = .storing user := by
  obtain ⟨user, huser, _, hstoring⟩ := h.found (UserTable.find_eq_some.mpr ⟨hrow, rfl⟩)
  exact ⟨user, huser, hstoring⟩

/-- Every user has a row. -/
theorem Represents.mem_rows (h : Represents T R) (huser : R.find id = some user) :
    UserRow.storing user ∈ T.rows := by
  have hfind : T.find id = some (.storing user) := by rw [h.find, huser]; rfl
  exact (UserTable.find_eq_some.mp hfind).1

/-- An address is free when no other row has it. -/
theorem Represents.free_iff (h : Represents T R) (email : Email u) :
    R.Free id email ↔ ∀ r ∈ T.rows, r.email = email.asStr → r.id = id := by
  constructor
  · intro hfree r hr hemail
    obtain ⟨user, huser, hrow⟩ := h.of_row hr
    rw [hrow] at hemail
    exact hfree r.id user huser (Email.eq_of_asStr hemail)
  · intro hrows k user huser hemail
    rw [← R.keyed k user huser]
    exact hrows _ (h.mem_rows huser) (congrArg Email.asStr hemail)

/-- A table in which one lookup has changed represents the registry with that user put. -/
theorem represents_put (h : Represents T R) (hfree : R.Free user.id user.email)
    (hfind : ∀ k, T'.find k = if k = user.id then some (.storing user) else T.find k) :
    Represents T' (R.put user hfree) where
  find k := by
    rw [hfind, R.find_put hfree]
    split
    · rfl
    · exact h.find k

/-- An INSERT that succeeds puts a user whose address is free. -/
theorem represents_insert (h : Represents T R) (hinsert : T.insert (.storing user) = .ok T') :
    R.find user.id = none ∧ ∃ hfree, Represents T' (R.put user hfree) := by
  obtain ⟨hrows, hid⟩ := UserTable.insert_eq_ok hinsert
  have hnone : R.find user.id = none := by
    refine Option.eq_none_iff_forall_ne_some.mpr fun other hother => hid ?_
    have hkey : other.id = user.id := R.keyed _ _ hother
    exact List.mem_map.mpr ⟨_, h.mem_rows hother, hkey⟩
  -- the table after it is well formed too, and so its addresses differ
  have hemail : user.email.asStr ∉ T.rows.map UserRow.email := by
    have hunique := T'.unique
    rw [hrows] at hunique
    exact (UserTable.nodup_append_iff T.unique).mp hunique
  have hfree : R.Free user.id user.email :=
    (h.free_iff user.email).mpr fun r hr hsame =>
      absurd (List.mem_map.mpr ⟨r, hr, hsame⟩) hemail
  exact ⟨hnone, hfree, represents_put h hfree (UserTable.find_insert hinsert)⟩

/-- An INSERT that reports a duplicate has found another row with the address. -/
theorem insert_duplicate_found {e : SqlxError} (h : T.insert row = .error e)
    (hduplicate : RepositoryError.fromSqlx e = .duplicateEmail) :
    ∃ r ∈ T.rows, r.email = row.email ∧ r.id ≠ row.id := by
  unfold UserTable.insert at h
  split at h
  · cases h
    cases hduplicate
  · split at h
    · next hkeyed =>
      split at h
      · cases h
      · next hunique =>
        rw [UserTable.nodup_append_iff T.unique, not_not] at hunique
        obtain ⟨r, hr, hemail⟩ := List.mem_map.mp hunique
        refine ⟨r, hr, hemail, fun hid => ?_⟩
        exact (UserTable.nodup_append_iff T.keyed).mp hkeyed (List.mem_map.mpr ⟨r, hr, hid⟩)
    · cases h
      cases hduplicate

/-- An address that no other row has stays unique. -/
theorem nodup_emailsAfter {email : String} (h : ∀ r ∈ T.rows, r.email = email → r.id = id) :
    ((T.rows.map fun r => if r.id = id then email else r.email)).Nodup := by
  refine List.Nodup.map_on ?_ (List.Nodup.of_map _ T.keyed)
  intro r hr r' hr' hsame
  have hid := List.inj_on_of_nodup_map T.keyed hr hr'
  have hemail := List.inj_on_of_nodup_map T.unique hr hr'
  split at hsame <;> split at hsame
  · next hr₁ hr₂ => exact hid (hr₁.trans hr₂.symm)
  · next _ hr₂ => exact absurd (h r' hr' hsame.symm) hr₂
  · next hr₁ _ => exact absurd (h r hr hsame) hr₁
  · exact hemail hsame

/-- An UPDATE that reports a duplicate has found another row with the address. -/
theorem update_duplicate_found {email displayName : String} {now : Instant} {e : SqlxError}
    (h : T.update id email displayName now = .error e)
    (hduplicate : RepositoryError.fromSqlx e = .duplicateEmail) :
    (∃ r, T.find id = some r) ∧ ∃ r ∈ T.rows, r.email = email ∧ r.id ≠ id := by
  unfold UserTable.update at h
  simp only [UserTable.emailsAfter_eq] at h
  split at h
  · cases h
    cases hduplicate
  · split at h
    · cases h
    · next hunique =>
      refine ⟨?_, ?_⟩
      · by_contra hnone
        -- without a row to change the addresses are the ones of the table
        have hsame : T.emailsAfter id email = T.rows.map UserRow.email := by
          refine List.map_congr_left fun r hr => if_neg fun hid => hnone ?_
          exact ⟨r, UserTable.find_eq_some.mpr ⟨hr, hid⟩⟩
        rw [hsame] at hunique
        exact hunique T.unique
      · by_contra hothers
        push Not at hothers
        exact hunique (nodup_emailsAfter hothers)

/-- An UPDATE that finds its row puts the user it returns. -/
theorem represents_update {email : Email u} {displayName : DisplayName} {now : Instant}
    (h : Represents T R) (hupdate : T.update id email.asStr displayName.asStr now =
      .ok (T', some row)) :
    ∃ before, R.find id = some before ∧ before.id = id ∧
      row = .storing ⟨id, email, displayName, before.createdAt, now⟩ ∧
      ∃ hfree, Represents T' (R.put ⟨id, email, displayName, before.createdAt, now⟩ hfree) := by
  obtain ⟨hrows, hreturned⟩ := UserTable.update_eq_ok hupdate
  obtain ⟨row₀, hrow₀, hset⟩ := Option.map_eq_some_iff.mp hreturned.symm
  obtain ⟨before, hbefore, rfl, rfl⟩ := h.found hrow₀
  have hrow : row = .storing ⟨before.id, email, displayName, before.createdAt, now⟩ := hset.symm
  have hmem : row ∈ T'.rows := by
    rw [hrows]
    refine List.mem_map.mpr ⟨_, (UserTable.find_eq_some.mp hrow₀).1, ?_⟩
    rw [← hset]
    exact if_pos rfl
  refine ⟨before, hbefore, rfl, hrow, ?_⟩
  have hfree : R.Free before.id email := by
    rw [h.free_iff]
    intro r hr hemail
    by_contra hid
    have hkept : r ∈ T'.rows := by
      rw [hrows]
      exact List.mem_map.mpr ⟨r, hr, if_neg hid⟩
    have hsame : r = row := by
      -- two rows of the table after it have this address, so they are one
      refine List.inj_on_of_nodup_map T'.unique hkept hmem ?_
      rw [hemail, hrow]
      rfl
    rw [hsame, hrow] at hid
    exact hid rfl
  have hfind (k : UserId) : T'.find k = if k = before.id then
      some (.storing ⟨before.id, email, displayName, before.createdAt, now⟩) else T.find k := by
    rw [UserTable.find_update hupdate, hrow]
  exact ⟨hfree, represents_put h hfree hfind⟩

/-- A DELETE takes the user out of the registry, if there is one. -/
theorem represents_delete (h : Represents T R) (id : UserId) :
    Represents (T.delete id).1 (R.remove id) where
  find k := by
    rw [UserTable.find_delete, R.find_remove]
    split
    · rfl
    · exact h.find k

/-! ## One request

Each use case makes at most one call of the repository. The four lemmas go through what the adapter
answers: an invalid field, a duplicate, a row that is missing, a failure before the statement, a
reply that is lost after it. -/

variable {service : UserService} {w : Fate} {database : Database}

/-- The statement was carried out, and its reply may have been lost. -/
theorem Does.serves {request : Request} {response told : Response u}
    (h : Does R request told R')
    (hresponse : response = told ∨ response = .error .dependencyUnavailable) :
    Serves R request response R' := by
  rcases hresponse with rfl | rfl
  · exact Or.inl h
  · exact Or.inr ⟨rfl, Or.inr ⟨_, h⟩⟩

/-- `CreateUser` puts the user, finds the address taken, or fails: before its transaction commits,
or after. -/
theorem create_refines {input : UserInput} {now : Instant} (h : Represents database.users R) :
    ∃ R', Serves R (.create id now input)
        (service.alone u (.create id now input) w database).1 R' ∧
      Represents (service.alone u (.create id now input) w database).2.users R' := by
  cases hinput : input.parse u with
  | error e =>
    rw [alone_invalid (createUser_invalid hinput)]
    exact ⟨R, Or.inl (.invalid _ input e rfl hinput), h⟩
  | ok fields =>
    obtain ⟨email, displayName⟩ := fields
    rw [alone_asks (createUser_asks hinput)]
    generalize hdone : CacheAdapter.noOp.answer w _ (⟨database, fun _ => none⟩ : Stores) = done
    obtain ⟨reply, ⟨database', entries⟩⟩ := done
    have hcreate : PostgresUserRepository.createWithJob w.circumstances.transaction
        (.new id now email displayName) (service.createUser.job service.uuid id) database =
          (reply, database') := by
      have hreply := congrArg Prod.fst hdone
      have hdatabase := congrArg (fun done => done.2.database) hdone
      exact Prod.ext hreply hdatabase
    -- whenever the INSERT took effect the user is in the registry, also if the reply was lost
    have hput : ∀ {told : Response u}, told = .ok (some (User.new id now email displayName).stored) ∨
        told = .error .dependencyUnavailable →
        database.users.insert (.storing (User.new id now email displayName).stored) =
          .ok database'.users →
        ∃ R', Serves R (.create id now input) told R' ∧ Represents database'.users R' := by
      intro told htold hinsert
      obtain ⟨hnew, hfree, hrepresents⟩ := represents_insert h hinsert
      exact ⟨_, (Does.created now input _ hinput ⟨rfl, rfl⟩ hnew hfree).serves htold, hrepresents⟩
    rcases createWithJob_cases hcreate with ⟨rfl, rfl | hstored⟩ | ⟨rfl, rfl, e, hinsert, hdup⟩ |
      ⟨rfl, hstored⟩
    · exact ⟨R, Or.inr ⟨rfl, Or.inl rfl⟩, h⟩
    · exact hput (Or.inr rfl) hstored.users
    · obtain ⟨r, hr, hemail, hid⟩ := insert_duplicate_found hinsert hdup
      refine ⟨R, Or.inl (.createTaken id now input email displayName hinput fun hfree => ?_), h⟩
      exact hid ((h.free_iff email).mp hfree r hr hemail)
    · exact hput (Or.inl rfl) hstored.users

/-- `UpdateUser` puts the user under the new address, finds it taken, finds no user, or fails. -/
theorem update_refines {input : UserInput} (h : Represents database.users R) :
    ∃ R', Serves R (.update id input) (service.alone u (.update id input) w database).1 R' ∧
      Represents (service.alone u (.update id input) w database).2.users R' := by
  cases hinput : input.parse u with
  | error e =>
    rw [alone_invalid (updateUser_invalid hinput)]
    exact ⟨R, Or.inl (.invalid _ input e rfl hinput), h⟩
  | ok fields =>
    obtain ⟨email, displayName⟩ := fields
    rw [alone_asks (updateUser_asks hinput)]
    -- what the adapter returns, and what becomes of it
    obtain ⟨reply, users, hdone⟩ : ∃ reply users, PostgresUserRepository.update
        w.circumstances.queryFails w.circumstances.now id email displayName database.users =
          (reply, users) := ⟨_, _, rfl⟩
    have hanswer : (CacheAdapter.noOp.answer w (.update id email displayName)
        ⟨database, fun _ => none⟩).1 = if w.replyLost then .error .unavailable else reply := by
      show (if w.replyLost then _ else (PostgresUserRepository.update _ _ id email _ _).1) = _
      rw [hdone]
    have htold : fromWrite (CacheAdapter.noOp.answer w (.update id email displayName)
          ⟨database, fun _ => none⟩).1 = fromWrite reply ∨
        fromWrite (CacheAdapter.noOp.answer w (.update id email displayName)
          ⟨database, fun _ => none⟩).1 = .error .dependencyUnavailable := by
      rw [hanswer]
      split
      · exact Or.inr rfl
      · exact Or.inl rfl
    have husers : (CacheAdapter.noOp.answer w (.update id email displayName)
        ⟨database, fun _ => none⟩).2.database.users = users := congrArg Prod.snd hdone
    rw [husers]
    -- a statement that failed leaves the rows as they are
    have hkept : fromWrite reply = .error .dependencyUnavailable → users = database.users →
        ∃ R', Serves R (.update id input) (fromWrite (CacheAdapter.noOp.answer w
          (.update id email displayName) ⟨database, fun _ => none⟩).1) R' ∧
          Represents users R' := by
      intro hreply hsame
      rw [hreply, or_self] at htold
      rw [htold, hsame]
      exact ⟨R, Or.inr ⟨rfl, Or.inl rfl⟩, h⟩
    unfold PostgresUserRepository.update at hdone
    split at hdone
    · cases hdone
      exact hkept rfl rfl
    · split at hdone
      · next e hupdate =>
        cases hdone
        rcases fromSqlx_cases e with hduplicate | hother
        · -- the address is taken by another row, while the row to change is there
          obtain ⟨⟨row, hrow⟩, r, hr, hemail, hid⟩ := update_duplicate_found hupdate hduplicate
          obtain ⟨before, hbefore, rfl, _⟩ := h.found hrow
          rw [hduplicate] at htold
          refine ⟨R, Does.serves (.updateTaken input before email displayName hbefore hinput
            fun hfree => ?_) htold, h⟩
          exact hid ((h.free_iff email).mp hfree r hr hemail)
        · exact hkept (by rw [hother]; rfl) rfl
      · next T' hupdate =>
        cases hdone
        have hreturned := (UserTable.update_eq_ok hupdate).2
        have hnone : database.users.find id = none := Option.map_eq_none_iff.mp hreturned.symm
        have hmissing : R.find id = none := by
          rw [h.find id] at hnone
          exact Option.map_eq_none_iff.mp hnone
        refine ⟨R, Does.serves (.notFound _ (fun _ _ _ h => nomatch h) hmissing) htold, ⟨fun k => ?_⟩⟩
        rw [UserTable.find_update hupdate, ← h.find k]
        split
        · next hk => rw [hk, hnone]
        · rfl
      · next T' row hupdate =>
        -- the row was found and rewritten
        obtain ⟨before, hbefore, hid, hrow, hfree, hrepresents⟩ := represents_update h hupdate
        obtain ⟨hreply, rfl⟩ := Prod.mk.inj hdone
        rw [hrow, intoDomain_storing] at hreply
        rw [← hreply] at htold
        subst hid
        exact ⟨_, (Does.updated input before ⟨before.id, email, displayName, before.createdAt, _⟩
          hbefore hinput rfl hfree).serves htold, hrepresents⟩

/-- `DeleteUser` removes the user, finds none, or fails. -/
theorem delete_refines (h : Represents database.users R) :
    ∃ R', Serves R (.delete id) (service.alone u (.delete id) w database).1 R' ∧
      Represents (service.alone u (.delete id) w database).2.users R' := by
  rw [alone_asks deleteUser_asks]
  have hanswer : (CacheAdapter.noOp.answer w (.delete (u := u) id) ⟨database, fun _ => none⟩).1 =
      if w.replyLost then .error .unavailable
      else (PostgresUserRepository.delete w.circumstances.queryFails id database.users).1 := rfl
  have husers : (CacheAdapter.noOp.answer w (.delete (u := u) id)
      ⟨database, fun _ => none⟩).2.database.users =
        (PostgresUserRepository.delete w.circumstances.queryFails id database.users).2 := rfl
  rw [hanswer, husers]
  unfold PostgresUserRepository.delete
  cases w.circumstances.queryFails with
  | true =>
    -- A DELETE that failed has deleted nothing.
    refine ⟨R, Or.inr ⟨?_, Or.inl rfl⟩, h⟩
    cases w.replyLost <;> rfl
  | false =>
    have hcount : (database.users.delete id).2 = if (database.users.find id).isSome then 1 else 0 :=
      UserTable.delete_affected
    cases hfind : R.find id with
    | none =>
      have hnone : database.users.find id = none := by rw [h.find, hfind]; rfl
      rw [hnone] at hcount
      refine ⟨R, Does.serves (.notFound (.delete id) (fun _ _ _ h => nomatch h) hfind) ?_,
        ⟨fun k => ?_⟩⟩
      · -- A lost reply hides the count from the caller.
        rw [hcount]
        cases w.replyLost
        · exact Or.inl rfl
        · exact Or.inr rfl
      · show (database.users.delete id).1.find k = _
        rw [UserTable.find_delete, ← h.find k]
        split
        · next hk => rw [hk, hnone]
        · rfl
    | some user =>
      have hsome : database.users.find id = some (.storing user) := by rw [h.find, hfind]; rfl
      obtain rfl := R.keyed id user hfind
      rw [hsome] at hcount
      refine ⟨R.remove user.id, Does.serves (.deleted user hfind) ?_, represents_delete h user.id⟩
      rw [hcount]
      cases w.replyLost
      · exact Or.inl rfl
      · exact Or.inr rfl

/-- `GetUser` changes nothing, and finds what the registry has. -/
theorem get_refines (h : Represents database.users R) :
    ∃ R', Serves R (.get id) (service.alone u (.get id) w database).1 R' ∧
      Represents (service.alone u (.get id) w database).2.users R' := by
  rw [alone_get]
  have hanswer : (CacheAdapter.noOp.answer w (.findById (u := u) id) ⟨database, fun _ => none⟩).1 =
      if w.replyLost then .error .unavailable
      else PostgresUserRepository.findById u w.circumstances.queryFails id database.users := rfl
  refine ⟨R, ?_, h⟩
  rw [hanswer]
  unfold PostgresUserRepository.findById
  cases hlost : w.replyLost || w.circumstances.queryFails with
  | true =>
    refine Or.inr ⟨?_, Or.inl rfl⟩
    cases hreply : w.replyLost with
    | true => rfl
    | false =>
      rw [hreply, Bool.false_or] at hlost
      rw [hlost]
      rfl
  | false =>
    obtain ⟨hreply, hquery⟩ := Bool.or_eq_false_iff.mp hlost
    rw [hreply, hquery, h.find id]
    cases hfind : R.find id with
    | none => exact Or.inl (.notFound (.get id) (fun _ _ _ h => nomatch h) hfind)
    | some user =>
      obtain rfl := R.keyed id user hfind
      simp only [Bool.false_eq_true, if_false, Option.map_some, intoDomain_storing]
      exact Or.inl (.found user hfind)

/-- **The refinement of one request**: alone on a table that represents a registry, it does to the
registry what the registry is for. -/
theorem alone_refines (service : UserService) (h : Represents database.users R) (request : Request)
    (w : Fate) :
    ∃ R', Serves R request (service.alone u request w database).1 R' ∧
      Represents (service.alone u request w database).2.users R' := by
  cases request with
  | create id now input => exact create_refines h
  | get id => exact get_refines h
  | update id input => exact update_refines h
  | delete id => exact delete_refines h

/-! ## Every run

`requests_linearize` gives a history for every run; `history_refines` carries it over to the
registry, request by request, and `explained` says what the results that are not in the history are:
an invalid field, or an answer of Redis from earlier in it. -/

/-- A request that was served, its thread, and what it was told. -/
structure Told (u : CaseMapping) where
  thread : Nat
  request : Request
  response : Response u

/-- The registry after requests were served one after the other; the newest is at the head. -/
inductive Served (R : UserRegistry u) : List (Told u) → UserRegistry u → Prop where
  | start : Served R [] R
  | next {older : List (Told u)} {before after : UserRegistry u} (told : Told u)
      (h : Served R older before) (hserves : Serves before told.request told.response after) :
      Served R (told :: older) after

/-- What the requests of a history were told. -/
def UserService.told (service : UserService) (u : CaseMapping) (database : Database) :
    History → List (Told u)
  | [] => []
  | e :: older =>
    ⟨e.thread, e.request, (service.alone u e.request e.circumstances
      ((service.object u database).after database older)).1⟩ :: service.told u database older

/-- What is told keeps the threads of the history, in its order. -/
theorem told_threads (history : History) :
    (service.told u database history).map Told.thread = history.map Pool.Serving.thread := by
  induction history with
  | nil => rfl
  | cons e older ih => rw [UserService.told, List.map_cons, List.map_cons, ih]

/-- What was told of a history was told of its requests. -/
theorem mem_told {history : History} {told : Told u} (h : told ∈ service.told u database history) :
    ∃ e ∈ history, told.thread = e.thread ∧ told.request = e.request := by
  induction history with
  | nil => cases h
  | cons e older ih =>
    rcases List.mem_cons.mp h with rfl | h
    · exact ⟨e, List.mem_cons_self, rfl, rfl⟩
    · obtain ⟨e', he', hspec⟩ := ih h
      exact ⟨e', List.mem_cons_of_mem _ he', hspec⟩

variable (service database) in
/-- What an older part of a history was told is an older part of what the whole was told. -/
theorem told_append (newer older : History) :
    ∃ told, service.told u database (newer ++ older) = told ++ service.told u database older := by
  induction newer with
  | nil => exact ⟨[], rfl⟩
  | cons e newer ih =>
    obtain ⟨told, htold⟩ := ih
    exact ⟨_ :: told, by rw [List.cons_append, UserService.told, htold]; rfl⟩

/-- A history over a table that represents a registry is one of the registry. -/
theorem history_refines (service : UserService) (h : Represents database.users R)
    (history : History) :
    ∃ R', Served R (service.told u database history) R' ∧
      Represents ((service.object u database).after database history).users R' := by
  induction history with
  | nil => exact ⟨R, .start, h⟩
  | cons e older ih =>
    obtain ⟨before, hserved, hrepresents⟩ := ih
    obtain ⟨after, hserves, hafter⟩ :=
      alone_refines service hrepresents e.request e.circumstances
    exact ⟨after, .next _ hserved hserves, hafter⟩

/-- What a thread was told, when `log` was served. -/
inductive Explained (R : UserRegistry u) (cache : CacheAdapter) (log : List (Told u)) (i : Nat) :
    Request → Response u → Prop where
  | invalid (request : Request) (input : UserInput) (e : UserError)
      (hrequest : request.input = some input) (hinput : input.parse u = .error e) :
      Explained R cache log i request (.error (.invalidInput e))
  | served (request : Request) (response : Response u) (h : ⟨i, request, response⟩ ∈ log) :
      Explained R cache log i request response
  | cached (newer older : List (Told u)) (R' : UserRegistry u) (user : User u)
      (hredis : cache = .redis) (hlog : log = newer ++ older) (hserved : Served R older R')
      (hfind : R'.find user.id = some user) :
      Explained R cache log i (.get user.id) (.ok (some user))

/-- **Every result is explained.** One case for each way in which a thread of the pool is answered.
-/
theorem explained {cache : CacheAdapter} {history : History} {i : Nat} {request : Request}
    {response : Response u} (h : Represents database.users R)
    (hanswered : Answered service cache database history i request response) :
    Explained R cache (service.told u database history) i request response := by
  cases hanswered with
  | invalid request e halone =>
    -- alone it is told the same, at any instant
    obtain ⟨R', hserves, _⟩ := alone_refines service h request ⟨sampleCircumstances, false⟩
    rw [halone] at hserves
    rcases hserves with hdoes | ⟨hresponse, _⟩
    · generalize htold : (Except.error (.invalidInput e) : Response u) = told at hdoes
      cases hdoes with
      | invalid _ input e' hrequest hinput =>
        cases htold
        exact .invalid request input e hrequest hinput
      | _ => cases htold
    · cases hresponse
  | served newer request w older hhistory =>
    refine .served request _ ?_
    obtain ⟨told, htold⟩ := told_append (u := u) service database newer
      (⟨i, request, w⟩ :: older)
    rw [hhistory, htold]
    exact List.mem_append_right _ List.mem_cons_self
  | cached newer older user hredis hhistory hheld =>
    obtain ⟨told, htold⟩ := told_append (u := u) service database newer older
    obtain ⟨R', hserved, hrepresents⟩ := history_refines service h older
    obtain ⟨row, hrow, hdomain⟩ := hheld
    obtain ⟨user', huser', _, rfl⟩ := hrepresents.found hrow
    rw [intoDomain_storing] at hdomain
    cases hdomain
    exact .cached told _ R' user hredis (by rw [hhistory, htold]) hserved huser'

/-- **The server is a registry of users.** In every run over a database that represents a registry,
with any calls failing or losing their replies, there is a log of requests that were served one
after the other, in the order of their calls of the repository, each at most once and each the
request of its thread: the database represents what they have made of the registry, and every result
is the one in the log, or tells of an invalid field, or is a user that Redis has kept of an earlier
registry. -/
theorem server_refines_registry (service : UserService) (cache : CacheAdapter)
    (database : Database) (R : UserRegistry u) (h : Represents database.users R)
    {s : ServicePool u}
    (hreach : (Pool.machine (service.setupOver u cache database)).Reachable s) :
    ∃ log R', Served R log R' ∧ Represents s.store.database.users R' ∧
      log.map Told.thread = (s.log.filter fun e => e.2.1.asksRepository).map Prod.fst ∧
      (log.map Told.thread).Nodup ∧
      (∀ told ∈ log, ∃ thread, s.threads[told.thread]? = some thread ∧
        thread.request = told.request) ∧
      ∀ i thread response, s.threads[i]? = some thread → thread.rest = .ret response →
        Explained R cache log i thread.request response := by
  obtain ⟨history, hlinearized⟩ := Pool.Object.reachable_linearized object_lawful hreach
  obtain ⟨R', hserved, hrepresents⟩ := history_refines service h history
  refine ⟨service.told u database history, R', hserved, ?_, ?_, ?_, ?_, ?_⟩
  · have hview : s.store.database = _ := hlinearized.view
    rw [hview]
    exact hrepresents
  · rw [told_threads]
    exact hlinearized.order
  · rw [told_threads]
    exact hlinearized.once
  · intro told htold
    obtain ⟨e, he, hthread, hrequest⟩ := mem_told htold
    rw [hthread, hrequest]
    exact hlinearized.request_eq he
  · intro i thread response ht hret
    exact explained h (answered hreach hlinearized ht hret)

/-! ## From the empty table

The empty table represents the empty registry, so that the theorem speaks of every server from its
first migration on. -/

/-- Somebody registers and then reads the record, and the reply to a second address is lost. -/
def registered : List (PoolInput Request Fate UserId) :=
  [.call 2 { sampleFate with replyLost := true }, .call 1 sampleFate, .call 1 sampleFate,
    .start (.update sampleId ⟨"c@d.e", "Al"⟩), .call 1 sampleFate, .call 0 sampleFate,
    .start (.get sampleId), .call 0 sampleFate, .start (.create sampleId 1001 sampleInput)]

theorem registered_possible :
    ((Pool.machine (sampleService.setupOver Text.asciiCase .noOp emptyStores.database)).run
      registered).isSome := by
  decide

def registeredState : ServicePool Text.asciiCase :=
  ((Pool.machine (sampleService.setupOver Text.asciiCase .noOp emptyStores.database)).run
    registered).get registered_possible

theorem server_refines_registry_registered :
    ∃ log R', Served .empty log R' ∧
      Represents (u := Text.asciiCase) registeredState.store.database.users R' ∧
      log.map Told.thread = [2, 1, 0] := by
  obtain ⟨log, R', hserved, hrepresents, horder, _⟩ := server_refines_registry sampleService .noOp
    emptyStores.database .empty ⟨fun _ => rfl⟩ (Machine.reachable_get registered_possible)
  exact ⟨log, R', hserved, hrepresents, horder.trans (by decide)⟩

end BaseSkeleton.Users
