import BaseSkeleton.Users.Service

/-!
# The cache and the repository

What the log of a server says about the entries of the cache. `answer_spec` is what one exchange
does to the row and to the entry of each user, and `Traced` what a whole log says of them: an entry
was stored by the latest write to it that did not fail, and a row is what the repository returned
last, until the user is written again.

* `reachable_traced` — in every run, unless a COMMIT loses its reply.
* `entry_cases` — an entry that is not the current row was overtaken by a write to the repository.
-/

namespace BaseSkeleton.Users

open Text (CaseMapping)
open Program (Exchange)

variable {u : CaseMapping}

/-! ## One exchange

A call of the repository leaves the entries alone, and a call of the cache the rows. -/

/-- The repository holds `user`. -/
def Stores.Holds (s : Stores) (user : User u) : Prop :=
  ∃ row, s.database.users.find user.id = some row ∧ row.intoDomain u = .ok user

/-- The entry of `id` is the row of `id`. -/
def Stores.Current (u : CaseMapping) (s : Stores) (id : UserId) : Prop :=
  ∃ entry row, s.entries id = some entry ∧ s.database.users.find id = some row ∧
    ∃ user : User u, entry.tryInto u = .ok user ∧ row.intoDomain u = .ok user

theorem Stores.Holds.current {s : Stores} {user : User u} (h : s.Holds user)
    (hentry : s.entries user.id = some (.from user)) : s.Current u user.id := by
  obtain ⟨row, hrow, hdomain⟩ := h
  exact ⟨_, row, hentry, hrow, user, CachedUser.tryInto_from user, hdomain⟩

/-- What an exchange does to the stores. -/
structure ExchangeSpec (s s' : Stores) (e : Exchange (Reply u)) : Prop where
  right : RightUser e
  row : ∀ id, s'.database.users.find id = s.database.users.find id ∨ Writes id e ∨
    s.database.users.find id = none
  yields : ∀ user, Yields user e → s'.Holds user
  entry : ∀ id, (s'.entries id = s.entries id ∧ (e.1.cacheWrites id → CacheFails e)) ∨
    (e.1.cacheWrites id ∧ s'.entries id = e.1.entry)

theorem write_spec (outcome : CacheOutcome) (id k : UserId) (entry : Option CachedUser)
    (entries : Entries) :
    ((RedisUserCache.write outcome id entry entries).2 k = entries k ∧
        (id = k → ∃ e, (RedisUserCache.write outcome id entry entries).1 = .error e)) ∨
      (id = k ∧ (RedisUserCache.write outcome id entry entries).2 k = entry) := by
  have hwritten : Function.update entries id entry k = if k = id then entry else entries k :=
    Function.update_apply ..
  unfold RedisUserCache.write
  by_cases hk : k = id
  · rw [if_pos hk] at hwritten
    cases outcome with
    | done => exact Or.inr ⟨hk.symm, hwritten⟩
    | failed message applied =>
      cases applied with
      | true => exact Or.inr ⟨hk.symm, hwritten⟩
      | false => exact Or.inl ⟨rfl, fun _ => ⟨_, rfl⟩⟩
  · rw [if_neg hk] at hwritten
    have hne : ∀ {P : Prop}, id = k → P := fun h => absurd h.symm hk
    cases outcome with
    | done => exact Or.inl ⟨hwritten, hne⟩
    | failed message applied =>
      cases applied with
      | true => exact Or.inl ⟨hwritten, hne⟩
      | false => exact Or.inl ⟨rfl, hne⟩

/-- **What a call does**, unless it is a COMMIT whose reply is lost. -/
theorem answer_spec (w : Circumstances) (hw : w.transaction.commit ≠ .replyLost) (c : Call u)
    (s : Stores) : ExchangeSpec s (answer w c s).2 ⟨c, (answer w c s).1⟩ := by
  cases c with
  | findById id =>
    refine ⟨?_, fun _ => Or.inl rfl, ?_, fun _ => Or.inl ⟨rfl, nofun⟩⟩
    · intro user huser
      obtain ⟨row, hrow, hdomain⟩ := PostgresUserRepository.findById_ok huser
      exact (intoDomain_id hdomain).trans (UserTable.find_eq_some.mp hrow).2
    · intro user huser
      obtain ⟨row, hrow, hdomain⟩ := PostgresUserRepository.findById_ok huser
      have hid := (intoDomain_id hdomain).trans (UserTable.find_eq_some.mp hrow).2
      exact ⟨row, by rw [hid]; exact hrow, hdomain⟩
  | update id email displayName =>
    -- The row that was written is the row that is returned.
    obtain ⟨hreturned, hrows⟩ := PostgresUserRepository.update_spec (Prod.mk.eta
      (p := PostgresUserRepository.update w.queryFails w.now id email displayName
        s.database.users)).symm
    refine ⟨fun user huser => (hreturned user huser).1, fun k => ?_, ?_,
      fun _ => Or.inl ⟨rfl, nofun⟩⟩
    · rcases hrows k with hsame | ⟨hk, hreply⟩
      · exact Or.inl hsame
      · exact Or.inr (Or.inl ⟨hk.symm, hreply⟩)
    · intro user huser
      obtain ⟨hid, row, hrow, hdomain⟩ := hreturned user huser
      exact ⟨row, by rw [hid]; exact hrow, hdomain⟩
  | delete id =>
    have hrows := PostgresUserRepository.delete_spec (Prod.mk.eta
      (p := PostgresUserRepository.delete w.queryFails id s.database.users)).symm
    refine ⟨trivial, fun k => ?_, fun _ h => False.elim h, fun _ => Or.inl ⟨rfl, nofun⟩⟩
    rcases hrows k with hsame | ⟨hk, hreply⟩
    · exact Or.inl hsame
    · exact Or.inr (Or.inl ⟨hk.symm, hreply⟩)
  | createWithJob user job =>
    have hspec := createWithJob_spec (Prod.mk.eta
      (p := PostgresUserRepository.createWithJob w.transaction user job s.database)).symm
    -- A user is returned by a transaction that has committed, and then the row is the one of the
    -- call.
    have hcreated : ∀ created : User u,
        (PostgresUserRepository.createWithJob w.transaction user job s.database).1 =
          .ok created → created = user.stored ∧
        s.database.users.insert (.bound user) = .ok (PostgresUserRepository.createWithJob
          w.transaction user job s.database).2.users := by
      intro created hreply
      rcases hspec with ⟨e, herror, _⟩ | ⟨hstored, husers, _⟩
      · rw [herror] at hreply
        cases hreply
      · rw [hstored] at hreply
        exact ⟨(Except.ok.inj hreply).symm, husers⟩
    refine ⟨?_, fun k => ?_, ?_, fun _ => Or.inl ⟨rfl, nofun⟩⟩
    · intro created hreply
      obtain ⟨rfl, _⟩ := hcreated created hreply
      rfl
    · rcases hspec with ⟨e, _, hsame⟩ | ⟨_, husers, _⟩
      · left
        show (PostgresUserRepository.createWithJob _ _ _ _).2.users.find k = _
        rw [hsame.resolve_right hw]
      · have hfind : (PostgresUserRepository.createWithJob w.transaction user job
            s.database).2.users.find k = _ := UserTable.find_insert husers k
        -- The id is new, because the primary key has accepted it: nobody can hold an answer about
        -- it.
        by_cases hk : k = (UserRow.bound user).id
        · right; right
          refine Keyed.get_eq_none.mpr fun r hr hid => ?_
          refine (UserTable.insert_eq_ok husers).2 ?_
          rw [← hk, ← hid]
          exact List.mem_map_of_mem hr
        · left
          rw [if_neg hk] at hfind
          exact hfind
    · intro created hreply
      obtain ⟨rfl, husers⟩ := hcreated created hreply
      refine ⟨.bound user, ?_, intoDomain_bound user⟩
      exact (UserTable.find_insert husers _).trans (if_pos rfl)
  | cacheGet id =>
    -- The cache calls leave the rows alone, and the last two change one entry at most.
    exact ⟨trivial, fun _ => Or.inl rfl, fun _ h => False.elim h, fun _ => Or.inl ⟨rfl, nofun⟩⟩
  | cacheSet user ttlSeconds =>
    refine ⟨trivial, fun _ => Or.inl rfl, fun _ h => False.elim h, fun k => ?_⟩
    exact write_spec w.cache user.id k (some (.from user)) s.entries
  | cacheDelete id =>
    refine ⟨trivial, fun _ => Or.inl rfl, fun _ h => False.elim h, fun k => ?_⟩
    exact write_spec w.cache id k none s.entries

/-! ## A whole log

The entries and rows of a state, read off the log of the calls that led to it. -/

/-- What the log says of the stores. -/
structure Traced (s : ServicePool u) : Prop where
  right : ∀ e ∈ s.log, RightUser e.2
  rows : ∀ newer i e older user, s.log = newer ++ (i, e) :: older → Yields user e →
    (∀ e' ∈ newer, ¬ Writes user.id e'.2) → s.store.Holds user
  origin : ∀ id entry, s.store.entries id = some entry →
    ∃ newer i user ttlSeconds reply older,
      s.log = newer ++ (i, ⟨.cacheSet user ttlSeconds, reply⟩) :: older ∧ user.id = id ∧
        entry = .from user ∧ ∀ e ∈ newer, e.2.1.cacheWrites id → CacheFails e.2

variable {service : UserService} {database : Database} {s s' : ServicePool u} {id : UserId}

theorem traced_init : Traced (Pool.machine (service.setup u database)).init where
  right e he := by cases he
  rows newer i e older user h := by simp [Pool.machine] at h
  origin id entry h := by cases h

/-- A repository that still holds a user, unless the user is written. -/
theorem Stores.Holds.exchange {s s' : Stores} {e : Exchange (Reply u)} {user : User u}
    (h : s.Holds user) (hspec : ExchangeSpec s s' e) (he : ¬ Writes user.id e) :
    s'.Holds user := by
  obtain ⟨row, hrow, hdomain⟩ := h
  rcases hspec.row user.id with hsame | hwrites | hnone
  · exact ⟨row, hsame.trans hrow, hdomain⟩
  · exact absurd hwrites he
  · rw [hnone] at hrow
    cases hrow

theorem traced_call {store' : Stores} {threads' : List (Thread (Reply u) Request (Response u))}
    {i : Nat} {e : Exchange (Reply u)} (h : Traced s) (hspec : ExchangeSpec s.store store' e) :
    Traced ⟨store', threads', (i, e) :: s.log⟩ := by
  refine ⟨List.forall_mem_cons.mpr ⟨hspec.right, h.right⟩, ?_, ?_⟩
  · intro newer j e' older user hlog hyields hquiet
    cases newer with
    | nil =>
      obtain ⟨heq, _⟩ := List.cons.inj hlog
      cases heq
      exact hspec.yields user hyields
    | cons first newer =>
      obtain ⟨rfl, hrest⟩ := List.cons.inj hlog
      rw [List.forall_mem_cons] at hquiet
      exact (h.rows newer j e' older user hrest hyields hquiet.2).exchange hspec hquiet.1
  · intro id entry hentry
    rcases hspec.entry id with ⟨hsame, hfails⟩ | ⟨hwrites, hset⟩
    · obtain ⟨newer, j, user, ttlSeconds, reply, older, hlog, hid, hfrom, hnewer⟩ :=
        h.origin id entry (hsame.symm.trans hentry)
      refine ⟨(i, e) :: newer, j, user, ttlSeconds, reply, older, ?_, hid, hfrom,
        List.forall_mem_cons.mpr ⟨hfails, hnewer⟩⟩
      show (i, e) :: s.log = _
      rw [hlog, List.cons_append]
    · -- this exchange has stored the entry
      have hstored : e.1.entry = some entry := hset.symm.trans hentry
      obtain ⟨c, reply⟩ := e
      cases c with
      | cacheSet user ttlSeconds =>
        refine ⟨[], i, user, ttlSeconds, reply, s.log, rfl, hwrites, ?_, ?_⟩
        · exact (Option.some.inj hstored).symm
        · exact fun _ he => absurd he List.not_mem_nil
      | _ => cases hstored

theorem traced_expire (h : Traced s) (id : UserId) :
    Traced { s with store := (service.setup u database).disturb id s.store } := by
  refine ⟨h.right, fun newer i e older user hlog hyields hquiet =>
    h.rows newer i e older user hlog hyields hquiet, fun k entry hentry => ?_⟩
  have hupdate : Function.update s.store.entries id none k = some entry := hentry
  rw [Function.update_apply] at hupdate
  split at hupdate
  · cases hupdate
  · exact h.origin k entry hupdate

/-- **The run lemma**: in every run in which no COMMIT loses its reply. -/
theorem reachable_traced {ok : ServicePool u → ServiceInput → Prop}
    [∀ s input, Decidable (ok s input)]
    (hok : ∀ s i w, ok s (.call i w) → w.transaction.commit ≠ .replyLost)
    (h : ((Pool.machine (service.setup u database)).restrict ok).Reachable s) : Traced s := by
  refine Machine.Reachable.restrict_invariant traced_init ?_ h
  intro s input s' _ htraced hallowed hstep
  cases Pool.step_steps hstep with
  | start request => exact ⟨htraced.right, htraced.rows, htraced.origin⟩
  | call i w request c k hthread =>
    exact traced_call htraced (answer_spec w (hok s i w hallowed) c s.store)
  | disturb id => exact traced_expire htraced id

/-! ## Where an entry comes from

An entry was written by a thread that had the user from the repository. If the row is another one,
somebody has written to the repository after that. -/

/-- The thread that made an exchange, and what its use case promised. -/
theorem called_promise (hinv : Pool.Inv (service.setup u database) s) {i : Nat}
    {e : Exchange (Reply u)} {newer older : List (Nat × Exchange (Reply u))}
    (hlog : s.log = newer ++ (i, e) :: older) :
    ∃ t, s.threads[i]? = some t ∧ CallPromise t.request (Pool.exchanges i older) e.1 := by
  have hmem : (i, e) ∈ s.log := by simp [hlog]
  obtain ⟨t, ht⟩ : ∃ t, s.threads[i]? = some t :=
    ⟨_, List.getElem?_eq_getElem (hinv.bounded _ hmem)⟩
  have hsplit : Pool.exchanges i s.log = Pool.exchanges i newer ++ e :: Pool.exchanges i older := by
    rw [hlog, Pool.exchanges_append]
  exact ⟨t, ht, (hinv.follows i t ht).called (program_obeys service t.request) hsplit⟩

/-- A thread asks the repository once. -/
theorem asks_once (hinv : Pool.Inv (service.setup u database) s) {i j : Nat}
    {e e' : Exchange (Reply u)} {newer older : List (Nat × Exchange (Reply u))}
    (hlog : s.log = newer ++ (i, e) :: older) (he : e.1.asksRepository = true)
    (hmem : (j, e') ∈ older) (he' : e'.1.asksRepository = true) : j ≠ i := by
  intro hij
  rw [hij] at hmem
  obtain ⟨_, _, hpromise⟩ := called_promise hinv hlog
  rw [hpromise.once he e' (Pool.mem_exchanges.mpr hmem)] at he'
  cases he'

/-- All calls of a thread are about the user of its request. -/
theorem about_request (hinv : Pool.Inv (service.setup u database) s) (h : Traced s) {i : Nat}
    {t : Thread (Reply u) Request (Response u)} {e : Exchange (Reply u)}
    (ht : s.threads[i]? = some t) (he : (i, e) ∈ s.log) : e.1.about = t.request.about := by
  obtain ⟨newer, older, hlog⟩ := List.append_of_mem he
  obtain ⟨t', ht', hpromise⟩ := called_promise hinv hlog
  obtain rfl : t' = t := Option.some.inj (ht'.symm.trans ht)
  refine hpromise.own fun e' he' => h.right (i, e') ?_
  rw [hlog]
  exact List.mem_append_right _ (List.mem_cons_of_mem _ (Pool.mem_exchanges.mp he'))

/-- What a thread has promised when it has returned. -/
theorem returned_promise (hinv : Pool.Inv (service.setup u database) s) {i : Nat}
    {t : Thread (Reply u) Request (Response u)} {response : Response u}
    (ht : s.threads[i]? = some t) (hret : t.rest = .ret response) :
    ResultPromise t.request (Pool.exchanges i s.log) response := by
  have hrest := (hinv.follows i t ht).obeys (program_obeys service t.request)
  rw [hret] at hrest
  exact Program.obeys_ret_iff.mp hrest

/-- The entry of `user` was written last by thread `i`, which had got `user` from the repository
before the row changed. -/
structure Overtaken (log : List (Nat × Exchange (Reply u))) (user : User u)
    (newer : List (Nat × Exchange (Reply u))) (i : Nat) (set : Exchange (Reply u))
    (between : List (Nat × Exchange (Reply u))) (got : Exchange (Reply u))
    (older : List (Nat × Exchange (Reply u))) : Prop where
  log_eq : log = newer ++ (i, set) :: (between ++ (i, got) :: older)
  set_eq : ∃ ttlSeconds, set.1 = .cacheSet user ttlSeconds
  got_user : Yields user got
  kept : ∀ e ∈ newer, e.2.1.cacheWrites user.id → CacheFails e.2
  written : ∃ e ∈ newer ++ between, Writes user.id e.2

/-- **Where an entry comes from.** -/
theorem entry_cases (hinv : Pool.Inv (service.setup u database) s) (h : Traced s)
    {entry : CachedUser} (hentry : s.store.entries id = some entry) :
    ∃ user : User u, user.id = id ∧ entry = .from user ∧
      (s.store.Holds user ∨ ∃ newer i set between got older,
        Overtaken s.log user newer i set between got older) := by
  obtain ⟨newer, i, user, ttlSeconds, reply, rest, hlog, hid, hfrom, hkept⟩ :=
    h.origin id entry hentry
  refine ⟨user, hid, hfrom, ?_⟩
  -- what is cached was got from the repository by the same thread
  obtain ⟨_, _, hpromise⟩ := called_promise hinv hlog
  obtain ⟨got, hgot, hyields⟩ := hpromise.caches user ttlSeconds rfl
  obtain ⟨between, older, hrest⟩ := List.append_of_mem (Pool.mem_exchanges.mp hgot)
  rw [hrest] at hlog
  by_cases hwritten : ∃ e ∈ newer ++ between, Writes user.id e.2
  · exact Or.inr ⟨newer, i, _, between, got, older, hlog, ⟨ttlSeconds, rfl⟩, hyields,
      fun e he hwrites => hkept e he (hid ▸ hwrites), hwritten⟩
  · left
    refine h.rows (newer ++ (i, ⟨.cacheSet user ttlSeconds, reply⟩) :: between) i got older user ?_
      hyields fun e he hwrites => ?_
    · rw [hlog, List.append_assoc, List.cons_append]
    · rcases List.mem_append.mp he with he | he
      · exact hwritten ⟨e, List.mem_append_left _ he, hwrites⟩
      · rcases List.mem_cons.mp he with heq | he
        · rw [heq] at hwrites
          exact hwrites
        · exact hwritten ⟨e, List.mem_append_right _ he, hwrites⟩

/-! ## The thread that wrote the user

A thread that has written to the repository and has returned has told the cache as well, if the call
went through. -/

theorem Writes.request {request : Request} {e : Exchange (Reply u)} (h : Writes id e)
    (hasks : request.asks e.1) (habout : e.1.about = request.about) :
    request = .delete id ∨ ∃ input, request = .update id input := by
  have hid : request.about = id := habout.symm.trans h.about
  obtain ⟨c, reply⟩ := e
  cases c with
  | update k email displayName =>
    cases request with
    | update k' input => exact Or.inr ⟨input, by rw [← hid]; rfl⟩
    | _ => cases hasks
  | delete k =>
    cases request with
    | delete k' => exact Or.inl (by rw [← hid]; rfl)
    | _ => cases hasks
  | _ => cases h

/-- What a thread asked the repository, it asked in one call. -/
theorem asked_same (hinv : Pool.Inv (service.setup u database) s) {i : Nat}
    {e e' : Exchange (Reply u)} {newer older : List (Nat × Exchange (Reply u))}
    (hlog : s.log = newer ++ (i, e) :: older) (he : e.1.asksRepository = true)
    (hmem : (i, e') ∈ s.log) (he' : e'.1.asksRepository = true) : e' = e := by
  rw [hlog] at hmem
  rcases List.mem_append.mp hmem with hmem | hmem
  · obtain ⟨newer', between, hnewer⟩ := List.append_of_mem hmem
    rw [hnewer, List.append_assoc, List.cons_append] at hlog
    exact absurd rfl (asks_once hinv hlog he' (by simp) he)
  · rcases List.mem_cons.mp hmem with heq | hmem
    · cases heq
      rfl
    · exact absurd rfl (asks_once hinv hlog he hmem he')

/-- A thread that wrote the user, and has returned, has told the cache and has succeeded. -/
theorem writer_returned (hinv : Pool.Inv (service.setup u database) s) (h : Traced s) {j : Nat}
    {e : Exchange (Reply u)} {newer older : List (Nat × Exchange (Reply u))}
    {t : Thread (Reply u) Request (Response u)} {response : Response u}
    (hlog : s.log = newer ++ (j, e) :: older) (hwrites : Writes id e)
    (ht : s.threads[j]? = some t) (hret : t.rest = .ret response) :
    (∃ user, response = .ok user) ∧ ∃ e' ∈ Pool.exchanges j newer, e'.1.cacheWrites id := by
  have hpromise := returned_promise hinv ht hret
  have htrace : Pool.exchanges j s.log = Pool.exchanges j newer ++ e :: Pool.exchanges j older := by
    rw [hlog, Pool.exchanges_append]
  refine ⟨?_, ?_⟩
  · cases response with
    | ok user => exact ⟨user, rfl⟩
    | error error =>
      rcases hpromise.refused error rfl with ⟨_, _, hnil⟩ | ⟨e', he', hrefuses⟩
      · rw [hnil] at htrace
        simp at htrace
      · have hsame := asked_same hinv hlog hwrites.asksRepository (Pool.mem_exchanges.mp he')
          hrefuses.asksRepository
        rw [hsame] at hrefuses
        exact absurd hrefuses hwrites.not_refuses
  · have hsettled := hpromise.settled (fun e' he' => h.right _ (Pool.mem_exchanges.mp he')) id
    rw [htrace] at hsettled
    exact cacheWrites_of_settled hsettled hwrites

end BaseSkeleton.Users
