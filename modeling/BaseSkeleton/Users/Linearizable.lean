import BaseSkeleton.Users.Alone
import BaseSkeleton.Users.CacheFailures

/-!
# The server serves one request at a time

Requests run next to each other, over either cache, and any call may fail or lose its reply. Each
of them is served with its call of the repository as if it were alone: the database is what the
requests that were served leave behind, one after the other, and what a request returns is what it
would have returned alone at that instant. Only `GetUser` may answer from the cache instead, with
a user the database held at an earlier instant.

* `requests_linearize` — in every run.
-/

namespace BaseSkeleton.Users

open Text (CaseMapping)
open Program (Exchange)

variable {u : CaseMapping} {service : UserService} {cache : CacheAdapter} {database : Database}
  {s : ServicePool u} {id : UserId}

/-- The requests that were served, the newest at the head. -/
abbrev History := List (Pool.Serving Request Fate)

/-! ## Where a user comes from

Whoever has a user has it from a reply of the repository, or from an entry that somebody wrote who
had it. -/

/-- The database holds `user`. -/
def Database.Holds (database : Database) (user : User u) : Prop :=
  ∃ row, database.users.find user.id = some row ∧ row.intoDomain u = .ok user

/-- A user that the repository returns is one that it leaves behind. -/
theorem holds_of_yields {w : Fate} {c : Call u} {s : Stores} {user : User u}
    (h : Yields user ⟨c, (cache.answer w c s).1⟩) :
    (cache.answer w c s).2.database.Holds user := by
  cases c with
  | findById id =>
    have hreply : (if w.replyLost then Except.error RepositoryError.unavailable else
        PostgresUserRepository.findById u w.circumstances.queryFails id s.database.users) =
          .ok (some user) := h
    split at hreply
    · cases hreply
    · obtain ⟨row, hrow, hdomain⟩ := PostgresUserRepository.findById_ok hreply
      have hid := (intoDomain_id hdomain).trans (UserTable.find_eq_some.mp hrow).2
      exact ⟨row, by rw [hid]; exact hrow, hdomain⟩
  | update id email displayName =>
    have hreply : (if w.replyLost then Except.error RepositoryError.unavailable else
        (PostgresUserRepository.update w.circumstances.queryFails w.circumstances.now id email
          displayName s.database.users).1) = .ok user := h
    split at hreply
    · cases hreply
    · obtain ⟨hid, row, hrow, hdomain⟩ :=
        (PostgresUserRepository.update_spec Prod.mk.eta.symm).1 user hreply
      exact ⟨row, by rw [hid]; exact hrow, hdomain⟩
  | createWithJob new job =>
    have hreply : (PostgresUserRepository.createWithJob w.circumstances.transaction new job
      s.database).1 = .ok user := h
    rcases createWithJob_spec (Prod.mk.eta (p := PostgresUserRepository.createWithJob
      w.circumstances.transaction new job s.database)).symm with ⟨e, herror, _⟩ | ⟨hstored, husers, _⟩
    · cases hreply.symm.trans herror
    · cases hreply.symm.trans hstored
      exact ⟨.bound new, (UserTable.find_insert husers _).trans (if_pos rfl), intoDomain_bound new⟩
  | _ => cases h

/-- A user that some call of the repository has returned. -/
def Seen (log : List (Nat × Exchange (Reply u))) (user : User u) : Prop :=
  ∃ e ∈ log, Yields user e.2

theorem Seen.cons {log : List (Nat × Exchange (Reply u))} {user : User u}
    {e : Nat × Exchange (Reply u)} (h : Seen log user) : Seen (e :: log) user := by
  obtain ⟨e', he', hyields⟩ := h
  exact ⟨e', List.mem_cons_of_mem _ he', hyields⟩

/-- What is in the cache, and what was found in it, was seen in the repository. -/
structure Supplied (cache : CacheAdapter) (s : ServicePool u) : Prop where
  entries : ∀ id entry, s.store.entries id = some entry →
    ∃ user : User u, user.id = id ∧ entry = .from user ∧ Seen s.log user
  hits : ∀ i id (user : User u), (i, ⟨.cacheGet id, .ok (some user)⟩) ∈ s.log →
    cache = .redis ∧ user.id = id ∧ Seen s.log user

/-- An entry is left alone, or set to a user. -/
theorem answer_entries {w : Fate} {c : Call u} {s : Stores} {entry : CachedUser}
    (h : (cache.answer w c s).2.entries id = some entry) :
    s.entries id = some entry ∨
      ∃ user ttlSeconds, c = .cacheSet user ttlSeconds ∧ user.id = id ∧ entry = .from user := by
  cases c with
  | cacheSet user ttlSeconds =>
    cases cache with
    | noOp => exact Or.inl h
    | redis =>
      rcases write_spec w.circumstances.cache user.id id (some (.from user)) s.entries with
        ⟨hsame, _⟩ | ⟨hid, hset⟩
      · exact Or.inl (hsame.symm.trans h)
      · exact Or.inr ⟨user, ttlSeconds, rfl, hid, Option.some.inj (h.symm.trans hset)⟩
  | cacheDelete k =>
    cases cache with
    | noOp => exact Or.inl h
    | redis =>
      rcases write_spec w.circumstances.cache k id none s.entries with ⟨hsame, _⟩ | ⟨_, hnone⟩
      · exact Or.inl (hsame.symm.trans h)
      · cases h.symm.trans hnone
  | cacheGet k => cases cache <;> exact Or.inl h
  | _ => exact Or.inl h

/-- What is found in the cache is an entry of it. -/
theorem answer_hit {w : Fate} {s : Stores} {user : User u}
    (h : (cache.answer w (.cacheGet id) s).1 = .ok (some user)) :
    cache = .redis ∧ ∃ entry, s.entries id = some entry ∧ entry.tryInto u = .ok user := by
  cases cache with
  | noOp => cases h
  | redis =>
    have hget : RedisUserCache.get u w.circumstances.cache id s.entries = .ok (some user) := h
    unfold RedisUserCache.get at hget
    split at hget
    · cases hget
    · split at hget
      · cases hget
      · next entry hentry =>
        refine ⟨rfl, entry, hentry, ?_⟩
        cases hinto : entry.tryInto u with
        | error e =>
          rw [hinto] at hget
          cases hget
        | ok user' =>
          rw [hinto] at hget
          cases hget
          rfl

theorem supplied_init : Supplied cache (Pool.machine (service.setupOver u cache database)).init where
  entries id entry h := by cases h
  hits i id user h := absurd h List.not_mem_nil

theorem supplied_step {s' : ServicePool u} {input : PoolInput Request Fate UserId}
    (hinv : Pool.Inv (service.setupOver u cache database) s) (h : Supplied cache s)
    (hstep : (Pool.machine (service.setupOver u cache database)).step s input = some s') :
    Supplied cache s' := by
  cases Pool.step_steps hstep with
  | start request => exact ⟨h.entries, h.hits⟩
  | call i w request c k hthread =>
    have hpromise : CallPromise request (Pool.exchanges i s.log) c :=
      (Program.obeys_call_iff.mp
        ((hinv.follows i _ hthread).obeys (program_obeys service request))).1
    refine ⟨fun id entry hentry => ?_, fun j id user hmem => ?_⟩
    · rcases answer_entries hentry with hold | ⟨user, ttlSeconds, hset, hid, hfrom⟩
      · obtain ⟨user, hid, hfrom, hseen⟩ := h.entries id entry hold
        exact ⟨user, hid, hfrom, hseen.cons⟩
      · -- the thread has got from the repository what it caches
        obtain ⟨e, he, hyields⟩ := hpromise.caches user ttlSeconds hset
        exact ⟨user, hid, hfrom, Seen.cons ⟨(i, e), Pool.mem_exchanges.mp he, hyields⟩⟩
    · rcases List.mem_cons.mp hmem with heq | hmem
      · obtain ⟨_, hcall⟩ := Prod.mk.inj heq
        obtain ⟨rfl, hreply⟩ := Sigma.mk.inj_iff.mp hcall
        obtain ⟨hredis, entry, hentry, hinto⟩ := answer_hit (eq_of_heq hreply).symm
        obtain ⟨user', hid, rfl, hseen⟩ := h.entries id entry hentry
        rw [CachedUser.tryInto_from] at hinto
        cases hinto
        exact ⟨hredis, hid, hseen.cons⟩
      · obtain ⟨hredis, hid, hseen⟩ := h.hits j id user hmem
        exact ⟨hredis, hid, hseen.cons⟩
  | disturb k =>
    refine ⟨fun id entry hentry => ?_, h.hits⟩
    have hupdate : Function.update s.store.entries k none id = some entry := hentry
    rw [Function.update_apply] at hupdate
    split at hupdate
    · cases hupdate
    · exact h.entries id entry hupdate

theorem reachable_supplied (h : (Pool.machine (service.setupOver u cache database)).Reachable s) :
    Supplied cache s := by
  refine Machine.Reachable.invariant supplied_init ?_ h
  intro s input s' hreach hsupplied hstep
  exact supplied_step (Pool.reachable_inv hreach) hsupplied hstep

/-! ## Every result

A thread that has returned was served, or it was invalid, or it is a get that found an entry. -/

/-- How thread `i` has answered its request, when `history` was served. -/
inductive Answered (service : UserService) (cache : CacheAdapter) (database : Database)
    (history : History) (i : Nat) : Request → Response u → Prop where
  /-- a field is invalid, and would be at any instant -/
  | invalid (request : Request) (e : UserError)
      (h : ∀ w db, service.alone u request w db = (.error (.invalidInput e), db)) :
      Answered service cache database history i request (.error (.invalidInput e))
  /-- the request was served -/
  | served (newer : History) (request : Request) (w : Fate) (older : History)
      (h : history = newer ++ ⟨i, request, w⟩ :: older) :
      Answered service cache database history i request
        (service.alone u request w ((service.object u database).after database older)).1
  /-- the cache has answered, with a user that was in the database before -/
  | cached (newer older : History) (user : User u) (hredis : cache = .redis)
      (h : history = newer ++ older)
      (hheld : ((service.object u database).after database older).Holds user) :
      Answered service cache database history i (.get user.id) (.ok (some user))

/-- A user that was seen was in the database at some point of the history. -/
theorem held_of_seen {history : History} {user : User u}
    (h : (service.object u database).Linearized (service.setupOver u cache database) s history)
    (hseen : Seen s.log user) :
    ∃ newer older, history = newer ++ older ∧
      ((service.object u database).after database older).Holds user := by
  obtain ⟨⟨i, e⟩, he, hyields⟩ := hseen
  obtain ⟨newer, entry, older, store, hhistory, _, _, hreply, hafter⟩ :=
    h.replied i e he hyields.asksRepository
  obtain ⟨c, reply⟩ := e
  obtain rfl : reply = (cache.answer entry.circumstances c store).1 := hreply
  have hdatabase : (cache.answer entry.circumstances c store).2.database =
      (service.object u database).after database (entry :: older) := hafter
  have hholds := holds_of_yields hyields
  rw [hdatabase] at hholds
  exact ⟨newer, entry :: older, hhistory, hholds⟩

/-- A thread that was not served has made no call of the repository. -/
theorem unserved {history : History} {i : Nat} {e : Exchange (Reply u)}
    (h : (service.object u database).Linearized (service.setupOver u cache database) s history)
    (hnew : ∀ e ∈ history, e.thread ≠ i) (he : (i, e) ∈ s.log) : e.1.asksRepository = false := by
  by_contra hasks
  rw [Bool.not_eq_false] at hasks
  obtain ⟨newer, entry, older, _, hhistory, hthread, _⟩ := h.replied i e he hasks
  exact hnew entry (by simp [hhistory]) hthread

theorem answered {history : History} {i : Nat} {t : Thread (Reply u) Request (Response u)}
    {response : Response u}
    (hreach : (Pool.machine (service.setupOver u cache database)).Reachable s)
    (h : (service.object u database).Linearized (service.setupOver u cache database) s history)
    (ht : s.threads[i]? = some t) (hret : t.rest = .ret response) :
    Answered service cache database history i t.request response := by
  rcases h.returned ht hret with ⟨newer, w, older, hhistory, hresponse⟩ | hnew
  · rw [hresponse]
    exact .served newer t.request w older hhistory
  · -- A thread that has returned unserved has made no call of the repository.
    have hfollows : (service.program (u := u) t.request).Follows (Pool.exchanges i s.log) t.rest :=
      (Pool.reachable_inv hreach).follows i t ht
    have hquiet : ∀ e ∈ Pool.exchanges i s.log, e.1.asksRepository = false :=
      fun e he => unserved h hnew (Pool.mem_exchanges.mp he)
    rw [hret] at hfollows
    have hinvalid : ∀ e, service.program (u := u) t.request = .ret (.error (.invalidInput e)) →
        Answered service cache database history i t.request response := by
      intro e hprogram
      rw [hprogram] at hfollows
      cases hfollows.of_ret.2
      refine .invalid t.request e fun w db => ?_
      unfold UserService.alone
      rw [hprogram]
      rfl
    -- So its program does not begin with such a call, and the request was invalid.
    have hasks : ∀ {c : Call u} {conclude : Reply u c → Response u}, c.asksRepository = true →
        ¬ Asks (service.program t.request) c conclude := by
      intro c conclude hc hcalls
      obtain ⟨k, hprogram, _⟩ := hcalls
      rw [hprogram] at hfollows
      rcases hfollows.first with ⟨_, hret'⟩ | ⟨r, hmem⟩
      · cases hret'
      · exact absurd hc (by simp [hquiet _ hmem])
    cases hrequest : t.request with
    | create id now input =>
      rw [hrequest] at hinvalid hasks
      cases hinput : input.parse u with
      | error e => exact hinvalid e (createUser_invalid hinput)
      | ok fields => exact absurd (createUser_asks hinput) (hasks rfl)
    | update id input =>
      rw [hrequest] at hinvalid hasks
      cases hinput : input.parse u with
      | error e => exact hinvalid e (updateUser_invalid hinput)
      | ok fields => exact absurd (updateUser_asks hinput) (hasks rfl)
    | delete id =>
      rw [hrequest] at hasks
      exact absurd deleteUser_asks (hasks rfl)
    -- A read is the one program that may end without the repository: it has found the user cached.
    | get id =>
      have hpromise := hfollows.obeys (program_obeys service t.request)
      obtain ⟨cached, hget, ⟨user, rfl, rfl⟩ | ⟨_, found, hfound, _⟩⟩ :=
        (Program.obeys_ret_iff.mp hpromise).answered id hrequest
      · obtain ⟨hredis, rfl, hseen⟩ :=
          (reachable_supplied hreach).hits i id user (Pool.mem_exchanges.mp hget)
        obtain ⟨newer, older, hhistory, hheld⟩ := held_of_seen h hseen
        exact .cached newer older user hredis hhistory hheld
      · exact absurd (hquiet _ hfound) (by simp [Call.asksRepository])

/-- **The server serves one request at a time.** Let any number of requests run next to each other
over either cache, with any calls failing, losing their replies or finding entries gone. Every run
goes on from a history of the state it starts in: the database is what the requests of the history
leave behind when each of them is alone; they are the requests of their threads, served in the order
of their calls of the repository, each at most once, and none of a thread that had returned by then;
and each result is the one of the request alone at its place in the history, or tells of an invalid
field, or is a user that Redis has kept of an earlier database. -/
theorem requests_linearize (service : UserService) (cache : CacheAdapter) (database : Database)
    {t : ServicePool u} {inputs : List (PoolInput Request Fate UserId)}
    (h : (Pool.machine (service.setupOver u cache database)).Reachable s)
    (hrun : (Pool.machine (service.setupOver u cache database)).runFrom s inputs = some t) :
    ∃ later before : History,
      s.store.database = (service.object u database).after database before ∧
      t.store.database = (service.object u database).after database (later ++ before) ∧
      (later ++ before).map Pool.Serving.thread =
        (t.log.filter fun e => e.2.1.asksRepository).map Prod.fst ∧
      ((later ++ before).map Pool.Serving.thread).Nodup ∧
      (∀ e ∈ later ++ before, ∃ thread, t.threads[e.thread]? = some thread ∧
        thread.request = e.request) ∧
      (∀ e ∈ later, ∀ thread, s.threads[e.thread]? = some thread → thread.rest.done = false) ∧
      (∀ i thread response, s.threads[i]? = some thread → thread.rest = .ret response →
        Answered service cache database before i thread.request response) ∧
      ∀ i thread response, t.threads[i]? = some thread → thread.rest = .ret response →
        Answered service cache database (later ++ before) i thread.request response := by
  obtain ⟨before, hbefore⟩ := Pool.Object.reachable_linearized object_lawful h
  obtain ⟨later, hlater, hlive⟩ := Pool.Object.linearized_run object_lawful hbefore hrun
  exact ⟨later, before, hbefore.view, hlater.view, hlater.order, hlater.once,
    fun e he => hlater.request_eq he, hlive,
    fun i thread response ht hret => answered h hbefore ht hret,
    fun i thread response ht hret => answered (h.runFrom hrun) hlater ht hret⟩

/-! ## A get that is answered from the cache

The result is the one of an earlier point of the history: the user is deleted already. -/

/-- Every call succeeds. -/
def sampleFate : Fate := ⟨sampleCircumstances, false⟩

/-- A get caches the stored user, who is deleted by a request that has not told the cache yet when
the next get comes. -/
def deletedMeanwhile : List (PoolInput Request Fate UserId) :=
  [.call 2 sampleFate, .start (.get sampleId), .call 1 sampleFate, .start (.delete sampleId),
    .call 0 sampleFate, .call 0 sampleFate, .call 0 sampleFate, .start (.get sampleId)]

theorem deletedMeanwhile_possible :
    ((Pool.machine (sampleService.setupOver Text.asciiCase .redis storedDatabase)).run
      deletedMeanwhile).isSome := by
  decide

def deletedMeanwhileState : ServicePool Text.asciiCase :=
  ((Pool.machine (sampleService.setupOver Text.asciiCase .redis storedDatabase)).run
    deletedMeanwhile).get deletedMeanwhile_possible

theorem requests_linearize_deleted :
    ∃ (history : History) (user : User Text.asciiCase),
      deletedMeanwhileState.store.database =
        (sampleService.object Text.asciiCase storedDatabase).after storedDatabase history ∧
      Answered sampleService .redis storedDatabase history 2 (.get sampleId)
        (.ok (some user)) := by
  obtain ⟨later, before, _, hdatabase, _, _, _, _, _, hanswered⟩ :=
    requests_linearize sampleService .redis storedDatabase Machine.reachable_init
      (Option.some_get deletedMeanwhile_possible).symm
  exact ⟨_, ⟨sampleId, sampleEmail, sampleName, 0, 0⟩, hdatabase, hanswered 2 _ _ rfl rfl⟩

end BaseSkeleton.Users
