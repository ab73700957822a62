import BaseSkeleton.Http.Responses
import BaseSkeleton.Users.Registry

/-!
# What the API is for

The registry of users, for those who may read and change it: every response of the API is one to a
request that was turned down at the gate, or took too long, or tells what a registry has become that
was changed by authorized requests alone, one after the other.

* `represents_list` — a page of a table that represents a registry.
* `api_refines_registry` — every run of the API.
-/

namespace BaseSkeleton.Http

open Program (Exchange)
open Text (CaseMapping)
open Users (CacheAdapter Database Explained History ListUsersInput ListUsersQuery RepositoryError
  Represents Served ServicePool Told User UserRegistry UserRow UserTable)

variable {u : CaseMapping} {IpNet : Type} {api : Api IpNet}

/-! ## Pages of a registry

A page is cut out of the users in the order of the list; the order itself is a fact about the
registry, since its users have different ids and each carries when it was created. -/

/-- The users of a registry, the latest one first. -/
structure Enumerates (R : UserRegistry u) (users : List (User u)) : Prop where
  mem : ∀ user, user ∈ users ↔ R.find user.id = some user
  latest : users.Pairwise fun a b =>
    b.createdAt < a.createdAt ∨ (a.createdAt = b.createdAt ∧ b.id ≤ a.id)
  keyed : (users.map User.id).Nodup

/-- What is told of a page: what is on it, or that the repository is unavailable. -/
def Pages (R : UserRegistry u) (input : ListUsersInput)
    (told : Except RepositoryError (List (User u))) : Prop :=
  told = .error .unavailable ∨ ∃ users, Enumerates R users ∧
    told = .ok (users.page (min (max input.perPage.toNat 1) 100) (max input.page.toNat 1 - 1))

variable {R : UserRegistry u} {T : UserTable} {users : List (User u)}

/-- A row holds all of its user. -/
theorem storing_injective : Function.Injective (UserRow.storing (u := u)) := by
  intro user user' h
  have hread := congrArg (UserRow.intoDomain u) h
  rw [Users.intoDomain_storing, Users.intoDomain_storing] at hread
  exact Except.ok.inj hread

/-- The rows of users are read back as these users. -/
theorem mapM_storing (users : List (User u)) :
    (users.map UserRow.storing).mapM (UserRow.intoDomain u) = .ok users := by
  induction users with
  | nil => rfl
  | cons user users ih =>
    exact Except.mapM_cons_eq_ok.mpr ⟨user, users, Users.intoDomain_storing user, ih, rfl⟩

/-- The ordered table lists the users of the registry it represents. -/
theorem enumerates_ordered (h : Represents T R) :
    ∃ users, T.ordered = users.map UserRow.storing ∧ Enumerates R users := by
  have hperm : T.ordered.Perm T.rows := List.perm_insertionSort Users.listOrder T.rows
  have hstored : T.ordered ∈ Set.range (List.map (UserRow.storing (u := u))) := by
    rw [Set.range_list_map]
    intro row hrow
    obtain ⟨user, _, hstoring⟩ := h.of_row (hperm.subset hrow)
    exact ⟨user, hstoring.symm⟩
  obtain ⟨users, husers⟩ := hstored
  refine ⟨users, husers.symm, ?_, ?_, ?_⟩
  · intro user
    rw [← List.mem_map_of_injective storing_injective, husers, hperm.mem_iff]
    constructor
    · intro hrow
      obtain ⟨user', huser', hstoring⟩ := h.of_row hrow
      rw [storing_injective hstoring]
      rw [storing_injective hstoring] at huser'
      exact huser'
    · exact h.mem_rows
  · have hsorted : T.ordered.Pairwise Users.listOrder :=
      List.pairwise_insertionSort Users.listOrder T.rows
    rw [← husers] at hsorted
    exact List.pairwise_map.mp hsorted
  · have hkeyed : (T.ordered.map UserRow.id).Nodup := (hperm.map UserRow.id).nodup_iff.mpr T.keyed
    rw [← husers, List.map_map] at hkeyed
    exact hkeyed

/-- **The list of a table that represents a registry** is a page of the registry. -/
theorem represents_list (h : Represents T R) (fails : Bool) (input : ListUsersInput) :
    Pages R input (Users.PostgresUserRepository.list u fails input.normalized.perPage
      input.normalized.offset T) := by
  unfold Users.PostgresUserRepository.list
  cases fails with
  | true => exact Or.inl rfl
  | false =>
    obtain ⟨users, husers, henumerates⟩ := enumerates_ordered h
    refine Or.inr ⟨users, henumerates, ?_⟩
    obtain ⟨_, hoffset, hi64⟩ := Users.offset_exact input.normalized
    rw [input.normalized_normalized, input.page_normalized, input.perPage_normalized] at hoffset
    simp only [Bool.false_eq_true, if_false, hi64, Option.getD_some, Int.toNat_natCast, hoffset,
      input.perPage_normalized, husers, ← List.map_drop, ← List.map_take]
    exact mapM_storing _

/-! ## Every run

Two histories have to agree: the one the use cases are linearized by, and the log of the gate, which
also holds the pages that were listed in between. `Tracked` keeps them together from step to step.
-/

/-- The use cases behind the API, and the requests they have served. -/
structure Tracked (api : Api IpNet) (cache : CacheAdapter) (database : Database) (s : ApiPool u)
    (door : Nat → Option Nat) (t : ServicePool u) (history : History) : Prop where
  reach : (Pool.machine (api.service.setupOver u cache database)).Reachable t
  behind : Pool.Behind (api.gate u) (api.service.setupOver u cache database) none door s t
  linearized : (api.service.object u database).Linearized (api.service.setupOver u cache database)
    t history
  /-- every page is one of the table at some point of the history -/
  listed : ∀ i limit offset users,
    (i, (⟨.inr (.list limit offset), users⟩ : Exchange (EitherReply (Users.Reply u) (ApiReply u)))) ∈
      s.log → ∃ fails newer older, history = newer ++ older ∧
        users = Users.PostgresUserRepository.list u fails limit offset
          ((api.service.object u database).after database older).users

variable {cache : CacheAdapter} {database : Database} {s s' : ApiPool u} {t : ServicePool u}
  {door : Nat → Option Nat} {history : History}

/-- **The step lemma.** -/
theorem tracked_step {input : PoolInput ApiRequest (Users.Fate × Api.Surroundings) Users.UserId}
    (hinv : Pool.Inv (Pool.Gate.setup (api.gate u) (api.service.setupOver u cache database)) s)
    (h : Tracked api cache database s door t history)
    (hstep : (Pool.machine (Pool.Gate.setup (api.gate u)
      (api.service.setupOver u cache database))).step s input = some s') :
    ∃ door' t' history', Tracked api cache database s' door' t' history' := by
  obtain ⟨inputs, door', t', hrun, hbehind, _⟩ := Pool.behind_step hinv h.behind hstep
  obtain ⟨later, hlinearized, _⟩ := Pool.Object.linearized_run Users.object_lawful h.linearized hrun
  refine ⟨door', t', later ++ history, h.reach.runFrom hrun, hbehind, hlinearized, ?_⟩
  have hold : ∀ {i limit offset users},
      (i, (⟨.inr (.list limit offset), users⟩ :
        Exchange (EitherReply (Users.Reply u) (ApiReply u)))) ∈ s.log →
      ∃ fails newer older, later ++ history = newer ++ older ∧
        users = Users.PostgresUserRepository.list u fails limit offset
          ((api.service.object u database).after database older).users := by
    intro i limit offset users hmem
    obtain ⟨fails, newer, older, rfl, husers⟩ := h.listed i limit offset users hmem
    exact ⟨fails, later ++ newer, older, (List.append_assoc ..).symm, husers⟩
  cases Pool.step_steps hstep with
  | start request => exact fun i limit offset users => hold
  | disturb d => exact fun i limit offset users => hold
  | call i w request c k hthread =>
    intro i' limit offset users hmem
    rcases List.mem_cons.mp hmem with heq | hmem
    · cases heq
      refine ⟨w.2.queryFails, later, history, rfl, ?_⟩
      have hview : t.store.database = (api.service.object u database).after database history :=
        h.linearized.view
      rw [← hview, h.behind.store]
      rfl
    · exact hold hmem

/-- **The run lemma.** -/
theorem reachable_tracked
    (h : (Pool.machine (Pool.Gate.setup (api.gate u)
      (api.service.setupOver u cache database))).Reachable s) :
    ∃ door t history, Tracked api cache database s door t history := by
  refine h.invariant (P := fun s => ∃ door t history, Tracked api cache database s door t history)
    ?_ ?_
  · exact ⟨_, _, [], Machine.reachable_init, Pool.behind_init, Pool.Object.linearized_init,
      fun i limit offset users hmem => absurd hmem List.not_mem_nil⟩
  · rintro s input s' hreach ⟨door, t, history, htracked⟩ hstep
    exact tracked_step (Pool.reachable_inv hreach) htracked hstep

/-! ## Every response

The log of the registry names threads of the use cases; `brought` names the requests of the API they
were brought by. What is told of one is told of the other. -/

/-- A request that was served, under the thread that brought it. -/
def brought (origin : Nat → Nat) (told : Told u) : Told u :=
  { told with thread := origin told.thread }

/-- Why a request was answered as it was, when `log` was served; `cut` says that it was cut off. -/
inductive Answers (api : Api IpNet) (R : UserRegistry u) (cache : CacheAdapter)
    (log : List (Told u)) (i : Nat) (request : ApiRequest)
    (trace : List (Exchange (ApiReply u))) (cut : Prop) : ApiResponse → Prop where
  /-- what the request asked for may be in the log, and may not -/
  | timedOut (hcut : cut) : Answers api R cache log i request trace cut Api.requestTimeout
  | turnedDown (response : ApiResponse) (hended : Api.Ended api request trace response)
      (hlisted : ¬ Listed trace) : Answers api R cache log i request trace cut response
  | listed (query : ListUsersQuery) (told : Except RepositoryError (List (User u)))
      (newer older : List (Told u)) (R' : UserRegistry u)
      (hended : Api.Ended api request trace (api.listResponse query told))
      (hendpoint : request.endpoint = .listUsers (.ok query)) (hlog : log = newer ++ older)
      (hserved : Served R older R') (hpage : Pages R' (.from query) told) :
      Answers api R cache log i request trace cut (api.listResponse query told)
  | entered (r : Users.Request) (told : Users.Response u)
      (hentered : Api.Entered api request r trace) (hexplained : Explained R cache log i r told) :
      Answers api R cache log i request trace cut (api.leave request told)

variable {R' : UserRegistry u} {log : List (Told u)} {i : Nat} {origin : Nat → Nat}

/-- Renaming the threads of a log changes nothing of what it does. -/
theorem served_brought (h : Served R log R') : Served R (log.map (brought origin)) R' := by
  induction h with
  | start => exact .start
  | next told h hserves ih => exact .next _ ih hserves

/-- Renamed, a result is explained as before. -/
theorem explained_brought {r : Users.Request} {told : Users.Response u}
    (h : Explained R cache log i r told) :
    Explained R cache (log.map (brought origin)) (origin i) r told := by
  cases h with
  | invalid request input e hrequest hinput => exact .invalid r input e hrequest hinput
  | served request response h =>
    exact .served r told (List.mem_map.mpr ⟨_, h, rfl⟩)
  | cached newer older R' user hredis hlog hserved hfind =>
    exact .cached (newer.map (brought origin)) (older.map (brought origin)) R' user hredis
      (by rw [hlog, List.map_append]) (served_brought hserved) hfind

/-- Why a request that did not enter was answered as it was. -/
theorem answers_ended {request : ApiRequest} {response : ApiResponse} (cut : Prop)
    (h : Tracked api cache database s door t history) (hrepresents : Represents database.users R)
    (hended : Api.Ended api request (Pool.gateExchanges i s.log) response) :
    Answers api R cache ((api.service.told u database history).map (brought origin)) i request
      (Pool.gateExchanges i s.log) cut response := by
  by_cases hlisted : Listed (Pool.gateExchanges i s.log)
  · generalize htrace : Pool.gateExchanges i s.log = trace at hended hlisted ⊢
    have hended' := hended
    cases hended with
    | listed accessToken principal hauthorized query hendpoint users =>
      have hmem := Pool.mem_gateExchanges.mp (htrace ▸ List.mem_cons_self)
      obtain ⟨fails, newer, older, rfl, husers⟩ := h.listed i _ _ users hmem
      obtain ⟨R', hserved, htable⟩ := Users.history_refines api.service hrepresents older
      obtain ⟨told, htold⟩ := Users.told_append (u := u) api.service database newer older
      refine .listed query users (told.map (brought origin))
        ((api.service.told u database older).map (brought origin)) R' hended' hendpoint
        (by rw [htold, List.map_append]) (served_brought hserved) ?_
      rw [husers]
      exact represents_list htable fails (.from query)
    | _ => simp [Listed, Api.shown] at hlisted
  · exact .turnedDown response hended hlisted

/-- A request that was served has entered. -/
theorem entered_of_served {told : Told u} (h : Tracked api cache database s door t history)
    (hdoor : ∀ j < t.threads.length, door (origin j) = some j)
    (htold : told ∈ api.service.told u database history) :
    ∃ thread, s.threads[origin told.thread]? = some thread ∧
      Api.Entered api thread.request told.request
        (Pool.gateExchanges (origin told.thread) s.log) := by
  obtain ⟨e, he, hthread, hrequest⟩ := Users.mem_told htold
  have hentered := hdoor e.thread (h.linearized.started e he)
  obtain ⟨inner, hinner, hinnerRequest⟩ := h.linearized.request_eq he
  have hbound := (h.behind.bounded _ _ hentered).1
  have hguarded := guarded_of_behind h.behind (List.getElem?_eq_getElem hbound)
  rw [hentered] at hguarded
  rw [hthread, hrequest, ← hinnerRequest]
  refine ⟨_, List.getElem?_eq_getElem hbound, ?_⟩
  cases hguarded with
  | inside _ j inner' hinner' _ hpassed _ =>
    rw [hinner] at hinner'
    cases hinner'
    exact hpassed

/-- Everything that a thread returns. -/
theorem answers {thread : ApiThread u} {response : ApiResponse} (cut : Prop)
    (h : Tracked api cache database s door t history) (hrepresents : Represents database.users R)
    (horigin : ∀ i j, door i = some j → origin j = i) (hthread : s.threads[i]? = some thread)
    (hreturns : thread.rest = .ret response) :
    Answers api R cache ((api.service.told u database history).map (brought origin)) i
      thread.request (Pool.gateExchanges i s.log) cut response := by
  have hguarded := guarded_of_behind h.behind hthread
  generalize hdoor : door i = j at hguarded
  cases hguarded with
  | outside _ _ hended => exact answers_ended cut h hrepresents (hended response hreturns)
  | inside _ j inner hinner _ hentered hleaves =>
    obtain ⟨told, htold, rfl⟩ := (hleaves response).mp hreturns
    have hexplained := Users.explained hrepresents (Users.answered h.reach h.linearized hinner htold)
    refine .entered inner.request told hentered ?_
    rw [← horigin i j hdoor]
    exact explained_brought hexplained

/-- **The API is a registry of users, for those who may use it.** In every run over a database that
represents a registry, next to any others, with any calls failing and any requests cut off, there is
a log of requests that were served one after the other, in the order of their calls of the
repository and each at most once. Each was brought by a request within the limit that showed a token
of a principal with the scope of its route. The database represents what they have made of the
registry. A request that was cut off is told that it took too long; every other response turns its
request down, or is a page of a registry on the way, or tells what the request did. -/
theorem api_refines_registry (api : Api IpNet) (cache : CacheAdapter) (database : Database)
    (R : UserRegistry u) (h : Represents database.users R) {s : ApiServer u}
    (hreach : (api.server u cache database).Reachable s) :
    ∃ log R', Served R log R' ∧ Represents s.pool.store.database.users R' ∧
      log.map Told.thread = (s.pool.log.filter fun e =>
        e.2.inside.any fun e => e.1.asksRepository).map Prod.fst ∧
      (log.map Told.thread).Nodup ∧
      (∀ told ∈ log, ∃ thread, s.pool.threads[told.thread]? = some thread ∧
        Api.Entered api thread.request told.request
          (Pool.gateExchanges told.thread s.pool.log)) ∧
      ∀ i thread response, s.pool.threads[i]? = some thread → Api.response s i = some response →
        Answers api R cache log i thread.request (Pool.gateExchanges i s.pool.log)
          (s.endings i = some .cutOff) response := by
  have hpool := Pool.reachable_pool hreach
  rw [Api.setup_eq] at hpool
  obtain ⟨door, t, history, htracked⟩ := reachable_tracked hpool
  obtain ⟨origin, horigin, hdoor⟩ := htracked.behind.exists_origin
  obtain ⟨R', hserved, hrepresents⟩ := Users.history_refines api.service h history
  have hthreads : ((api.service.told u database history).map (brought origin)).map Told.thread =
      (history.map Pool.Serving.thread).map origin := by
    have htold : (api.service.told u database history).map Told.thread =
        history.map Pool.Serving.thread := Users.told_threads history
    rw [← htold, List.map_map, List.map_map]
    rfl
  refine ⟨(api.service.told u database history).map (brought origin), R', served_brought hserved,
    ?_, ?_, ?_, ?_, ?_⟩
  · have hview : t.store.database = (api.service.object u database).after database history :=
      htracked.linearized.view
    rw [← htracked.behind.store, hview]
    exact hrepresents
  · rw [hthreads, htracked.linearized.order]
    exact htracked.behind.map_filter_log horigin fun e => e.1.asksRepository
  · -- a request of the log has one door, so its thread is there once
    rw [hthreads]
    refine htracked.linearized.once.map_on fun j hj j' hj' heq => ?_
    have horigins : ∀ j ∈ history.map Pool.Serving.thread, door (origin j) = some j := by
      intro j hj
      obtain ⟨e, he, rfl⟩ := List.mem_map.mp hj
      exact hdoor e.thread (htracked.linearized.started e he)
    have hdoors := horigins j hj
    rw [heq, horigins j' hj'] at hdoors
    exact (Option.some.inj hdoors).symm
  · intro told htold
    obtain ⟨_, hmem, rfl⟩ := List.mem_map.mp htold
    exact entered_of_served htracked hdoor hmem
  · intro i thread response hthread hresponse
    rcases response_cases hreach hthread hresponse with ⟨hcut, rfl⟩ | ⟨_, hreturns⟩
    · exact .timedOut hcut
    · exact answers _ htracked h horigin hthread hreturns

/-- The request without the scope is not in the log, and the one that was cut off is. -/
theorem api_refines_registry_late :
    ∃ log R', Served .empty log R' ∧
      Represents (u := Text.asciiCase) lateDeleteState.pool.store.database.users R' ∧
      log.map Told.thread = [2, 0] := by
  obtain ⟨log, R', hserved, hrepresents, horder, _⟩ := api_refines_registry sampleApi .noOp
    Users.emptyStores.database .empty ⟨fun _ => rfl⟩ (Machine.reachable_get lateDelete_possible)
  exact ⟨log, R', hserved, hrepresents, horder.trans (by decide)⟩

end BaseSkeleton.Http
