import BaseSkeleton.Lib.Pool
import BaseSkeleton.Users.Stores
import BaseSkeleton.Users.UseCases

/-!
# The use cases next to each other

The server runs the use cases of its requests as the threads of a `Pool` over the database and the
cache; entries of the cache may expire at any time. A call with its reply is an `Exchange`: what
it did to the row and to the entry of a user (`Writes`, `Yields`, `CacheWrites`) can be read off it.

* `program_obeys` — what the use cases promise of their calls and results, whatever the replies.
-/

namespace BaseSkeleton.Users

open Text (CaseMapping)
open Program (Exchange Obeys)

/-! ## Requests

A request names the use case with its input, and the identifier and the instant that are drawn for a
new user. -/

inductive Request where
  | create (id : UserId) (now : Instant) (input : UserInput)
  | get (id : UserId)
  | update (id : UserId) (input : UserInput)
  | delete (id : UserId)

/-- The user a request is about. -/
def Request.about : Request → UserId
  | .create id _ _ => id
  | .get id => id
  | .update id _ => id
  | .delete id => id

/-- The use cases as the server is configured. -/
structure UserService where
  uuid : UuidText
  createUser : CreateUserUseCase
  getUser : GetUserUseCase
  updateUser : UpdateUserUseCase

/-- What a use case returns; `DeleteUser` returns no user. -/
abbrev Response (u : CaseMapping) := Except ApplicationError (Option (User u))

variable {u : CaseMapping}

def UserService.program (service : UserService) : Request → UseCase u (Response u)
  | .create id now input =>
    (service.createUser.execute service.uuid id now input).map fun result => result.map some
  | .get id => (service.getUser.execute id).map fun result => result.map some
  | .update id input => (service.updateUser.execute id input).map fun result => result.map some
  | .delete id => (DeleteUserUseCase.execute id).map fun result => result.map fun _ => none

/-- The server over a database, with an empty cache. -/
def UserService.setup (service : UserService) (u : CaseMapping) (database : Database) :
    Pool.Setup (Reply u) Stores Request Circumstances UserId (Response u) where
  program := service.program
  handler := answer
  disturb id s := { s with entries := Function.update s.entries id none }
  init := ⟨database, fun _ => none⟩

abbrev ServicePool (u : CaseMapping) := Pool (Reply u) Stores Request (Response u)

abbrev ServiceInput := PoolInput Request Circumstances UserId

/-! ## What an exchange did

Predicates on a call with its reply, so that a log can be searched for who wrote what. -/

/-- A call of the repository. -/
def Call.asksRepository : Call u → Bool
  | .findById _ => true
  | .update _ _ _ => true
  | .delete _ => true
  | .createWithJob _ _ => true
  | _ => false

/-- The user a call is about. -/
def Call.about : Call u → UserId
  | .findById id => id
  | .update id _ _ => id
  | .delete id => id
  | .createWithJob user _ => user.id
  | .cacheGet id => id
  | .cacheSet user _ => user.id
  | .cacheDelete id => id

/-- The user `id` was updated or deleted in the repository. -/
def Writes (id : UserId) : Exchange (Reply u) → Prop
  | ⟨.update k _ _, reply⟩ => k = id ∧ ∃ user, reply = Except.ok user
  | ⟨.delete k, reply⟩ => k = id ∧ reply = Except.ok true
  | _ => False

/-- The repository returned `user`. -/
def Yields (user : User u) : Exchange (Reply u) → Prop
  | ⟨.findById _, reply⟩ => reply = Except.ok (some user)
  | ⟨.update _ _ _, reply⟩ => reply = Except.ok user
  | ⟨.createWithJob _ _, reply⟩ => reply = Except.ok user
  | _ => False

/-- A write to the entry of `id`. -/
def Call.cacheWrites (id : UserId) : Call u → Prop
  | .cacheSet user _ => user.id = id
  | .cacheDelete k => k = id
  | _ => False

/-- What the call stores in the entry it writes. -/
def Call.entry : Call u → Option CachedUser
  | .cacheSet user _ => some (.from user)
  | _ => none

/-- A write to the cache reported an error. -/
def CacheFails : Exchange (Reply u) → Prop
  | ⟨.cacheSet _ _, reply⟩ => ∃ e, reply = Except.error e
  | ⟨.cacheDelete _, reply⟩ => ∃ e, reply = Except.error e
  | _ => False

/-- The repository was asked, and `error` is why there is no result. -/
def Refuses (error : ApplicationError) : Exchange (Reply u) → Prop
  | ⟨.findById _, reply⟩ =>
    (∃ e, reply = Except.error e ∧ error = .fromRepository e) ∨
      (reply = Except.ok none ∧ error = .notFound)
  | ⟨.update _ _ _, reply⟩ => ∃ e, reply = Except.error e ∧ error = .fromRepository e
  | ⟨.delete _, reply⟩ =>
    (∃ e, reply = Except.error e ∧ error = .fromRepository e) ∨
      (reply = Except.ok false ∧ error = .notFound)
  | ⟨.createWithJob _ _, reply⟩ => ∃ e, reply = Except.error e ∧ error = .fromRepository e
  | _ => False

/-- The user that is returned is the one that was asked for. -/
def RightUser : Exchange (Reply u) → Prop
  | ⟨.findById k, reply⟩ => ∀ user : User u, reply = Except.ok (some user) → user.id = k
  | ⟨.update k _ _, reply⟩ => ∀ user : User u, reply = Except.ok user → user.id = k
  | ⟨.createWithJob new _, reply⟩ => ∀ user : User u, reply = Except.ok user → user.id = new.id
  | _ => True

variable {id : UserId} {user : User u} {e : Exchange (Reply u)}
  {trace newer older : List (Exchange (Reply u))}

theorem Yields.asksRepository (h : Yields user e) : e.1.asksRepository = true := by
  obtain ⟨c, reply⟩ := e
  cases c <;> first | rfl | cases h

theorem Writes.asksRepository (h : Writes id e) : e.1.asksRepository = true := by
  obtain ⟨c, reply⟩ := e
  cases c <;> first | rfl | cases h

theorem Writes.about (h : Writes id e) : e.1.about = id := by
  obtain ⟨c, reply⟩ := e
  cases c <;> first | exact h.1 | cases h

theorem Writes.not_refuses {error : ApplicationError} (h : Writes id e) : ¬ Refuses error e := by
  intro hrefuses
  obtain ⟨c, reply⟩ := e
  cases c with
  | update k email displayName =>
    obtain ⟨_, user, hreply⟩ := h
    obtain ⟨_, herror, _⟩ := hrefuses
    rw [hreply] at herror
    cases herror
  | delete k =>
    obtain ⟨_, hreply⟩ := h
    rcases hrefuses with ⟨_, herror, _⟩ | ⟨hfalse, _⟩
    · rw [hreply] at herror
      cases herror
    · rw [hreply] at hfalse
      cases hfalse
  | _ => cases h

theorem Refuses.asksRepository {error : ApplicationError} (h : Refuses error e) :
    e.1.asksRepository = true := by
  obtain ⟨c, reply⟩ := e
  cases c <;> first | rfl | cases h

theorem Call.cacheWrites.about {c : Call u} (h : c.cacheWrites id) : c.about = id := by
  cases c <;> first | exact h | cases h

/-! ## What the use cases promise

Each use case keeps the promise of `CallPromise` before every call and that of `ResultPromise` at
its end, whatever it is answered. -/

/-- The entry of `id` has not been written since the user was updated or deleted. -/
def Unsettled (id : UserId) : List (Exchange (Reply u)) → Prop
  | [] => False
  | e :: older => Writes id e ∨ (¬ e.1.cacheWrites id ∧ Unsettled id older)

/-- What each request asks the repository. -/
def Request.asks : Request → Call u → Prop
  | .create _ _ _, .createWithJob _ _ => True
  | .get _, .findById _ => True
  | .update _ _, .update _ _ _ => True
  | .delete _, .delete _ => True
  | _, _ => False

/-- A use case asks the repository once, caches what it got from there, and has only to do with the
user of its request. -/
structure CallPromise (request : Request) (trace : List (Exchange (Reply u))) (c : Call u) :
    Prop where
  once : c.asksRepository = true → ∀ e ∈ trace, e.1.asksRepository = false
  asked : c.asksRepository = true → request.asks c
  own : (∀ e ∈ trace, RightUser e) → c.about = request.about
  caches : ∀ user ttlSeconds, c = .cacheSet user ttlSeconds → ∃ e ∈ trace, Yields user e

/-- What the repository says of a user that is asked for. -/
def fromRepository : Except RepositoryError (Option (User u)) → Response u
  | .error e => .error (.fromRepository e)
  | .ok none => .error .notFound
  | .ok (some user) => .ok (some user)

/-- `GetUser` returned the user that was cached, or what the repository says. -/
def GetAnswer (id : UserId) (trace : List (Exchange (Reply u))) (response : Response u) : Prop :=
  ∃ cached : Except CacheError (Option (User u)), ⟨.cacheGet id, cached⟩ ∈ trace ∧
    ((∃ user, cached = .ok (some user) ∧ response = .ok (some user)) ∨
      (∀ user, cached ≠ .ok (some user)) ∧
        ∃ found : Except RepositoryError (Option (User u)), ⟨.findById id, found⟩ ∈ trace ∧
          response = fromRepository found)

/-- How a use case ends: the cache has heard of what it changed, and an error is one of the input
or of the repository. -/
structure ResultPromise (request : Request) (trace : List (Exchange (Reply u)))
    (response : Response u) : Prop where
  settled : (∀ e ∈ trace, RightUser e) → ∀ id, ¬ Unsettled id trace
  refused : ∀ error, response = .error error →
    (∃ e, error = .invalidInput e ∧ trace = []) ∨ ∃ e ∈ trace, Refuses error e
  answered : ∀ id, request = .get id → GetAnswer id trace response

/-- A write that is settled was followed by a write to the cache. -/
theorem cacheWrites_of_settled (h : ¬ Unsettled id (newer ++ e :: older)) (he : Writes id e) :
    ∃ e' ∈ newer, e'.1.cacheWrites id := by
  induction newer with
  | nil => exact absurd (Or.inl he) h
  | cons e' newer ih =>
    by_cases hcache : e'.1.cacheWrites id
    · exact ⟨e', List.mem_cons_self, hcache⟩
    · obtain ⟨e'', hmem, hwrites⟩ := ih fun hrest => h (Or.inr ⟨hcache, hrest⟩)
      exact ⟨e'', List.mem_cons_of_mem _ hmem, hwrites⟩

/-- A use case that ends with what the repository has just refused. -/
theorem refused_promise {request : Request} {error : ApplicationError} (hrefuses : Refuses error e)
    (hrest : ∀ id, ¬ Unsettled id trace)
    (hanswer : ∀ id, request = .get id → GetAnswer id (e :: trace) (.error error)) :
    ResultPromise request (e :: trace) (.error error) where
  settled := by
    intro _ id hunsettled
    rcases hunsettled with hwrites | ⟨_, hunsettled⟩
    · exact hwrites.not_refuses hrefuses
    · exact hrest id hunsettled
  refused := by
    intro error' herror
    cases herror
    exact Or.inr ⟨e, List.mem_cons_self, hrefuses⟩
  answered := hanswer

/-- The promise of a use case that returns a user. -/
abbrev ReturnsUser (request : Request) (trace : List (Exchange (Reply u)))
    (result : Except ApplicationError (User u)) : Prop :=
  ResultPromise request trace (result.map some)

theorem getUser_load_obeys (useCase : GetUserUseCase) (id : UserId)
    {cached : Except CacheError (Option (User u))}
    (hmissed : ∀ user, cached ≠ .ok (some user)) :
    Obeys (CallPromise (.get id)) (ReturnsUser (.get id)) [⟨.cacheGet id, cached⟩]
      (useCase.load (u := u) id) := by
  have hanswer : ∀ (trace : List (Exchange (Reply u)))
      (found : Except RepositoryError (Option (User u))),
      ⟨.findById id, found⟩ ∈ trace → ⟨.cacheGet id, cached⟩ ∈ trace →
      ∀ k, Request.get id = .get k → GetAnswer k trace (fromRepository found) := by
    intro trace found hfound hcached k hk
    cases hk
    exact ⟨cached, hcached, Or.inr ⟨hmissed, found, hfound, rfl⟩⟩
  -- Before the repository answers, nothing has been written that the cache must follow.
  have hquiet : ∀ k, ¬ Unsettled k [(⟨.cacheGet id, cached⟩ : Exchange (Reply u))] := by
    intro k hunsettled
    rcases hunsettled with hwrites | ⟨_, hnil⟩
    · exact hwrites
    · exact hnil
  unfold GetUserUseCase.load
  refine Program.obeys_call ⟨?_, fun _ => trivial, fun _ => rfl, fun _ _ h => nomatch h⟩
    fun found => ?_
  · intro _ e he
    rw [List.mem_singleton.mp he]
    rfl
  · cases found with
    | error e =>
      exact Program.obeys_ret (refused_promise (Or.inl ⟨e, rfl, rfl⟩) hquiet
        (hanswer _ (.error e) (by simp) (by simp)))
    | ok found =>
      cases found with
      | none =>
        exact Program.obeys_ret (refused_promise (Or.inr ⟨rfl, rfl⟩) hquiet
          (hanswer _ (.ok none) (by simp) (by simp)))
      | some user =>
        refine Program.obeys_call ⟨nofun, nofun, ?_, ?_⟩ fun reply => Program.obeys_ret
          ⟨?_, fun _ h => (nomatch h), hanswer _ (.ok (some user)) (by simp) (by simp)⟩
        · -- The user that is cached is the one the repository has just returned.
          intro hright
          exact hright _ List.mem_cons_self user rfl
        · intro user' ttlSeconds hset
          cases hset
          exact ⟨_, List.mem_cons_self, rfl⟩
        · intro _ id' h
          simp [Unsettled, Writes] at h

theorem getUser_obeys (useCase : GetUserUseCase) (id : UserId) :
    Obeys (CallPromise (.get id)) (ReturnsUser (.get id)) [] (useCase.execute (u := u) id) := by
  unfold GetUserUseCase.execute
  refine Program.obeys_call ⟨nofun, nofun, fun _ => rfl, fun _ _ h => nomatch h⟩
    fun cached => ?_
  cases cached with
  | error e => exact getUser_load_obeys useCase id fun _ h => nomatch h
  | ok cached =>
    cases cached with
    | none => exact getUser_load_obeys useCase id fun _ h => nomatch h
    | some user =>
      refine Program.obeys_ret ⟨?_, fun _ h => (nomatch h), ?_⟩
      · intro _ id' h
        simp [Unsettled, Writes] at h
      · intro k hk
        cases hk
        exact ⟨_, List.mem_cons_self, Or.inl ⟨user, rfl, rfl⟩⟩

/-- An invalid request ends before it asks anyone. -/
theorem invalid_obeys {request : Request} (e : UserError) (hget : ∀ id, request ≠ .get id) :
    Obeys (CallPromise request) (ReturnsUser (u := u) request) []
      (.ret (.error (.invalidInput e))) := by
  refine Program.obeys_ret ⟨fun _ _ h => h, ?_, fun id h => absurd h (hget id)⟩
  intro error herror
  cases herror
  exact Or.inl ⟨e, rfl, rfl⟩

theorem createUser_obeys (useCase : CreateUserUseCase) (uuid : UuidText) (id : UserId)
    (now : Instant) (input : UserInput) :
    Obeys (CallPromise (.create id now input)) (ReturnsUser (.create id now input)) []
      (useCase.execute (u := u) uuid id now input) := by
  unfold CreateUserUseCase.execute
  cases Email.parse (u := u) input.email with
  | error e => exact invalid_obeys e fun _ h => nomatch h
  | ok email =>
    cases DisplayName.parse input.displayName with
    | error e => exact invalid_obeys e fun _ h => nomatch h
    | ok displayName =>
      refine Program.obeys_call ⟨fun _ _ he => absurd he List.not_mem_nil, fun _ => trivial,
        fun _ => rfl, fun _ _ h => nomatch h⟩ fun reply => ?_
      cases reply with
      | error e =>
        exact Program.obeys_ret (refused_promise ⟨e, rfl, rfl⟩ (fun _ h => h) fun _ h => nomatch h)
      | ok created =>
        refine Program.obeys_call ⟨nofun, nofun, ?_, ?_⟩ fun reply =>
          Program.obeys_ret ⟨?_, fun _ h => (nomatch h), fun _ h => nomatch h⟩
        · intro hright
          exact hright _ List.mem_cons_self created rfl
        · intro user ttlSeconds hset
          cases hset
          exact ⟨_, List.mem_cons_self, rfl⟩
        · intro _ id' h
          simp [Unsettled, Writes] at h

theorem updateUser_obeys (useCase : UpdateUserUseCase) (id : UserId) (input : UserInput) :
    Obeys (CallPromise (.update id input)) (ReturnsUser (.update id input)) []
      (useCase.execute (u := u) id input) := by
  unfold UpdateUserUseCase.execute
  cases Email.parse (u := u) input.email with
  | error e => exact invalid_obeys e fun _ h => nomatch h
  | ok email =>
    cases DisplayName.parse input.displayName with
    | error e => exact invalid_obeys e fun _ h => nomatch h
    | ok displayName =>
      refine Program.obeys_call ⟨fun _ _ he => absurd he List.not_mem_nil, fun _ => trivial,
        fun _ => rfl, fun _ _ h => nomatch h⟩ fun reply => ?_
      cases reply with
      | error e =>
        exact Program.obeys_ret (refused_promise ⟨e, rfl, rfl⟩ (fun _ h => h) fun _ h => nomatch h)
      | ok updated =>
        -- the entry that is written is the one of the user that was updated
        have hright : ∀ trace : List (Exchange (Reply u)),
            ⟨.update id email displayName, .ok updated⟩ ∈ trace →
            (∀ e ∈ trace, RightUser e) → updated.id = id :=
          fun trace hmem h => h _ hmem updated rfl
        refine Program.obeys_call ⟨nofun, nofun, hright _ List.mem_cons_self, ?_⟩ fun reply => ?_
        · intro user ttlSeconds hset
          cases hset
          exact ⟨_, List.mem_cons_self, rfl⟩
        · cases reply with
          | ok _ =>
            refine Program.obeys_ret ⟨?_, fun _ h => (nomatch h), fun _ h => nomatch h⟩
            intro h id' hunsettled
            have hid := hright _ (by simp) h
            simp [Unsettled, Writes, Call.cacheWrites, hid] at hunsettled
          | error e =>
            refine Program.obeys_call ⟨nofun, nofun, hright _ (by simp), fun _ _ h => nomatch h⟩
              fun reply =>
              Program.obeys_ret ⟨?_, fun _ h => (nomatch h), fun _ h => nomatch h⟩
            intro h id' hunsettled
            have hid := hright _ (by simp) h
            simp [Unsettled, Writes, Call.cacheWrites, hid] at hunsettled

theorem deleteUser_obeys (id : UserId) :
    Obeys (CallPromise (.delete id))
      (fun trace result => ResultPromise (u := u) (.delete id) trace (result.map fun _ => none)) []
      (DeleteUserUseCase.execute id) := by
  unfold DeleteUserUseCase.execute
  refine Program.obeys_call ⟨fun _ _ he => absurd he List.not_mem_nil, fun _ => trivial,
    fun _ => rfl, fun _ _ h => nomatch h⟩ fun reply => ?_
  cases reply with
  | error e =>
    exact Program.obeys_ret
      (refused_promise (Or.inl ⟨e, rfl, rfl⟩) (fun _ h => h) fun _ h => nomatch h)
  | ok deleted =>
    cases deleted with
    | false =>
      exact Program.obeys_ret
        (refused_promise (Or.inr ⟨rfl, rfl⟩) (fun _ h => h) fun _ h => nomatch h)
    | true =>
      refine Program.obeys_call ⟨nofun, nofun, fun _ => rfl, fun _ _ h => nomatch h⟩ fun reply =>
        Program.obeys_ret ⟨?_, fun _ h => (nomatch h), fun _ h => nomatch h⟩
      intro _ id' h
      simp [Unsettled, Writes, Call.cacheWrites] at h

/-- **What every use case promises**, whatever the replies. -/
theorem program_obeys (service : UserService) (request : Request) :
    Obeys (CallPromise request) (ResultPromise request) [] (service.program (u := u) request) := by
  unfold UserService.program
  cases request with
  | create id now input =>
    exact Obeys.map _ (createUser_obeys service.createUser service.uuid id now input)
  | get id => exact Obeys.map _ (getUser_obeys service.getUser id)
  | update id input => exact Obeys.map _ (updateUser_obeys service.updateUser id input)
  | delete id => exact Obeys.map _ (deleteUser_obeys id)

end BaseSkeleton.Users
