import BaseSkeleton.Http.Api
import BaseSkeleton.Users.Linearizable

/-!
# The gate of the API

The layers and the handlers of the API are a gate in front of the use cases: they end a request, or
let it enter as one of the use cases and make a response of what it returns.

* `Api.handle_eq` — what `build_router` does with a request is the gate.
* `response_cases` — a response comes from there, or from the `TimeoutLayer`.
* `Api.passed` — what a request has shown that has come through the gate, and why one has not.
* `api_guards_service` — behind every run of the API is a run of the use cases for the requests that
  were let in.
-/

namespace BaseSkeleton.Http

open Program (Exchange Follows Obeys)
open RateLimit (IpAddr)
open Text (CaseMapping)
open Users (Stores Fate CacheAdapter Database ServicePool UserService)

variable {u : CaseMapping} {IpNet : Type}

namespace Api

variable (api : Api IpNet)

/-! ## The gate

`Api.handle` is one program, in which the layers wrap the handlers and the handlers wrap the use
cases. The gate is what is left of it without the use cases: `pass` until a use case is called, and
`leave` for what it returns. Listing users is on this side, because it reads the database and
changes nothing. -/

/-- What a handler does with a request before its use case; the users are listed here, by a use
case that changes nothing. -/
def enter : Endpoint → Program (ApiReply u) (Passage ApiResponse Users.Request)
  | .createUser _ _ (.error rejection) =>
    .ret (.ends (ApiError.fromJsonRejection rejection).intoResponse)
  | .createUser id now (.ok request) => .ret (.enters (.create id now request.into))
  | .getUser (.error rejection) =>
    .ret (.ends { status := rejection.status, body := .text rejection.bodyText })
  | .getUser (.ok id) =>
    match api.parseId id with
    | .error e => .ret (.ends e.intoResponse)
    | .ok id => .ret (.enters (.get id))
  | .listUsers (.error rejection) =>
    .ret (.ends (ApiError.fromQueryRejection rejection).intoResponse)
  | .listUsers (.ok query) =>
    (listUsersUseCase (u := u) (.from query)).map fun users =>
      match users with
      | .error e => .ends (ApiError.fromApplicationError e).intoResponse
      | .ok users => .ends (api.userListEnvelope (.from query) users)
  | .updateUser (.error rejection) _ =>
    .ret (.ends { status := rejection.status, body := .text rejection.bodyText })
  | .updateUser (.ok _) (.error rejection) =>
    .ret (.ends (ApiError.fromJsonRejection rejection).intoResponse)
  | .updateUser (.ok id) (.ok request) =>
    match api.parseId id with
    | .error e => .ret (.ends e.intoResponse)
    | .ok id => .ret (.enters (.update id request.into))
  | .deleteUser (.error rejection) =>
    .ret (.ends { status := rejection.status, body := .text rejection.bodyText })
  | .deleteUser (.ok id) =>
    match api.parseId id with
    | .error e => .ret (.ends e.intoResponse)
    | .ok id => .ret (.enters (.delete id))

/-- The key the limiter counts a request under. -/
def key (request : ApiRequest) : IpAddr :=
  api.extractor.extract api.contains api.toStr request.connection

/-- What `require_scope` makes of an error of the verifier. -/
def verificationError : AccessTokenVerificationError → ApiError
  | .invalidToken => .invalidToken
  | .authenticationUnavailable => .authenticationUnavailable

/-- What becomes of a request in front of the use cases. -/
def pass (request : ApiRequest) :
    Program (ApiReply u) (Passage ApiResponse Users.Request) :=
  .call (.checkKey (api.key request)) fun checked =>
    match checked with
    | .error e => .ret (.ends (errorResponse e))
    | .ok () =>
      match bearerToken api.toStr request.authorization with
      | none => .ret (.ends ApiError.unauthorized.intoResponse)
      | some accessToken =>
        .call (.verify accessToken) fun verified =>
          match verified with
          | .error e => .ret (.ends (verificationError e).intoResponse)
          | .ok principal =>
            if principal.hasScope request.endpoint.scope then api.enter request.endpoint
            else .ret (.ends (ApiError.insufficientScope request.endpoint.scope).intoResponse)

/-- The response to what a use case returns. -/
def leave (request : ApiRequest) : Users.Response u → ApiResponse
  | .error e => (ApiError.fromApplicationError e).intoResponse
  | .ok none => { status := 204, body := .empty }
  | .ok (some user) =>
    match request.endpoint with
    | .createUser _ _ _ => api.userEnvelope 201 user
    | _ => api.userEnvelope 200 user

/-- What the calls of the gate are answered. -/
structure Surroundings where
  checked : Except GovernorError Unit
  verified : Except AccessTokenVerificationError AuthenticatedPrincipal
  queryFails : Bool

def answer (w : Surroundings) : (c : ApiCall) → Stores → ApiReply u c
  | .checkKey _, _ => w.checked
  | .verify _, _ => w.verified
  | .list limit offset, s =>
    Users.PostgresUserRepository.list u w.queryFails limit offset s.database.users

/-- The layers and the handlers in front of the use cases. -/
def gate (u : CaseMapping) :
    Gate (ApiReply u) Stores Users.Request ApiRequest Surroundings (Users.Response u)
      ApiResponse where
  pass := api.pass
  leave := api.leave
  answer := answer

/-! ## The gate is what the code does

The proof follows the nesting: `rendered` is a handler around a use case, `route_eq` goes through
the endpoints, and `handle_eq` adds the layers in front of them, from the rate limit inwards. -/

variable {api}

variable (api) in
/-- A handler that renders what its use case returns. -/
theorem rendered {α : Type} (request : ApiRequest)
    (p : Users.UseCase u (Except Users.ApplicationError α)) (f : α → Option (Users.User u))
    {k : Except Users.ApplicationError α → Handler u (Except ApiError ApiResponse)}
    (herror : ∀ e, k (.error e) = .ret (.error (.fromApplicationError e)))
    (hok : ∀ a, k (.ok a) = .ret (.ok (api.leave request (.ok (f a))))) :
    ((p.inside (Q := ApiReply u)).bind k).bind (fun r => .ret (intoResponse r)) =
      ((p.map fun result => result.map f).map (api.leave request)).inside := by
  unfold Program.map
  rw [Program.bind_assoc, Program.bind_assoc, Program.inside_bind]
  congr 1
  funext result
  cases result with
  | error e => rw [herror]; rfl
  | ok a => rw [hok]; rfl

/-- Behind the gate a request that entered is its use case, and the response made of it. -/
theorem before_enters (request : ApiRequest) (r : Users.Request) :
    Pool.Gate.before (api.gate u) api.service.program request (.ret (.enters r)) =
      ((api.service.program r).map (api.leave request)).inside := rfl

/-- **The handlers.** Each route is what its handler does before the use case, followed by the use
case if the request enters. The cases are the endpoints, and in each of them the rejections of the
extractors come first. -/
theorem route_eq (request : ApiRequest) :
    api.route (u := u) request.endpoint =
      Pool.Gate.before (api.gate u) api.service.program request (api.enter request.endpoint) := by
  obtain ⟨connection, authorization, endpoint⟩ := request
  cases endpoint with
  | createUser id now request =>
    cases request with
    -- An extractor that rejects the request ends it on either side, as the path does that is no id.
    | error rejection => rfl
    | ok request =>
      simp only [route, createUser, enter, before_enters, UserService.program]
      generalize api.service.createUser.execute api.service.uuid id now request.into = p
      exact rendered api ⟨connection, authorization, .createUser id now (.ok request)⟩ p some
        (fun _ => rfl) fun _ => rfl
  | getUser id =>
    cases id with
    | error rejection => rfl
    | ok text =>
      simp only [route, withPath, getUser, enter]
      cases api.parseId text with
      | error e => rfl
      | ok id =>
        simp only [before_enters, UserService.program]
        generalize api.service.getUser.execute id = p
        exact rendered api ⟨connection, authorization, .getUser (.ok text)⟩ p some
          (fun _ => rfl) fun _ => rfl
  | listUsers query =>
    cases query with
    | error rejection => rfl
    | ok query =>
      -- the list is read at the gate, so that both sides make the same call
      refine congrArg (Program.call _) (funext fun listed => ?_)
      cases listed <;> rfl
  | updateUser id request =>
    cases id with
    | error rejection => rfl
    | ok text =>
      cases request with
      | error rejection => rfl
      | ok request =>
        simp only [route, withPath, updateUser, enter]
        cases api.parseId text with
        | error e => rfl
        | ok id =>
          simp only [before_enters, UserService.program]
          generalize api.service.updateUser.execute id request.into = p
          exact rendered api ⟨connection, authorization, .updateUser (.ok text) (.ok request)⟩ p some
            (fun _ => rfl) fun _ => rfl
  | deleteUser id =>
    cases id with
    | error rejection => rfl
    | ok text =>
      simp only [route, withPath, deleteUser, enter]
      cases api.parseId text with
      | error e => rfl
      | ok id =>
        simp only [before_enters, UserService.program]
        generalize Users.DeleteUserUseCase.execute id = p
        exact rendered api ⟨connection, authorization, .deleteUser (.ok text)⟩ p (fun _ => none)
          (fun _ => rfl) fun _ => rfl

/-- **The layers and the handlers are a gate in front of the use cases.** -/
theorem handle_eq (request : ApiRequest) :
    api.handle (u := u) request =
      Pool.Gate.before (api.gate u) api.service.program request (api.pass request) := by
  refine congrArg (Program.call (Sum.inr (ApiCall.checkKey _))) (funext fun checked => ?_)
  cases checked with
  | error e => rfl
  | ok _ =>
    simp only [requireScope]
    cases bearerToken api.toStr request.authorization with
    | none => rfl
    | some accessToken =>
      refine congrArg (Program.call (Sum.inr (ApiCall.verify accessToken)))
        (funext fun verified => ?_)
      cases verified with
      | error e => cases e <;> rfl
      | ok principal =>
        -- the scope is checked without a call: the two programs differ in where the response is
        -- made
        show Program.bind (if principal.hasScope request.endpoint.scope then
            (api.route request.endpoint).bind fun response => .ret (.ok response)
          else .ret (.error (.insufficientScope request.endpoint.scope)))
            (fun r => .ret (intoResponse r)) = _
        by_cases hscope : principal.hasScope request.endpoint.scope
        · rw [if_pos hscope, Program.bind_assoc]
          refine Eq.trans (Program.bind_ret _) (Eq.trans (route_eq request) ?_)
          simp only [hscope, if_true]
          rfl
        · rw [if_neg hscope]
          simp only [hscope]
          rfl

/-! ## What has been shown at the gate

The calls that a request has made at the gate say what it has shown there. `Ended` lists the ways in
which a request ends without a use case, `Entered` says what one must have shown that enters; that
nothing else can happen is an induction over `pass`, done once (`pass_obeys`). -/

/-- The request carries a token, and `principal` has the scope of its route. -/
structure Authorized (api : Api IpNet) (request : ApiRequest) (accessToken : String)
    (principal : AuthenticatedPrincipal) : Prop where
  token : bearerToken api.toStr request.authorization = some accessToken
  scope : principal.hasScope request.endpoint.scope = true

variable (api) in
/-- The calls of a request that is within the limit and whose token was verified. -/
def shown (u : CaseMapping) (request : ApiRequest) (accessToken : String)
    (principal : AuthenticatedPrincipal) : List (Exchange (ApiReply u)) :=
  [⟨.verify accessToken, .ok principal⟩, ⟨.checkKey (api.key request), .ok ()⟩]

variable (api) in
/-- The response to a page of users. -/
def listResponse (query : Users.ListUsersQuery) :
    Except Users.RepositoryError (List (Users.User u)) → ApiResponse
  | .error e => (ApiError.fromApplicationError (.fromRepository e)).intoResponse
  | .ok users => api.userListEnvelope (.from query) users

/-- The calls of a request that did not enter, and its response. -/
inductive Ended (api : Api IpNet) (request : ApiRequest) :
    List (Exchange (ApiReply u)) → ApiResponse → Prop where
  | limited (e : GovernorError) :
      Ended api request [⟨.checkKey (api.key request), .error e⟩] (errorResponse e)
  | anonymous (htoken : bearerToken api.toStr request.authorization = none) :
      Ended api request [⟨.checkKey (api.key request), .ok ()⟩] ApiError.unauthorized.intoResponse
  | unverified (accessToken : String) (e : AccessTokenVerificationError)
      (htoken : bearerToken api.toStr request.authorization = some accessToken) :
      Ended api request [⟨.verify accessToken, .error e⟩, ⟨.checkKey (api.key request), .ok ()⟩]
        (verificationError e).intoResponse
  | forbidden (accessToken : String) (principal : AuthenticatedPrincipal)
      (htoken : bearerToken api.toStr request.authorization = some accessToken)
      (hscope : principal.hasScope request.endpoint.scope = false) :
      Ended api request (api.shown u request accessToken principal)
        (ApiError.insufficientScope request.endpoint.scope).intoResponse
  | rejected (accessToken : String) (principal : AuthenticatedPrincipal)
      (hauthorized : Authorized api request accessToken principal) (response : ApiResponse)
      (henter : api.enter (u := u) request.endpoint = .ret (.ends response)) :
      Ended api request (api.shown u request accessToken principal) response
  | listed (accessToken : String) (principal : AuthenticatedPrincipal)
      (hauthorized : Authorized api request accessToken principal) (query : Users.ListUsersQuery)
      (hendpoint : request.endpoint = .listUsers (.ok query))
      (users : Except Users.RepositoryError (List (Users.User u))) :
      Ended api request
        (⟨.list (Users.ListUsersInput.from query).normalized.perPage
            (Users.ListUsersInput.from query).normalized.offset, users⟩ ::
          api.shown u request accessToken principal)
        (api.listResponse query users)

/-- The calls of a request that has entered as `r`. -/
inductive Entered (api : Api IpNet) (request : ApiRequest) (r : Users.Request) :
    List (Exchange (ApiReply u)) → Prop where
  | intro (accessToken : String) (principal : AuthenticatedPrincipal)
      (hauthorized : Authorized api request accessToken principal)
      (henter : api.enter (u := u) request.endpoint = .ret (.enters r)) :
      Entered api request r (api.shown u request accessToken principal)

/-- What has become of a request at the gate. -/
def Passed (api : Api IpNet) (request : ApiRequest) (trace : List (Exchange (ApiReply u))) :
    Passage ApiResponse Users.Request → Prop
  | .ends response => Ended api request trace response
  | .enters r => Entered api request r trace

variable {request : ApiRequest} {accessToken : String} {principal : AuthenticatedPrincipal}
  {trace : List (Exchange (ApiReply u))} {passage : Passage ApiResponse Users.Request}

variable (api) in
/-- A handler asks for a page of users, or comes to its use case without a call. -/
theorem enter_cases (endpoint : Endpoint) :
    (∃ passage, api.enter (u := u) endpoint = .ret passage) ∨
      ∃ query, endpoint = .listUsers (.ok query) := by
  cases endpoint with
  | createUser id now request => cases request <;> exact Or.inl ⟨_, rfl⟩
  | getUser id =>
    cases id with
    | error rejection => exact Or.inl ⟨_, rfl⟩
    | ok text =>
      simp only [enter]
      cases api.parseId text <;> exact Or.inl ⟨_, rfl⟩
  | listUsers query =>
    cases query with
    | error rejection => exact Or.inl ⟨_, rfl⟩
    | ok query => exact Or.inr ⟨query, rfl⟩
  | updateUser id request =>
    cases id with
    | error rejection => exact Or.inl ⟨_, rfl⟩
    | ok text =>
      cases request with
      | error rejection => exact Or.inl ⟨_, rfl⟩
      | ok request =>
        simp only [enter]
        cases api.parseId text <;> exact Or.inl ⟨_, rfl⟩
  | deleteUser id =>
    cases id with
    | error rejection => exact Or.inl ⟨_, rfl⟩
    | ok text =>
      simp only [enter]
      cases api.parseId text <;> exact Or.inl ⟨_, rfl⟩

/-- What a handler adds to the calls of an authorized request. -/
theorem enter_obeys (hauthorized : Authorized api request accessToken principal) :
    Obeys (fun _ _ => True) (Passed (u := u) api request) (api.shown u request accessToken principal)
      (api.enter request.endpoint) := by
  rcases enter_cases (u := u) api request.endpoint with ⟨passage, henter⟩ |
    ⟨query, hendpoint⟩
  · rw [henter]
    refine Program.obeys_ret ?_
    cases passage with
    | ends response => exact .rejected accessToken principal hauthorized response henter
    | enters r => exact .intro accessToken principal hauthorized henter
  · rw [hendpoint]
    refine Program.obeys_call trivial fun users => Program.obeys_ret ?_
    have hlisted := Ended.listed accessToken principal hauthorized query hendpoint users
    cases users <;> exact hlisted

/-- **Every run of the gate** ends as `Passed` says, whatever the limiter, the verifier and the
database answer. The cases are the layers, outermost first. -/
theorem pass_obeys (request : ApiRequest) :
    Obeys (fun _ _ => True) (Passed (u := u) api request) [] (api.pass request) := by
  refine Program.obeys_call trivial fun checked => ?_
  cases checked with
  | error e => exact Program.obeys_ret (.limited e)
  | ok _ =>
    cases htoken : bearerToken api.toStr request.authorization with
    | none => exact Program.obeys_ret (.anonymous htoken)
    | some accessToken =>
      refine Program.obeys_call trivial fun verified => ?_
      cases verified with
      | error e => exact Program.obeys_ret (.unverified accessToken e htoken)
      | ok principal =>
        simp only
        split
        · next hscope => exact enter_obeys ⟨htoken, hscope⟩
        · next hscope =>
          exact Program.obeys_ret (.forbidden accessToken principal htoken (by simpa using hscope))

/-- **What has become of a request** can be read off its calls at the gate. -/
theorem passed (h : (api.pass request).Follows trace (.ret passage)) :
    Passed api request trace passage :=
  Program.obeys_ret_iff.mp (h.obeys (pass_obeys request))

/-! ## The API over its stores

The requests run next to each other and are answered when they have returned, or when the
`TimeoutLayer` has had enough of them. A request whose client goes away is one that is not heard of
any more; the call it was waiting for may take effect like that of any other. -/

/-- The API over a database and a cache, which is empty. -/
def setup (api : Api IpNet) (u : CaseMapping) (cache : CacheAdapter) (database : Database) :
    Pool.Setup (EitherReply (Users.Reply u) (ApiReply u)) Stores ApiRequest (Fate × Surroundings)
      Users.UserId ApiResponse where
  program := api.handle
  handler w
    | .inl c => cache.answer w.1 c
    | .inr c => fun s => (answer w.2 c s, s)
  disturb id s := { s with entries := Function.update s.entries id none }
  init := ⟨database, fun _ => none⟩

/-- The API is the use cases behind the gate, over the same stores. -/
theorem setup_eq (cache : CacheAdapter) (database : Database) :
    api.setup u cache database =
      Pool.Gate.setup (api.gate u) (api.service.setupOver u cache database) := by
  unfold setup Pool.Gate.setup
  congr 1
  · exact funext handle_eq
  · funext w c
    cases c <;> rfl

/-- The API under its `TimeoutLayer`. -/
def server (api : Api IpNet) (u : CaseMapping) (cache : CacheAdapter) (database : Database) :
    Machine (Awaited (EitherReply (Users.Reply u) (ApiReply u)) Stores ApiRequest ApiResponse)
      (AwaitedInput ApiRequest (Fate × Surroundings) Users.UserId) :=
  Pool.awaited (api.setup u cache database)

end Api

/-- A thread of the API. -/
abbrev ApiThread (u : CaseMapping) :=
  Thread (EitherReply (Users.Reply u) (ApiReply u)) ApiRequest ApiResponse

/-- The API next to its stores. -/
abbrev ApiPool (u : CaseMapping) :=
  Pool (EitherReply (Users.Reply u) (ApiReply u)) Stores ApiRequest ApiResponse

/-- The API with the responses that it has sent. -/
abbrev ApiServer (u : CaseMapping) :=
  Awaited (EitherReply (Users.Reply u) (ApiReply u)) Stores ApiRequest ApiResponse

/-- The response to request `i`. -/
def Api.response (s : ApiServer u) (i : Nat) : Option ApiResponse :=
  (s.endings i).map timeoutLayer

/-- Request `i` was cut off, and this is the response of the `TimeoutLayer`. -/
structure TimedOut (s : ApiServer u) (i : Nat) (response : ApiResponse) : Prop where
  cut : s.endings i = some .cutOff
  response : response = Api.requestTimeout

/-- **A response** is the one of the `TimeoutLayer`, or the one its thread has returned. -/
theorem response_cases {api : Api IpNet} {cache : CacheAdapter} {database : Database}
    {s : ApiServer u} {i : Nat} {thread : ApiThread u} {response : ApiResponse}
    (h : (api.server u cache database).Reachable s) (hthread : s.pool.threads[i]? = some thread)
    (hresponse : Api.response s i = some response) :
    TimedOut s i response ∨
      s.endings i = some (.returned response) ∧ thread.rest = .ret response := by
  obtain ⟨ending, hending, rfl⟩ := Option.map_eq_some_iff.mp hresponse
  cases ending with
  | cutOff => exact Or.inl ⟨hending, rfl⟩
  | returned response =>
    obtain ⟨request, hreturned⟩ := Pool.returned_ending h hending
    cases hthread.symm.trans hreturned
    exact Or.inr ⟨hending, rfl⟩

/-- Thread `i` of the API has called no use case, or has entered, and calls and returns what thread
`j` of the use cases does. -/
inductive Guarded (api : Api IpNet) (s : ApiPool u) (t : ServicePool u) (i : Nat) :
    Option Nat → ApiThread u → Prop where
  | outside (thread : ApiThread u) (hcalls : Pool.poolExchanges i s.log = [])
      (hended : ∀ response, thread.rest = .ret response →
        Api.Ended api thread.request (Pool.gateExchanges i s.log) response) :
      Guarded api s t i none thread
  | inside (thread : ApiThread u) (j : Nat)
      (inner : Thread (Users.Reply u) Users.Request (Users.Response u))
      (hthread : t.threads[j]? = some inner)
      (hcalls : Pool.poolExchanges i s.log = Pool.exchanges j t.log)
      (hentered : Api.Entered api thread.request inner.request (Pool.gateExchanges i s.log))
      (hreturns : ∀ response, thread.rest = .ret response ↔
        ∃ told, inner.rest = .ret told ∧ api.leave thread.request told = response) :
      Guarded api s t i (some j) thread

/-- Each thread of the API is guarded. -/
theorem guarded_of_behind {cache : CacheAdapter} {database : Database} {s : ApiPool u}
    {t : ServicePool u} {door : Nat → Option Nat} {i : Nat} {thread : ApiThread u}
    (h : Pool.Behind (api.gate u) (api.service.setupOver u cache database) none door s t)
    (hthread : s.threads[i]? = some thread) : Guarded api s t i (door i) thread := by
  cases hdoor : door i with
  | none =>
    refine .outside thread (h.poolExchanges_of_none hdoor) fun response hret => ?_
    exact Api.passed (h.ended hthread hdoor hret)
  | some j =>
    -- a thread that has entered is one of the pool behind the gate
    obtain ⟨inner, hinner, hfollows, hreturns⟩ := h.inside hthread hdoor
    exact .inside thread j inner hinner (h.poolExchanges_of_some hdoor) (Api.passed hfollows)
      hreturns

def sampleApi : Api RateLimit.Ipv4Net where
  service := Users.sampleService
  rfc3339 _ := "1970-01-01T00:00:00+00:00"
  contains := RateLimit.Ipv4Net.contains
  toStr := RateLimit.visibleText
  extractor := RateLimit.privateNet

/-- A request with the token of an operator. -/
def operatorRequest (endpoint : Endpoint) : ApiRequest where
  connection := RateLimit.behindProxy []
  authorization := [RateLimit.bytesOf "Bearer valid-token"]
  endpoint := endpoint

def createSample : ApiRequest :=
  operatorRequest (.createUser Users.sampleId 1001 (.ok ⟨" A@b.C", "Al "⟩))

def deleteSample : ApiRequest :=
  operatorRequest (.deleteUser (.ok "67e55044-10b1-426f-9247-bb680e5fe0c8"))

/-- Every call succeeds, and the operator has the scopes. -/
def withScopes (scopes : Finset String) : Fate × Api.Surroundings :=
  (Users.sampleFate, ⟨.ok (), .ok ⟨"operator", scopes⟩, false⟩)

/-- Somebody registers a user, and somebody else may not delete the user. A third one may, and is
cut off at the DELETE, which takes effect. -/
def lateDelete : List (AwaitedInput ApiRequest (Fate × Api.Surroundings) Users.UserId) :=
  [.run (.call 2 (withScopes {})), .expire 2, .run (.call 2 (withScopes {"users:write"})),
    .run (.call 2 (withScopes {})), .run (.start deleteSample),
    .respond 0, .run (.call 0 (withScopes {})), .run (.call 0 (withScopes {})),
    .respond 1, .run (.call 1 (withScopes {"users:read"})), .run (.call 1 (withScopes {})),
    .run (.call 0 (withScopes {"users:write"})), .run (.call 0 (withScopes {})),
    .run (.start deleteSample), .run (.start createSample)]

theorem lateDelete_possible :
    ((sampleApi.server Text.asciiCase .noOp Users.emptyStores.database).run lateDelete).isSome := by
  decide

def lateDeleteState : ApiServer Text.asciiCase :=
  ((sampleApi.server Text.asciiCase .noOp Users.emptyStores.database).run lateDelete).get
    lateDelete_possible

end BaseSkeleton.Http
