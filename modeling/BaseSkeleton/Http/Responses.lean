import BaseSkeleton.Http.Gate

/-!
# What a response tells

The code of an error, or the envelope, says how far the request came: whether the limiter refused
it, whether its token was accepted, and whether a store was asked. A request that took too long is
told apart from all of these.

* `headers_enter` / `headers_list` / `headers_leave` — the response to what a request came to.
* `invalid_iff_silent` — a use case has called nothing exactly if it rejected its input.
* `responses_tell` — in every run, for every response.
-/

namespace BaseSkeleton.Http

open Program (Exchange)
open Text (CaseMapping)
open Users (ApplicationError CacheAdapter Database UserService)

variable {u : CaseMapping} {IpNet : Type} {api : Api IpNet}

/-- How far a request came. -/
inductive ResponseStage where
  /-- the limiter refused it -/
  | limited
  /-- it showed no token that was accepted -/
  | challenged
  /-- it did not come to a store -/
  | malformed
  | consulted
  /-- it was cut off, wherever it was -/
  | timedOut
deriving DecidableEq

/-- How far the request of a response came. -/
def ApiResponse.stage (response : ApiResponse) : ResponseStage :=
  match response.body with
  | .error code _ =>
    if code ∈ ["rate_limit_exceeded", "rate_limit_unavailable"] then .limited
    else if code ∈ ["unauthorized", "insufficient_scope", "authentication_unavailable"] then
      .challenged
    else if code ∈ ["user_not_found", "email_already_exists", "service_unavailable"] then
      .consulted
    else .malformed
  | .text _ => .malformed
  | .empty => if response.status = 408 then .timedOut else .consulted
  | _ => .consulted

/-- A stage is the one a request came to, which was refused by the limiter, or authorized, or came
to a store; or the request was cut off. -/
inductive Tells (cut refused authorized asked : Prop) : ResponseStage → Prop where
  | limited (hcut : ¬ cut) (hrefused : refused) (hauthorized : ¬ authorized) (hasked : ¬ asked) :
      Tells cut refused authorized asked .limited
  | challenged (hcut : ¬ cut) (hrefused : ¬ refused) (hauthorized : ¬ authorized)
      (hasked : ¬ asked) : Tells cut refused authorized asked .challenged
  | malformed (hcut : ¬ cut) (hrefused : ¬ refused) (hauthorized : authorized)
      (hasked : ¬ asked) : Tells cut refused authorized asked .malformed
  | consulted (hcut : ¬ cut) (hrefused : ¬ refused) (hauthorized : authorized) (hasked : asked) :
      Tells cut refused authorized asked .consulted
  | timedOut (hcut : cut) : Tells cut refused authorized asked .timedOut

/-- The limiter refused the request. -/
def Refused (trace : List (Exchange (ApiReply u))) : Prop :=
  ∃ key e, (⟨.checkKey key, .error e⟩ : Exchange (ApiReply u)) ∈ trace

/-- The token of the request was verified for a principal with the scope. -/
def Verified (api : Api IpNet) (request : ApiRequest) (trace : List (Exchange (ApiReply u))) :
    Prop :=
  ∃ accessToken principal, Api.Authorized api request accessToken principal ∧
    (⟨.verify accessToken, .ok principal⟩ : Exchange (ApiReply u)) ∈ trace

/-- A page of users was asked for. -/
def Listed (trace : List (Exchange (ApiReply u))) : Prop :=
  ∃ limit offset users, (⟨.list limit offset, users⟩ : Exchange (ApiReply u)) ∈ trace

/-- What a response carries besides its body. -/
structure Headers (response : ApiResponse) : Prop where
  challenge : response.wwwAuthenticate.isSome = true ↔ response.stage = .challenged
  retry : response.rateLimitRejection = true →
    response.status = 429 ∧ ∃ seconds, 1 ≤ seconds ∧
      response.retryAfter = some (toString seconds)

variable {request : ApiRequest} {accessToken : String} {principal : AuthenticatedPrincipal}

/-! ## What each response carries

A challenge is sent exactly by the gate, with its 401s and 403s, and a response that is counted as a
rejection says when to come again. One lemma for each place a response is made in. -/

/-- A response of a stage without a challenge carries none. -/
theorem Headers.plain {response : ApiResponse} (hstage : response.stage ≠ .challenged)
    (hchallenge : response.wwwAuthenticate = none)
    (hlimit : response.rateLimitRejection = false) : Headers response where
  challenge := by
    rw [hchallenge]
    simp [hstage]
  retry h := by
    rw [hlimit] at h
    cases h

/-- A response of the gate to a token carries its challenge. -/
theorem Headers.challenged {response : ApiResponse} {challenge : String}
    (hstage : response.stage = .challenged)
    (hchallenge : response.wwwAuthenticate = some challenge)
    (hlimit : response.rateLimitRejection = false) : Headers response where
  challenge := by
    rw [hchallenge, hstage]
    simp
  retry h := by
    rw [hlimit] at h
    cases h

/-- The limiter's response. -/
theorem headers_errorResponse (e : GovernorError) :
    (errorResponse e).stage = .limited ∧ Headers (errorResponse e) := by
  cases e with
  | tooManyRequests waitTime =>
    refine ⟨rfl, ⟨by simp [errorResponse, ApiResponse.stage], fun _ => ⟨rfl, _, ?_, rfl⟩⟩⟩
    have hle : (1 : UInt64) ≤ max waitTime 1 := by
      show (1 : UInt64) ≤ if waitTime ≤ 1 then 1 else waitTime
      split
      · exact UInt64.le_refl 1
      · next h => exact UInt64.le_of_lt (UInt64.not_le.mp h)
    exact UInt64.le_iff_toNat_le.mp hle
  | other => exact ⟨rfl, .plain (by decide) rfl rfl⟩

/-- The response to a token that is not accepted. -/
theorem headers_verificationError (e : AccessTokenVerificationError) :
    (Api.verificationError e).intoResponse.stage = .challenged ∧
      Headers (Api.verificationError e).intoResponse := by
  cases e with
  | invalidToken => exact ⟨rfl, .challenged rfl rfl rfl⟩
  | authenticationUnavailable => exact ⟨rfl, .challenged rfl rfl rfl⟩

/-- The stage of a response that carries nothing besides its body. -/
theorem headers_of_stage {response : ApiResponse} {stage : ResponseStage}
    (hstage : response.stage = stage) (hplain : (stage != .challenged) = true)
    (hchallenge : response.wwwAuthenticate = none)
    (hlimit : response.rateLimitRejection = false) :
    response.stage = stage ∧ Headers response :=
  ⟨hstage, .plain (by rw [hstage]; simpa using hplain) hchallenge hlimit⟩

/-- The path names no user in one way only. -/
theorem Api.parseId_eq_error {text : String} {e : ApiError} (h : api.parseId text = .error e) :
    e = .invalidId := by
  unfold Api.parseId at h
  split at h
  · cases h
  · cases h
    rfl

/-- The response to a path that names no user. -/
theorem headers_parseId {text : String} {e : ApiError} (h : api.parseId text = .error e) :
    e.intoResponse.stage = .malformed ∧ Headers e.intoResponse := by
  rw [Api.parseId_eq_error h]
  exact headers_of_stage rfl rfl rfl rfl

/-- The response of the `TimeoutLayer` is told apart by its status. -/
theorem headers_requestTimeout :
    Api.requestTimeout.stage = .timedOut ∧ Headers Api.requestTimeout :=
  headers_of_stage rfl rfl rfl rfl

/-- What a handler rejects itself. -/
theorem headers_enter {endpoint : Endpoint} {response : ApiResponse}
    (h : api.enter (u := u) endpoint = .ret (.ends response)) :
    response.stage = .malformed ∧ Headers response := by
  -- The extractors run in the order of the arguments. One that rejects the request ends it, and so
  -- does a path that is no id.
  cases endpoint with
  | createUser id now request =>
    cases request with
    | error rejection =>
      cases h
      exact headers_of_stage rfl rfl rfl rfl
    | ok request => cases h
  | getUser id =>
    cases id with
    | error rejection =>
      cases h
      exact headers_of_stage rfl rfl rfl rfl
    | ok text =>
      simp only [Api.enter] at h
      split at h
      · next e he =>
        cases h
        exact headers_parseId he
      · cases h
  | listUsers query =>
    cases query with
    | error rejection =>
      cases h
      exact headers_of_stage rfl rfl rfl rfl
    | ok query => cases h
  | updateUser id request =>
    cases id with
    | error rejection =>
      cases h
      exact headers_of_stage rfl rfl rfl rfl
    | ok text =>
      cases request with
      | error rejection =>
        cases h
        exact headers_of_stage rfl rfl rfl rfl
      | ok request =>
        simp only [Api.enter] at h
        split at h
        · next e he =>
          cases h
          exact headers_parseId he
        · cases h
  | deleteUser id =>
    cases id with
    | error rejection =>
      cases h
      exact headers_of_stage rfl rfl rfl rfl
    | ok text =>
      simp only [Api.enter] at h
      split at h
      · next e he =>
        cases h
        exact headers_parseId he
      · cases h

variable (api) in
/-- The response to a page, or to a database that fails. -/
theorem headers_list (query : Users.ListUsersQuery)
    (users : Except Users.RepositoryError (List (Users.User u))) :
    (api.listResponse query users).stage = .consulted ∧ Headers (api.listResponse query users) := by
  cases users with
  | error e => cases e <;> exact headers_of_stage rfl rfl rfl rfl
  | ok users => exact headers_of_stage rfl rfl rfl rfl

variable (api) in
/-- What a use case returns tells whether it rejected its input. -/
theorem headers_leave (request : ApiRequest) (told : Users.Response u) :
    ((∃ e, told = .error (.invalidInput e)) ∧ (api.leave request told).stage = .malformed ∨
      (∀ e, told ≠ .error (.invalidInput e)) ∧ (api.leave request told).stage = .consulted) ∧
      Headers (api.leave request told) := by
  have hconsulted : ∀ {told : Users.Response u}, (∀ e, told ≠ .error (.invalidInput e)) →
      (api.leave request told).stage = .consulted ∧ Headers (api.leave request told) →
      ((∃ e, told = .error (.invalidInput e)) ∧ (api.leave request told).stage = .malformed ∨
        (∀ e, told ≠ .error (.invalidInput e)) ∧ (api.leave request told).stage = .consulted) ∧
        Headers (api.leave request told) :=
    fun hvalid h => ⟨Or.inr ⟨hvalid, h.1⟩, h.2⟩
  cases told with
  | error e =>
    cases e with
    | invalidInput e =>
      have h : (api.leave (u := u) request (.error (.invalidInput e))).stage = .malformed ∧
          Headers (api.leave (u := u) request (.error (.invalidInput e))) :=
        headers_of_stage rfl rfl rfl rfl
      exact ⟨Or.inl ⟨⟨e, rfl⟩, h.1⟩, h.2⟩
    | notFound => exact hconsulted (by simp) (headers_of_stage rfl rfl rfl rfl)
    | emailAlreadyExists => exact hconsulted (by simp) (headers_of_stage rfl rfl rfl rfl)
    | dependencyUnavailable => exact hconsulted (by simp) (headers_of_stage rfl rfl rfl rfl)
  | ok found =>
    refine hconsulted (by simp) ?_
    cases found with
    | none => exact headers_of_stage rfl rfl rfl rfl
    | some user =>
      obtain ⟨connection, authorization, endpoint⟩ := request
      cases endpoint <;> exact headers_of_stage rfl rfl rfl rfl

/-! ## Whether a use case has come to a store

The envelope and the error alone do not say whether a use case has called anything; but it rejects
an input exactly if it has not, because the checks come first in the code. -/

/-- The repository does not read the input. -/
theorem not_refuses_invalid {e : Users.UserError} (exchange : Exchange (Users.Reply u)) :
    ¬ Users.Refuses (.invalidInput e) exchange := by
  have hrepository : ∀ e', ApplicationError.invalidInput e ≠ .fromRepository e' := by
    intro e'
    cases e' <;> simp [ApplicationError.fromRepository]
  obtain ⟨c, reply⟩ := exchange
  intro hrefuses
  cases c with
  | findById id =>
    rcases hrefuses with ⟨e', _, he⟩ | ⟨_, he⟩
    · exact hrepository e' he
    · cases he
  | update id email displayName =>
    obtain ⟨e', _, he⟩ := hrefuses
    exact hrepository e' he
  | delete id =>
    rcases hrefuses with ⟨e', _, he⟩ | ⟨_, he⟩
    · exact hrepository e' he
    · cases he
  | createWithJob user job =>
    obtain ⟨e', _, he⟩ := hrefuses
    exact hrepository e' he
  | _ => exact hrefuses

/-- A use case rejects its input, or calls. -/
theorem program_starts (service : UserService) (request : Users.Request) :
    (∃ e, service.program (u := u) request = .ret (.error (.invalidInput e))) ∨
      ∃ c k, service.program (u := u) request = .call c k := by
  have hasks : ∀ {c : Users.Call u} {conclude : Users.Reply u c → Users.Response u},
      Users.Asks (service.program request) c conclude →
      ∃ c k, service.program (u := u) request = .call c k := by
    rintro c conclude ⟨k, hprogram, -⟩
    exact ⟨c, k, hprogram⟩
  cases request with
  | create id now input =>
    cases hinput : input.parse u with
    | error e => exact Or.inl ⟨e, Users.createUser_invalid hinput⟩
    | ok fields => exact Or.inr (hasks (Users.createUser_asks hinput))
  | get id =>
    obtain ⟨k, hprogram, -⟩ := Users.getUser_asks (u := u) service id
    exact Or.inr ⟨_, k, hprogram⟩
  | update id input =>
    cases hinput : input.parse u with
    | error e => exact Or.inl ⟨e, Users.updateUser_invalid hinput⟩
    | ok fields => exact Or.inr (hasks (Users.updateUser_asks hinput))
  | delete id => exact Or.inr (hasks Users.deleteUser_asks)

/-- A use case that has returned has called nothing if and only if it rejected its input. -/
theorem invalid_iff_silent {service : UserService} {request : Users.Request}
    {trace : List (Exchange (Users.Reply u))} {told : Users.Response u}
    (h : (service.program request).Follows trace (.ret told)) :
    (∃ e, told = .error (.invalidInput e)) ↔ trace = [] := by
  constructor
  · rintro ⟨e, rfl⟩
    have hpromise := Program.obeys_ret_iff.mp (h.obeys (Users.program_obeys service request))
    rcases hpromise.refused _ rfl with ⟨_, _, htrace⟩ | ⟨e', _, hrefuses⟩
    · exact htrace
    · -- the repository has no such error
      exact absurd hrefuses (not_refuses_invalid _)
  · rintro rfl
    rcases program_starts (u := u) service request with ⟨e, hprogram⟩ | ⟨c, k, hprogram⟩
    · rw [hprogram] at h
      cases h.of_ret.2
      exact ⟨e, rfl⟩
    · rw [hprogram] at h
      rcases h.first with ⟨_, hret⟩ | ⟨r, hmem⟩
      · cases hret
      · cases hmem

/-! ## What a request has shown

The calls of the gate and the stage of the response are two readings of the same run. Here they are
compared, one way to end after the other. -/

variable {request : ApiRequest} {accessToken : String} {principal : AuthenticatedPrincipal}
  {trace : List (Exchange (ApiReply u))}

/-- Who was let through was not over the limit. -/
theorem not_refused_shown : ¬ Refused (api.shown u request accessToken principal) := by
  simp [Refused, Api.shown]

/-- An authorized request has shown a verified token. -/
theorem verified_shown (h : Api.Authorized api request accessToken principal) :
    Verified api request (api.shown u request accessToken principal) :=
  ⟨accessToken, principal, h, List.mem_cons_self⟩

/-- Coming through the gate reads no page. -/
theorem not_listed_shown : ¬ Listed (api.shown u request accessToken principal) := by
  simp [Listed, Api.shown]

/-- The scope of a principal is looked at once. -/
theorem not_verified_shown (hscope : principal.hasScope request.endpoint.scope = false) :
    ¬ Verified api request (api.shown u request accessToken principal) := by
  rintro ⟨accessToken', principal', hauthorized, hmem⟩
  rcases List.mem_cons.mp hmem with heq | hmem
  · cases heq
    rw [hauthorized.scope] at hscope
    cases hscope
  · cases List.mem_singleton.mp hmem

/-- The response to a request that did not enter. -/
theorem tells_ended {cut : Prop} (hcut : ¬ cut) {response : ApiResponse}
    (h : Api.Ended (u := u) api request trace response) :
    Tells cut (Refused trace) (Verified api request trace) (Listed trace) response.stage ∧
      Headers response := by
  cases h with
  | limited e =>
    obtain ⟨hstage, hheaders⟩ := headers_errorResponse e
    rw [hstage]
    exact ⟨.limited hcut ⟨_, e, List.mem_cons_self⟩ (by simp [Verified]) (by simp [Listed]), hheaders⟩
  | anonymous =>
    exact ⟨.challenged hcut (by simp [Refused]) (by simp [Verified]) (by simp [Listed]),
      .challenged rfl rfl rfl⟩
  | unverified accessToken e =>
    obtain ⟨hstage, hheaders⟩ := headers_verificationError e
    rw [hstage]
    exact ⟨.challenged hcut (by simp [Refused]) (by simp [Verified]) (by simp [Listed]), hheaders⟩
  | forbidden accessToken principal _ hscope =>
    exact ⟨.challenged hcut not_refused_shown (not_verified_shown hscope) not_listed_shown,
      .challenged rfl rfl rfl⟩
  | rejected accessToken principal hauthorized response henter =>
    obtain ⟨hstage, hheaders⟩ := headers_enter henter
    rw [hstage]
    exact ⟨.malformed hcut not_refused_shown (verified_shown hauthorized) not_listed_shown,
      hheaders⟩
  | listed accessToken principal hauthorized query hendpoint users =>
    obtain ⟨hstage, hheaders⟩ := headers_list api query users
    rw [hstage]
    refine ⟨.consulted hcut (by simp [Refused, Api.shown]) ?_ ⟨_, _, _, List.mem_cons_self⟩,
      hheaders⟩
    exact ⟨accessToken, principal, hauthorized, List.mem_cons_of_mem _ List.mem_cons_self⟩

/-! ## Every run

A thread that was cut off may be anywhere: what it has shown is in its calls, and the response says
nothing of it. Every other response is that of a thread that has returned. -/

/-- **A response tells how far the request came.** In every run of the API next to any others, over
either cache and whatever is answered, the code of the error in a response, or its envelope, is the
one of what became of its request: that the limiter refused it, that no token of a principal with
the scope was verified, that it was turned down without asking a store, or what the stores said. A
request that was cut off, wherever it was, is told with a 408 that has no body. A challenge is shown
exactly with a request that was not authorized, and a limit with the seconds to wait, one at
least. -/
theorem responses_tell (api : Api IpNet) (cache : CacheAdapter) (database : Database)
    {s : ApiServer u} (h : (api.server u cache database).Reachable s) {i : Nat}
    {thread : ApiThread u} (hthread : s.pool.threads[i]? = some thread) {response : ApiResponse}
    (hresponse : Api.response s i = some response) :
    Tells (s.endings i = some .cutOff) (Refused (Pool.gateExchanges i s.pool.log))
        (Verified api thread.request (Pool.gateExchanges i s.pool.log))
        (Pool.poolExchanges i s.pool.log ≠ [] ∨ Listed (Pool.gateExchanges i s.pool.log))
        response.stage ∧
      Headers response := by
  rcases response_cases h hthread hresponse with ⟨hcut, rfl⟩ | ⟨hending, hreturns⟩
  · obtain ⟨hstage, hheaders⟩ := headers_requestTimeout
    rw [hstage]
    exact ⟨.timedOut hcut, hheaders⟩
  have huncut : ¬ s.endings i = some .cutOff := by
    rw [hending]
    simp
  have hpool := Pool.reachable_pool h
  rw [Api.setup_eq] at hpool
  obtain ⟨door, t, hreach, hbehind⟩ := Pool.reachable_behind hpool
  have hguarded := guarded_of_behind hbehind hthread
  generalize door i = j at hguarded
  cases hguarded with
  | outside _ hcalls hended =>
    rw [hcalls]
    simpa using tells_ended huncut (hended response hreturns)
  | inside _ j inner hinner hcalls hentered hleaves =>
    obtain ⟨told, htold, rfl⟩ := (hleaves response).mp hreturns
    have hfollows := (Pool.reachable_inv hreach).follows j inner hinner
    rw [htold] at hfollows
    obtain ⟨hstage, hheaders⟩ := headers_leave api thread.request told
    refine ⟨?_, hheaders⟩
    rw [hcalls]
    generalize Pool.gateExchanges i s.pool.log = trace at hentered
    obtain ⟨accessToken, principal, hauthorized, henter⟩ := hentered
    -- a use case that calls nothing is one that rejects its input
    rcases hstage with ⟨hinvalid, hstage⟩ | ⟨hvalid, hstage⟩
    · rw [hstage, (invalid_iff_silent hfollows).mp hinvalid]
      refine .malformed huncut not_refused_shown (verified_shown hauthorized) ?_
      simpa using not_listed_shown
    · rw [hstage]
      refine .consulted huncut not_refused_shown (verified_shown hauthorized)
        (Or.inl fun hsilent => ?_)
      obtain ⟨e, he⟩ := (invalid_iff_silent hfollows).mpr hsilent
      exact hvalid e he

/-- The second request of the sample run has no scope, and the third was cut off. -/
theorem lateDelete_responses :
    lateDeleteState.pool.threads[1]? = some
        ⟨deleteSample, .ret (ApiError.insufficientScope "users:write").intoResponse⟩ ∧
      Api.response lateDeleteState 1 =
        some (ApiError.insufficientScope "users:write").intoResponse ∧
      (lateDeleteState.pool.threads[2]?).map Thread.request = some deleteSample ∧
      Api.response lateDeleteState 2 = some Api.requestTimeout :=
  ⟨rfl, rfl, rfl, rfl⟩

theorem responses_tell_late :
    Tells (lateDeleteState.endings 1 = some .cutOff)
      (Refused (Pool.gateExchanges 1 lateDeleteState.pool.log))
      (Verified sampleApi deleteSample (Pool.gateExchanges 1 lateDeleteState.pool.log))
      (Pool.poolExchanges 1 lateDeleteState.pool.log ≠ [] ∨
        Listed (Pool.gateExchanges 1 lateDeleteState.pool.log)) .challenged :=
  (responses_tell sampleApi .noOp Users.emptyStores.database
    (Machine.reachable_get lateDelete_possible) lateDelete_responses.1 lateDelete_responses.2.1).1

end BaseSkeleton.Http
