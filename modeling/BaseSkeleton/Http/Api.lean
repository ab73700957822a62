import BaseSkeleton.Auth
import BaseSkeleton.Http.BearerToken
import BaseSkeleton.Lib.Awaited
import BaseSkeleton.Lib.Gated
import BaseSkeleton.Users.Paging
import BaseSkeleton.Users.Service

/-!
# The HTTP API

`src/presentation/http`: the errors of the API, the handlers of the users, and the layers of
`build_router` a request goes through on its way to them. The rate limiter and the verifier of
access tokens are called, like the ports of the use cases; what `axum` makes of path, query and body
is part of a request.

* `Api.handle` — what is done with a request, one call after the other.
* `Api.timeoutLayer` — what is answered, if it is done in time or not.
-/

/-- What `Display` prints. -/
def BaseSkeleton.Users.ApplicationError.message : BaseSkeleton.Users.ApplicationError → String
  | .invalidInput error => error.message
  | .notFound => "user was not found"
  | .emailAlreadyExists => "a user with this email already exists"
  | .dependencyUnavailable => "a required dependency is unavailable"

namespace BaseSkeleton.Http

open RateLimit (HeaderValue IpAddr TrustedProxyIpKeyExtractor)
open Text (CaseMapping)
open Users (UserId User UserInput UserService UserResponse UserListEnvelope ListUsersQuery
  ListUsersInput ApplicationError RepositoryError UuidText)

/-! ## Responses

What a client sees, as far as the handlers and the layers make it: the status, the headers they set,
and the body. -/

inductive Body where
  /-- `UserEnvelope` -/
  | user (data : UserResponse)
  | users (envelope : UserListEnvelope)
  /-- `ErrorEnvelope` -/
  | error (code message : String)
  /-- what `axum` writes of a path it rejects -/
  | text (text : String)
  | empty

structure ApiResponse where
  status : UInt16
  body : Body
  wwwAuthenticate : Option String := none
  retryAfter : Option String := none
  /-- `RateLimitRejection` is among the extensions -/
  rateLimitRejection : Bool := false

/-! ## Errors

Each error has its status, its code and its message, and those of the gate have a challenge. The
constructors are those of `error.rs`; a response to an error is made by `intoResponse`, but for
those that `axum` and the limiter make themselves. -/

structure ApiError where
  status : UInt16
  code : String
  message : String
  wwwAuthenticate : Option String

/-- The rejections of `axum`: a status and a text. -/
structure Rejection where
  status : UInt16
  bodyText : String

namespace ApiError

/-- An error that carries no `WWW-Authenticate` challenge. -/
def withoutChallenge (status : UInt16) (code message : String) : ApiError :=
  ⟨status, code, message, none⟩

def authenticationError (status : UInt16) (code message challenge : String) : ApiError :=
  ⟨status, code, message, some challenge⟩

def invalidId : ApiError :=
  withoutChallenge 400 "invalid_user_id" "user id must be a valid UUID"

def unauthorized : ApiError :=
  authenticationError 401 "unauthorized" "a Bearer access token is required" "Bearer"

def invalidToken : ApiError :=
  authenticationError 401 "unauthorized" "the Bearer access token is invalid"
    "Bearer error=\"invalid_token\""

def insufficientScope (scope : String) : ApiError :=
  authenticationError 403 "insufficient_scope"
    "the access token does not grant the required scope"
    ("Bearer error=\"insufficient_scope\", scope=\"" ++ scope ++ "\"")

def authenticationUnavailable : ApiError :=
  authenticationError 503 "authentication_unavailable"
    "access token verification is temporarily unavailable" "Bearer"

/-- `From<JsonRejection>`. -/
def fromJsonRejection (error : Rejection) : ApiError :=
  withoutChallenge error.status "invalid_json" error.bodyText

/-- `From<QueryRejection>`. -/
def fromQueryRejection (error : Rejection) : ApiError :=
  withoutChallenge 400 "invalid_query" error.bodyText

/-- `From<ApplicationError>`. -/
def fromApplicationError (error : ApplicationError) : ApiError :=
  let (status, code) : UInt16 × String :=
    match error with
    | .invalidInput _ => (422, "validation_failed")
    | .notFound => (404, "user_not_found")
    | .emailAlreadyExists => (409, "email_already_exists")
    | .dependencyUnavailable => (503, "service_unavailable")
  withoutChallenge status code error.message

def intoResponse (error : ApiError) : ApiResponse where
  status := error.status
  body := .error error.code error.message
  wwwAuthenticate := error.wwwAuthenticate

end ApiError

/-- `tower_governor::GovernorError`. -/
inductive GovernorError where
  | tooManyRequests (waitTime : UInt64)
  | other

/-- `error_response` of `rate_limit.rs`. -/
def errorResponse : GovernorError → ApiResponse
  | .tooManyRequests waitTime =>
    { status := 429
      body := .error "rate_limit_exceeded" "request rate limit exceeded"
      retryAfter := some (toString (max waitTime 1).toNat)
      rateLimitRejection := true }
  | .other =>
    { status := 500
      body := .error "rate_limit_unavailable" "request rate limiter is unavailable" }

/-- `IntoResponse` of a `Result`. -/
def intoResponse : Except ApiError ApiResponse → ApiResponse
  | .ok response => response
  | .error error => error.intoResponse

/-! ## Requests

What `axum` hands to the handlers: the header lines, the endpoint, and path, query and body as its
extractors have read them, or rejected them. -/

/-- `CreateUserRequest` and `UpdateUserRequest`. -/
structure UserRequest where
  email : String
  displayName : String

/-- `From<UserRequest> for UserInput`. -/
def UserRequest.into (request : UserRequest) : UserInput :=
  ⟨request.email, request.displayName⟩

/-- The routes of the users, with what the extractors of their handlers read. -/
inductive Endpoint where
  /-- with the identifier and the time the use case draws -/
  | createUser (id : UserId) (now : Instant) (request : Except Rejection UserRequest)
  | getUser (id : Except Rejection String)
  | listUsers (query : Except Rejection ListUsersQuery)
  | updateUser (id : Except Rejection String) (request : Except Rejection UserRequest)
  | deleteUser (id : Except Rejection String)

/-- The scope `build_router` requires. -/
def Endpoint.scope : Endpoint → String
  | .getUser _ => "users:read"
  | .listUsers _ => "users:read"
  | .createUser _ _ _ => "users:write"
  | .updateUser _ _ => "users:write"
  | .deleteUser _ => "users:write"

/-- A request whose path and method have a route of the users. -/
structure ApiRequest where
  /-- what the rate limiter reads -/
  connection : RateLimit.Request
  /-- the values of the `Authorization` lines -/
  authorization : List HeaderValue
  endpoint : Endpoint

/-! ## Calls

The handlers call the use cases, and these their ports. Two calls are made by the layers, one by the
list. -/

/-- What is called besides the use cases. -/
inductive ApiCall where
  /-- `check_key` of the limiter -/
  | checkKey (key : IpAddr)
  /-- `AccessTokenVerifier::verify` -/
  | verify (accessToken : String)
  /-- `UserRepository::list` -/
  | list (limit : UInt32) (offset : UInt64)

@[reducible] def ApiReply (u : CaseMapping) : ApiCall → Type
  | .checkKey _ => Except GovernorError Unit
  | .verify _ => Except AccessTokenVerificationError AuthenticatedPrincipal
  | .list _ _ => Except RepositoryError (List (User u))

/-- Code that calls the ports of the use cases, and more. -/
abbrev Handler (u : CaseMapping) (α : Type) :=
  Program (EitherReply (Users.Reply u) (ApiReply u)) α

variable {u : CaseMapping}

/-- `ListUsersUseCase::execute`. -/
def listUsersUseCase (input : ListUsersInput) :
    Program (ApiReply u) (Except ApplicationError (List (User u))) := do
  let input := input.normalized
  let users ← Program.perform (R := ApiReply u) (.list input.perPage input.offset)
  return users.mapError .fromRepository

/-- What the router is built of. -/
structure Api (IpNet : Type) where
  service : UserService
  /-- `DateTime::to_rfc3339` -/
  rfc3339 : Instant → String
  contains : IpNet → IpAddr → Bool
  toStr : HeaderValue → Option String
  extractor : TrustedProxyIpKeyExtractor IpNet

namespace Api

variable {IpNet : Type} (api : Api IpNet)

/-! ## The handlers

One for each route, as `users.rs` has them; the type of a handler says what it may call. -/

/-- `Json(UserEnvelope { data: user.into() })`. -/
def userEnvelope (status : UInt16) (user : User u) : ApiResponse where
  status := status
  body := .user (.from api.service.uuid api.rfc3339 user)

/-- `Json(UserListEnvelope { .. })`. -/
def userListEnvelope (input : ListUsersInput) (users : List (User u)) : ApiResponse where
  status := 200
  body := .users ⟨users.map (.from api.service.uuid api.rfc3339), input.page, input.perPage⟩

/-- `parse_id`. -/
def parseId (value : String) : Except ApiError UserId :=
  match api.service.uuid.parseStr value with
  | some id => .ok id
  | none => .error .invalidId

def createUser (id : UserId) (now : Instant) (request : Except Rejection UserRequest) :
    Handler u (Except ApiError ApiResponse) :=
  match request with
  | .error rejection => return .error (.fromJsonRejection rejection)
  | .ok request => do
    match ← (api.service.createUser.execute api.service.uuid id now request.into).inside with
    | .error e => return .error (.fromApplicationError e)
    | .ok user => return .ok (api.userEnvelope 201 user)

def getUser (id : String) : Handler u (Except ApiError ApiResponse) :=
  match api.parseId id with
  | .error e => return .error e
  | .ok id => do
    match ← (api.service.getUser.execute id).inside with
    | .error e => return .error (.fromApplicationError e)
    | .ok user => return .ok (api.userEnvelope 200 user)

def listUsers (query : Except Rejection ListUsersQuery) :
    Handler u (Except ApiError ApiResponse) :=
  match query with
  | .error rejection => return .error (.fromQueryRejection rejection)
  | .ok query => do
    let input := ListUsersInput.from query
    match ← (listUsersUseCase input).outside with
    | .error e => return .error (.fromApplicationError e)
    | .ok users => return .ok (api.userListEnvelope input users)

def updateUser (id : String) (request : Except Rejection UserRequest) :
    Handler u (Except ApiError ApiResponse) :=
  match request with
  | .error rejection => return .error (.fromJsonRejection rejection)
  | .ok request =>
    match api.parseId id with
    | .error e => return .error e
    | .ok id => do
      match ← (api.service.updateUser.execute id request.into).inside with
      | .error e => return .error (.fromApplicationError e)
      | .ok user => return .ok (api.userEnvelope 200 user)

def deleteUser (id : String) : Handler u (Except ApiError ApiResponse) :=
  match api.parseId id with
  | .error e => return .error e
  | .ok id => do
    match ← (Users.DeleteUserUseCase.execute id).inside with
    | .error e => return .error (.fromApplicationError e)
    | .ok _ => return .ok { status := 204, body := .empty }

/-- The extractor `Path`, which answers a path it rejects itself. -/
def withPath (id : Except Rejection String)
    (handler : String → Handler u (Except ApiError ApiResponse)) : Handler u ApiResponse :=
  match id with
  | .error rejection => return { status := rejection.status, body := .text rejection.bodyText }
  | .ok id => return intoResponse (← handler id)

/-- The route of an endpoint. -/
def route : Endpoint → Handler u ApiResponse
  | .createUser id now request => return intoResponse (← api.createUser id now request)
  | .getUser id => withPath id api.getUser
  | .listUsers query => return intoResponse (← api.listUsers query)
  | .updateUser id request => withPath id fun id => api.updateUser id request
  | .deleteUser id => withPath id api.deleteUser

/-! ## The layers

From the outside in: the `TimeoutLayer`, the rate limiter, then the scope of the route, and the
handler. -/

def requireScope (scope : String) (authorization : List HeaderValue)
    (next : Handler u ApiResponse) : Handler u (Except ApiError ApiResponse) :=
  match bearerToken api.toStr authorization with
  | none => return .error .unauthorized
  | some accessToken => do
    match ← (Program.perform (R := ApiReply u) (.verify accessToken)).outside with
    | .error .invalidToken => return .error .invalidToken
    | .error .authenticationUnavailable => return .error .authenticationUnavailable
    | .ok principal =>
      if principal.hasScope scope then return .ok (← next)
      else return .error (.insufficientScope scope)

/-- `GovernorLayer` with its key extractor and error handler. -/
def governor (connection : RateLimit.Request) (next : Handler u ApiResponse) :
    Handler u ApiResponse := do
  let key := api.extractor.extract api.contains api.toStr connection
  match ← (Program.perform (R := ApiReply u) (.checkKey key)).outside with
  | .error e => return errorResponse e
  | .ok () => next

/-- What `build_router` does with a request below the `TimeoutLayer`. -/
def handle (request : ApiRequest) : Handler u ApiResponse :=
  api.governor request.connection do
    return intoResponse (← api.requireScope request.endpoint.scope request.authorization
      (api.route request.endpoint))

/-- `StatusCode::REQUEST_TIMEOUT`, with no body. -/
def requestTimeout : ApiResponse where
  status := 408
  body := .empty

/-- `TimeoutLayer`: a request that has not been answered in time is dropped, wherever it is, and the
layer answers in its place. -/
def timeoutLayer : Ending ApiResponse → ApiResponse
  | .returned response => response
  | .cutOff => requestTimeout

end Api

end BaseSkeleton.Http
