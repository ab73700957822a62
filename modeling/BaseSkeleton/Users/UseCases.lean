import BaseSkeleton.Job.Model
import BaseSkeleton.Users.Ports

/-!
# The use cases

`src/application/user/use_cases`: what a request does, as a `Program` over the calls of the two
ports. What `UserId::new()` and `Utc::now()` draw are arguments; the `uuid` crate is a parameter.
-/

namespace BaseSkeleton.Users

open Text (CaseMapping)

/-- `Uuid::to_string` and `Uuid::parse_str`. -/
structure UuidText where
  toString : Uuid → String
  parseStr : String → Option Uuid

variable {u : CaseMapping}

structure CreateUserUseCase where
  cacheTtlSeconds : Nat
  jobMaxAttempts : Nat

/-- The job that is stored with the user `id`. -/
def CreateUserUseCase.job (useCase : CreateUserUseCase) (uuid : UuidText) (id : UserId) :
    UserCreationJob where
  jobType := Job.userCreatedJob
  payload := .object [("user_id", .string (uuid.toString id))]
  maxAttempts := useCase.jobMaxAttempts

def CreateUserUseCase.execute (useCase : CreateUserUseCase) (uuid : UuidText) (id : UserId)
    (now : Instant) (input : UserInput) : UseCase u (Except ApplicationError (User u)) :=
  match Email.parse input.email with
  | .error e => return .error (.invalidInput e)
  | .ok email =>
    match DisplayName.parse input.displayName with
    | .error e => return .error (.invalidInput e)
    | .ok displayName => do
      let user := User.new id now email displayName
      match ← UserRegistrationRepository.createWithJob user (useCase.job uuid user.id) with
      | .error e => return .error (.fromRepository e)
      | .ok created =>
        let _ ← UserCache.set created useCase.cacheTtlSeconds
        return .ok created

structure GetUserUseCase where
  cacheTtlSeconds : Nat

/-- What `execute` does when the cache has no answer. -/
def GetUserUseCase.load (useCase : GetUserUseCase) (id : UserId) :
    UseCase u (Except ApplicationError (User u)) := do
  match ← UserRepository.findById id with
  | .error e => return .error (.fromRepository e)
  | .ok none => return .error .notFound
  | .ok (some user) =>
    let _ ← UserCache.set user useCase.cacheTtlSeconds
    return .ok user

def GetUserUseCase.execute (useCase : GetUserUseCase) (id : UserId) :
    UseCase u (Except ApplicationError (User u)) := do
  match ← UserCache.get id with
  | .ok (some user) => return .ok user
  | _ => useCase.load id

structure UpdateUserUseCase where
  cacheTtlSeconds : Nat

def UpdateUserUseCase.execute (useCase : UpdateUserUseCase) (id : UserId) (input : UserInput) :
    UseCase u (Except ApplicationError (User u)) :=
  match Email.parse input.email with
  | .error e => return .error (.invalidInput e)
  | .ok email =>
    match DisplayName.parse input.displayName with
    | .error e => return .error (.invalidInput e)
    | .ok displayName => do
      match ← UserRepository.update id email displayName with
      | .error e => return .error (.fromRepository e)
      | .ok updated =>
        match ← UserCache.set updated useCase.cacheTtlSeconds with
        | .ok () => return .ok updated
        | .error _ =>
          let _ ← UserCache.delete updated.id
          return .ok updated

def DeleteUserUseCase.execute (id : UserId) : UseCase u (Except ApplicationError Unit) := do
  match ← UserRepository.delete id with
  | .error e => return .error (.fromRepository e)
  | .ok false => return .error .notFound
  | .ok true =>
    let _ ← UserCache.delete id
    return .ok ()

end BaseSkeleton.Users
