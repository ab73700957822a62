import BaseSkeleton.Lib.Program
import BaseSkeleton.Users.Domain

/-!
# The ports of the user feature

`src/application/user/{ports,error,dto}.rs`: what the use cases ask of the repository and of the
cache, and the errors of both. A use case is a `Program` over these calls.
-/

namespace BaseSkeleton.Users

open Text (CaseMapping)

inductive RepositoryError where
  | duplicateEmail
  | unavailable
  | notFound
deriving DecidableEq

structure CacheError where
  message : String

inductive ApplicationError where
  | invalidInput (error : UserError)
  | notFound
  | emailAlreadyExists
  | dependencyUnavailable
deriving DecidableEq

/-- `From<RepositoryError>`. -/
def ApplicationError.fromRepository : RepositoryError → ApplicationError
  | .duplicateEmail => .emailAlreadyExists
  | .notFound => .notFound
  | .unavailable => .dependencyUnavailable

structure UserInput where
  email : String
  displayName : String

/-- The job that is stored with a new user. -/
structure UserCreationJob where
  jobType : String
  payload : Value
  maxAttempts : Nat

/-- The methods of `UserRepository`, `UserRegistrationRepository` and `UserCache`. -/
inductive Call (u : CaseMapping) where
  | findById (id : UserId)
  | update (id : UserId) (email : Email u) (displayName : DisplayName)
  | delete (id : UserId)
  | createWithJob (user : User u) (job : UserCreationJob)
  | cacheGet (id : UserId)
  | cacheSet (user : User u) (ttlSeconds : Nat)
  | cacheDelete (id : UserId)

/-- What a method returns. -/
@[reducible] def Reply (u : CaseMapping) : Call u → Type
  | .findById _ => Except RepositoryError (Option (User u))
  | .update _ _ _ => Except RepositoryError (User u)
  | .delete _ => Except RepositoryError Bool
  | .createWithJob _ _ => Except RepositoryError (User u)
  | .cacheGet _ => Except CacheError (Option (User u))
  | .cacheSet _ _ => Except CacheError Unit
  | .cacheDelete _ => Except CacheError Unit

/-- A use case that asks the ports and returns `α`. -/
abbrev UseCase (u : CaseMapping) (α : Type) := Program (Reply u) α

/-! ## The methods -/

variable {u : CaseMapping}

def UserRepository.findById (id : UserId) :
    UseCase u (Except RepositoryError (Option (User u))) :=
  .perform (Call.findById id)

def UserRepository.update (id : UserId) (email : Email u) (displayName : DisplayName) :
    UseCase u (Except RepositoryError (User u)) :=
  .perform (Call.update id email displayName)

def UserRepository.delete (id : UserId) : UseCase u (Except RepositoryError Bool) :=
  .perform (Call.delete id)

def UserRegistrationRepository.createWithJob (user : User u) (job : UserCreationJob) :
    UseCase u (Except RepositoryError (User u)) :=
  .perform (Call.createWithJob user job)

def UserCache.get (id : UserId) : UseCase u (Except CacheError (Option (User u))) :=
  .perform (Call.cacheGet id)

def UserCache.set (user : User u) (ttlSeconds : Nat) : UseCase u (Except CacheError Unit) :=
  .perform (Call.cacheSet user ttlSeconds)

def UserCache.delete (id : UserId) : UseCase u (Except CacheError Unit) :=
  .perform (Call.cacheDelete id)

end BaseSkeleton.Users
