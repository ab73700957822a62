import BaseSkeleton.Users.Repository

/-!
# The user cache, and what answers the use cases

`src/infrastructure/cache/redis/user_cache.rs`: an entry is the JSON record of a user, here a
`CachedUser`, under the key `users:{id}`, here the `id`. A cache call that reports an error may
have been applied or not.

`answer` is what every call of a use case finds in the database and in the cache; its
`Circumstances` are what the outcome depends on besides.
-/

namespace BaseSkeleton.Users

open Text (CaseMapping)

/-! ## The cache -/

structure CachedUser where
  id : Uuid
  email : String
  displayName : String
  createdAt : Instant
  updatedAt : Instant
deriving DecidableEq

variable {u : CaseMapping}

/-- `From<&User> for CachedUser`. -/
def CachedUser.from (user : User u) : CachedUser where
  id := user.id
  email := user.email.asStr
  displayName := user.displayName.asStr
  createdAt := user.createdAt
  updatedAt := user.updatedAt

/-- `TryFrom<CachedUser> for User`. -/
def CachedUser.tryInto (u : CaseMapping) (value : CachedUser) : Except CacheError (User u) := do
  let email ← (Email.parse value.email).mapError fun e => ⟨e.message⟩
  let displayName ← (DisplayName.parse value.displayName).mapError fun e => ⟨e.message⟩
  return ⟨value.id, email, displayName, value.createdAt, value.updatedAt⟩

@[simp] theorem CachedUser.tryInto_from (user : User u) :
    (CachedUser.from user).tryInto u = .ok user := by
  unfold CachedUser.tryInto CachedUser.from
  simp only [Email.parse_asStr, DisplayName.parse_asStr]
  rfl

/-- The entry under each `users:{id}`. -/
abbrev Entries := Uuid → Option CachedUser

/-- How a cache call ends. -/
inductive CacheOutcome where
  | done
  /-- an error or a timeout is reported; the call may have been applied -/
  | failed (message : String) (applied : Bool)
deriving DecidableEq

namespace RedisUserCache

def get (u : CaseMapping) (outcome : CacheOutcome) (id : UserId) (entries : Entries) :
    Except CacheError (Option (User u)) :=
  match outcome with
  | .failed message _ => .error ⟨message⟩
  | .done =>
    match entries id with
    | none => .ok none
    | some entry => (entry.tryInto u).map some

/-- A write that may be reported as failed, and may be applied then. -/
def write (outcome : CacheOutcome) (id : UserId) (entry : Option CachedUser) (entries : Entries) :
    Except CacheError Unit × Entries :=
  match outcome with
  | .done => (.ok (), Function.update entries id entry)
  | .failed message true => (.error ⟨message⟩, Function.update entries id entry)
  | .failed message false => (.error ⟨message⟩, entries)

def set (outcome : CacheOutcome) (user : User u) (entries : Entries) :
    Except CacheError Unit × Entries :=
  write outcome user.id (some (.from user)) entries

def delete (outcome : CacheOutcome) (id : UserId) (entries : Entries) :
    Except CacheError Unit × Entries :=
  write outcome id none entries

end RedisUserCache

/-! ## The answers

The adapters under the ports: each call is answered by the table or by the cache. -/

structure Stores where
  database : Database
  entries : Entries

/-- What the outcome of a call depends on besides the stores. -/
structure Circumstances where
  /-- a single statement fails -/
  queryFails : Bool
  /-- `Utc::now()` of an update -/
  now : Instant
  transaction : Transaction
  cache : CacheOutcome

/-- A call finds the stores in some circumstances, and leaves them behind. -/
def answer (w : Circumstances) : (c : Call u) → Stores → Reply u c × Stores
  | .findById id, s => (PostgresUserRepository.findById u w.queryFails id s.database.users, s)
  | .update id email displayName, s =>
    let (reply, users) :=
      PostgresUserRepository.update w.queryFails w.now id email displayName s.database.users
    (reply, { s with database := { s.database with users := users } })
  | .delete id, s =>
    let (reply, users) := PostgresUserRepository.delete w.queryFails id s.database.users
    (reply, { s with database := { s.database with users := users } })
  | .createWithJob user job, s =>
    let (reply, database) :=
      PostgresUserRepository.createWithJob w.transaction user job s.database
    (reply, { s with database := database })
  | .cacheGet id, s => (RedisUserCache.get u w.cache id s.entries, s)
  | .cacheSet user _, s =>
    let (reply, entries) := RedisUserCache.set w.cache user s.entries
    (reply, { s with entries := entries })
  | .cacheDelete id, s =>
    let (reply, entries) := RedisUserCache.delete w.cache id s.entries
    (reply, { s with entries := entries })

end BaseSkeleton.Users
