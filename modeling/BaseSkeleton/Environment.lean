import BaseSkeleton.Config
import BaseSkeleton.RateLimit.Extractor

/-!
# `Config::from_env`

The settings of the service, read from the environment: `src/config/mod.rs` with the parts of the
standard library it parses them with. `usize` is as wide as `u64`. The prefixes of
`TRUSTED_PROXY_CIDRS` are read by `ipnet`, which is not part of the repository; the scope of an IPv6
socket address is read and dropped.

* `positiveOr_eq_ok` — when a numeric setting is accepted.
* `Config.fromEnv_accepted` — what is known of a configuration that was accepted.
-/

namespace BaseSkeleton

/-! ## The environment -/

/-- `std::env::VarError`; a value that is not Unicode is reported by its `Debug` text. -/
inductive VarError where
  | notPresent
  | notUnicode (debug : String)

def VarError.toText : VarError → String
  | notPresent => "environment variable not found"
  | notUnicode debug => "environment variable was not valid unicode: " ++ debug

/-- `std::env::var`. -/
abbrev Environment := String → Except VarError String

/-! ## Numbers

`str::parse` of the unsigned types: an optional plus and decimal digits, checked against the bound
of the type digit by digit. -/

/-- `std::num::ParseIntError` of an unsigned type. -/
inductive ParseIntError where
  | empty
  | invalidDigit
  | posOverflow

def ParseIntError.toText : ParseIntError → String
  | empty => "cannot parse integer from empty string"
  | invalidDigit => "invalid digit found in string"
  | posOverflow => "number too large to fit in target type"

/-- One digit of `from_str_radix`, for a type with `bound` values. -/
def pushDigit (bound value : Nat) (c : Char) : Except ParseIntError Nat :=
  match RateLimit.IpAddr.toDigit 10 c with
  | none => .error .invalidDigit
  | some digit =>
    if value * 10 + digit < bound then .ok (value * 10 + digit) else .error .posOverflow

/-- `from_str` of an unsigned type with `bound` values. -/
def parseUnsigned (bound : Nat) (value : String) : Except ParseIntError Nat :=
  match value.toList with
  | [] => .error .empty
  | ['+'] => .error .invalidDigit
  | '+' :: digits => digits.foldlM (pushDigit bound) 0
  -- a minus sign is no digit
  | digits => digits.foldlM (pushDigit bound) 0

/-- `str::parse::<u32>`, with the text of its error. -/
def parseU32 (value : String) : Except String UInt32 :=
  ((parseUnsigned (2 ^ 32) value).map UInt32.ofNat).mapError ParseIntError.toText

/-- `str::parse::<u64>`, with the text of its error. -/
def parseU64 (value : String) : Except String UInt64 :=
  ((parseUnsigned (2 ^ 64) value).map UInt64.ofNat).mapError ParseIntError.toText

/-! ## Socket addresses

The parser behind `str::parse::<SocketAddr>`, on the readers of `IpAddr`. -/

namespace RateLimit.IpAddr

/-- `read_given_char`. -/
def readGivenChar (target : Char) : Reader Unit
  | [] => none
  | c :: s => if c = target then some ((), s) else none

/-- `read_port`. -/
def readPort : Reader Nat := fun s => do
  let ((), s) ← readGivenChar ':' s
  readNumber 10 s.length 65536 true s

/-- `read_scope_id`. -/
def readScopeId : Reader Nat := fun s => do
  let ((), s) ← readGivenChar '%' s
  readNumber 10 s.length (2 ^ 32) true s

/-- `read_socket_addr_v4`. -/
def readSocketAddrV4 : Reader SocketAddr := fun s => do
  let (bits, s) ← readIpv4Addr s
  let (port, s) ← readPort s
  some (⟨.v4 bits, .ofNat port⟩, s)

/-- `read_socket_addr_v6`. -/
def readSocketAddrV6 : Reader SocketAddr := fun s => do
  let ((), s) ← readGivenChar '[' s
  let (bits, s) ← readIpv6Addr s
  -- a scope that cannot be read is zero, and nothing of it is consumed
  let s := ((readScopeId s).map Prod.snd).getD s
  let ((), s) ← readGivenChar ']' s
  let (port, s) ← readPort s
  some (⟨.v6 bits, .ofNat port⟩, s)

end RateLimit.IpAddr

open RateLimit.IpAddr in
/-- `SocketAddr::from_str`, with the text of its error. -/
def parseSocketAddr (value : String) : Except String RateLimit.SocketAddr :=
  match (readSocketAddrV4 value.toList).or (readSocketAddrV6 value.toList) with
  | some (address, []) => .ok address
  | _ => .error "invalid socket address syntax"

/-! ## Settings

The helpers of `Config::from_env`. Each names the variable in its error. -/

section Settings

variable (env : Environment) (name : String)

def required : Except AnyhowError String :=
  withContext ("required environment variable " ++ name ++ " is missing")
    ((env name).mapError VarError.toText)

def optional : Except AnyhowError (Option String) :=
  match env name with
  | .ok value => if Text.trim value = "" then .ok none else .ok (some value)
  | .error .notPresent => .ok none
  | .error error => .error ["could not read " ++ name, error.toText]

variable {T : Type} (parse : String → Except String T)

def parseOr (default : T) : Except AnyhowError T :=
  match env name with
  | .ok value => withContext (name ++ " has an invalid value") (parse value)
  | .error .notPresent => .ok default
  | .error error => .error ["could not read " ++ name, error.toText]

/-- `positive_or`; `T::default()` is the `default` of the instance. -/
def positiveOr [LT T] [DecidableLT T] [Inhabited T] (default : T) : Except AnyhowError T := do
  let value ← parseOr env name parse default
  .ensure (value > Inhabited.default) [name ++ " must be greater than zero"]
  return value

def parseCidrs : Except AnyhowError (List T) := do
  match ← optional env name with
  | none => return []
  | some value =>
    (((Text.split ',' value).map Text.trim).filter (· ≠ "")).mapM fun value =>
      withContext (name ++ " contains invalid CIDR " ++ value) (parse value)

end Settings

section Settings

variable {env : Environment} {name : String} {T : Type} {parse : String → Except String T}

/-- A setting is read from its variable, or is the default where there is none. -/
theorem parseOr_eq_ok {default value : T} :
    parseOr env name parse default = .ok value ↔
      (∃ text, env name = .ok text ∧ parse text = .ok value) ∨
        (env name = .error .notPresent ∧ default = value) := by
  unfold parseOr withContext
  split
  · next text htext => simp [htext, Except.mapError_eq_ok]
  · next htext => simp [htext]
  · next error hpresent htext =>
    have hne : error ≠ .notPresent := hpresent
    simp [htext, hne]

/-- **When a numeric setting is accepted.** -/
theorem positiveOr_eq_ok [LT T] [DecidableLT T] [Inhabited T] {default value : T} :
    positiveOr env name parse default = .ok value ↔
      parseOr env name parse default = .ok value ∧ Inhabited.default < value := by
  unfold positiveOr
  simp only [Except.bind_eq_ok, Except.pure_eq_ok, Except.ensure_eq_ok]
  constructor
  · intro h
    obtain ⟨read, hread, _, hpositive, hvalue⟩ := h
    exact hvalue ▸ ⟨hread, hpositive⟩
  · intro h
    exact ⟨value, h.1, (), h.2, rfl⟩

/-- A setting whose default is positive need not be set. -/
theorem positiveOr_default [LT T] [DecidableLT T] [Inhabited T] {default : T}
    (hunset : env name = .error .notPresent) (hpositive : Inhabited.default < default) :
    positiveOr env name parse default = .ok default :=
  positiveOr_eq_ok.mpr ⟨parseOr_eq_ok.mpr (Or.inr ⟨hunset, rfl⟩), hpositive⟩

end Settings

/-! ## The configuration

Every field is read in the order of the source, so that the first error is the one that is returned.
-/

structure Config (IpNet : Type) where
  serverAddress : RateLimit.SocketAddr
  databaseUrl : String
  databaseMaxConnections : UInt32
  redisUrl : Option String
  redisConnectTimeoutSeconds : UInt64
  userCacheTtlSeconds : UInt64
  requestTimeoutSeconds : UInt64
  maxRequestBodyBytes : UInt64
  jobPollIntervalMilliseconds : UInt64
  jobLeaseTimeoutSeconds : UInt64
  jobRetryBaseSeconds : UInt64
  jobRetryMaxSeconds : UInt64
  jobMaxAttempts : UInt32
  jobWorkerId : Option String
  jobCompletedRetentionSeconds : UInt64
  jobDeadRetentionSeconds : UInt64
  jobCleanupIntervalSeconds : UInt64
  rateLimitRequestsPerMinute : UInt32
  rateLimitBurst : UInt32
  trustedProxyCidrs : List IpNet

namespace Config

variable {IpNet : Type} (parseIpNet : String → Except String IpNet) (env : Environment)

/-- `env::var(name).unwrap_or_else(|_| default.to_owned())`. -/
def textOr (name default : String) : String :=
  match env name with
  | .ok value => value
  | .error _ => default

def fromEnv : Except AnyhowError (Config IpNet) := do
  let host := textOr env "APP_HOST" "0.0.0.0"
  let port := textOr env "APP_PORT" "3000"
  let serverAddress ← withContext "APP_HOST and APP_PORT must form a valid socket address"
    (parseSocketAddr (host ++ ":" ++ port))
  let databaseMaxConnections ← positiveOr env "DATABASE_MAX_CONNECTIONS" parseU32 10
  let redisConnectTimeoutSeconds ← positiveOr env "REDIS_CONNECT_TIMEOUT_SECONDS" parseU64 3
  let userCacheTtlSeconds ← positiveOr env "USER_CACHE_TTL_SECONDS" parseU64 300
  let requestTimeoutSeconds ← positiveOr env "REQUEST_TIMEOUT_SECONDS" parseU64 10
  let maxRequestBodyBytes ← positiveOr env "MAX_REQUEST_BODY_BYTES" parseU64 65536
  let jobPollIntervalMilliseconds ← positiveOr env "JOB_POLL_INTERVAL_MILLISECONDS" parseU64 1000
  let jobLeaseTimeoutSeconds ← positiveOr env "JOB_LEASE_TIMEOUT_SECONDS" parseU64 300
  let jobRetryBaseSeconds ← positiveOr env "JOB_RETRY_BASE_SECONDS" parseU64 5
  let jobRetryMaxSeconds ← positiveOr env "JOB_RETRY_MAX_SECONDS" parseU64 300
  let jobMaxAttempts ← positiveOr env "JOB_MAX_ATTEMPTS" parseU32 5
  let jobCompletedRetentionSeconds ←
    positiveOr env "JOB_COMPLETED_RETENTION_SECONDS" parseU64 86400
  let jobDeadRetentionSeconds ← positiveOr env "JOB_DEAD_RETENTION_SECONDS" parseU64 2592000
  let jobCleanupIntervalSeconds ← positiveOr env "JOB_CLEANUP_INTERVAL_SECONDS" parseU64 3600
  let rateLimitRequestsPerMinute ← positiveOr env "RATE_LIMIT_REQUESTS_PER_MINUTE" parseU32 120
  let rateLimitBurst ← positiveOr env "RATE_LIMIT_BURST" parseU32 30
  let trustedProxyCidrs ← parseCidrs env "TRUSTED_PROXY_CIDRS" parseIpNet
  .ensure (jobRetryMaxSeconds ≥ jobRetryBaseSeconds)
    ["JOB_RETRY_MAX_SECONDS must be greater than or equal to JOB_RETRY_BASE_SECONDS"]
  let databaseUrl ← required env "DATABASE_URL"
  let redisUrl ← optional env "REDIS_URL"
  let jobWorkerId ← optional env "JOB_WORKER_ID"
  return {
    serverAddress, databaseUrl, databaseMaxConnections, redisUrl, redisConnectTimeoutSeconds,
    userCacheTtlSeconds, requestTimeoutSeconds, maxRequestBodyBytes, jobPollIntervalMilliseconds,
    jobLeaseTimeoutSeconds, jobRetryBaseSeconds, jobRetryMaxSeconds, jobMaxAttempts, jobWorkerId,
    jobCompletedRetentionSeconds, jobDeadRetentionSeconds, jobCleanupIntervalSeconds,
    rateLimitRequestsPerMinute, rateLimitBurst, trustedProxyCidrs }

/-- The numeric settings. -/
def numericSettings (config : Config IpNet) : List Nat :=
  [config.databaseMaxConnections.toNat, config.redisConnectTimeoutSeconds.toNat,
    config.userCacheTtlSeconds.toNat, config.requestTimeoutSeconds.toNat,
    config.maxRequestBodyBytes.toNat, config.jobPollIntervalMilliseconds.toNat,
    config.jobLeaseTimeoutSeconds.toNat, config.jobRetryBaseSeconds.toNat,
    config.jobRetryMaxSeconds.toNat, config.jobMaxAttempts.toNat,
    config.jobCompletedRetentionSeconds.toNat, config.jobDeadRetentionSeconds.toNat,
    config.jobCleanupIntervalSeconds.toNat, config.rateLimitRequestsPerMinute.toNat,
    config.rateLimitBurst.toNat]

/-- What `from_env` checks of a configuration. -/
structure Accepted (config : Config IpNet) : Prop where
  positive : ∀ setting ∈ config.numericSettings, 0 < setting
  retryOrdered : config.jobRetryBaseSeconds ≤ config.jobRetryMaxSeconds

variable {parseIpNet env}

/-- **An accepted configuration passed every check.** -/
theorem fromEnv_accepted {config : Config IpNet} (h : fromEnv parseIpNet env = .ok config) :
    config.Accepted := by
  unfold fromEnv at h
  simp only [Except.bind_eq_ok, Except.pure_eq_ok, Except.ensure_eq_ok, positiveOr_eq_ok] at h
  obtain ⟨_, _, _, ⟨_, h1⟩, _, ⟨_, h2⟩, _, ⟨_, h3⟩, _, ⟨_, h4⟩, _, ⟨_, h5⟩, _, ⟨_, h6⟩, _, ⟨_, h7⟩,
    _, ⟨_, h8⟩, _, ⟨_, h9⟩, _, ⟨_, h10⟩, _, ⟨_, h11⟩, _, ⟨_, h12⟩, _, ⟨_, h13⟩, _, ⟨_, h14⟩,
    _, ⟨_, h15⟩, _, _, _, hordered, _, _, _, _, _, _, hconfig⟩ := h
  subst hconfig
  refine ⟨?_, hordered⟩
  simp only [numericSettings, List.forall_mem_cons]
  exact ⟨h1, h2, h3, h4, h5, h6, h7, h8, h9, h10, h11, h12, h13, h14, h15, List.forall_mem_nil _⟩

end Config

/-! ## Environments with a few variables -/

/-- No variable is set. -/
def Environment.empty : Environment :=
  fun _ => .error .notPresent

def Environment.set (env : Environment) (name value : String) : Environment :=
  fun other => if other = name then .ok value else env other

/-- The default of every setting. -/
def Config.defaults (IpNet : Type) (databaseUrl : String) : Config IpNet where
  serverAddress := ⟨.v4 0, 3000⟩
  databaseUrl := databaseUrl
  databaseMaxConnections := 10
  redisUrl := none
  redisConnectTimeoutSeconds := 3
  userCacheTtlSeconds := 300
  requestTimeoutSeconds := 10
  maxRequestBodyBytes := 65536
  jobPollIntervalMilliseconds := 1000
  jobLeaseTimeoutSeconds := 300
  jobRetryBaseSeconds := 5
  jobRetryMaxSeconds := 300
  jobMaxAttempts := 5
  jobWorkerId := none
  jobCompletedRetentionSeconds := 86400
  jobDeadRetentionSeconds := 2592000
  jobCleanupIntervalSeconds := 3600
  rateLimitRequestsPerMinute := 120
  rateLimitBurst := 30
  trustedProxyCidrs := []

/-- The database URL and two settings of the jobs. -/
def jobEnvironment (databaseUrl maxAttempts cleanupInterval : String) : Environment :=
  ((Environment.empty.set "DATABASE_URL" databaseUrl).set "JOB_MAX_ATTEMPTS" maxAttempts).set
    "JOB_CLEANUP_INTERVAL_SECONDS" cleanupInterval

/-- Every default is accepted, and any positive value of the two settings. -/
theorem Config.fromEnv_jobEnvironment {IpNet : Type} (parseIpNet : String → Except String IpNet)
    (databaseUrl : String) {maxAttempts cleanupInterval : String} {attempts : UInt32}
    {interval : UInt64} (hattempts : parseU32 maxAttempts = .ok attempts) (hpos : 0 < attempts)
    (hinterval : parseU64 cleanupInterval = .ok interval) (hpos' : 0 < interval) :
    Config.fromEnv parseIpNet (jobEnvironment databaseUrl maxAttempts cleanupInterval) =
      .ok { Config.defaults IpNet databaseUrl with
        jobMaxAttempts := attempts, jobCleanupIntervalSeconds := interval } := by
  generalize henv : jobEnvironment databaseUrl maxAttempts cleanupInterval = env
  have hunset : ∀ name, name ∉ ["DATABASE_URL", "JOB_MAX_ATTEMPTS",
      "JOB_CLEANUP_INTERVAL_SECONDS"] → env name = .error .notPresent := by
    intro name hname
    simp only [List.mem_cons, List.not_mem_nil, or_false, not_or] at hname
    rw [← henv]
    simp [jobEnvironment, Environment.set, Environment.empty, hname]
  have haddress : parseSocketAddr (textOr env "APP_HOST" "0.0.0.0" ++ ":" ++
      textOr env "APP_PORT" "3000") = .ok ⟨.v4 0, 3000⟩ := by
    rw [textOr, textOr, hunset _ (by decide), hunset _ (by decide)]
    rfl
  have hset : positiveOr env "JOB_MAX_ATTEMPTS" parseU32 5 = .ok attempts :=
    positiveOr_eq_ok.mpr ⟨parseOr_eq_ok.mpr (Or.inl ⟨_, henv ▸ rfl, hattempts⟩), hpos⟩
  have hset' : positiveOr env "JOB_CLEANUP_INTERVAL_SECONDS" parseU64 3600 = .ok interval :=
    positiveOr_eq_ok.mpr ⟨parseOr_eq_ok.mpr (Or.inl ⟨_, henv ▸ rfl, hinterval⟩), hpos'⟩
  have hnone : ∀ name, name ∉ ["DATABASE_URL", "JOB_MAX_ATTEMPTS",
      "JOB_CLEANUP_INTERVAL_SECONDS"] → optional env name = .ok none := by
    intro name hname
    rw [optional, hunset name hname]
  have hcidrs : parseCidrs env "TRUSTED_PROXY_CIDRS" parseIpNet = .ok [] := by
    rw [parseCidrs, hnone _ (by decide)]
    rfl
  have hdatabase : required env "DATABASE_URL" = .ok databaseUrl := by
    rw [required, ← henv]
    rfl
  -- The settings in the order of the source: all but the three are left at their defaults.
  unfold fromEnv
  refine Except.bind_eq_ok.mpr ⟨⟨.v4 0, 3000⟩, congrArg (withContext _) haddress, ?_⟩
  iterate 9
    refine Except.bind_eq_ok.mpr ⟨_, positiveOr_default (hunset _ (by decide)) (by decide), ?_⟩
  refine Except.bind_eq_ok.mpr ⟨attempts, hset, ?_⟩
  iterate 2
    refine Except.bind_eq_ok.mpr ⟨_, positiveOr_default (hunset _ (by decide)) (by decide), ?_⟩
  refine Except.bind_eq_ok.mpr ⟨interval, hset', ?_⟩
  iterate 2
    refine Except.bind_eq_ok.mpr ⟨_, positiveOr_default (hunset _ (by decide)) (by decide), ?_⟩
  refine Except.bind_eq_ok.mpr ⟨[], hcidrs, Except.bind_eq_ok.mpr ⟨(), rfl, ?_⟩⟩
  refine Except.bind_eq_ok.mpr ⟨databaseUrl, hdatabase, ?_⟩
  iterate 2 refine Except.bind_eq_ok.mpr ⟨none, hnone _ (by decide), ?_⟩
  rfl

end BaseSkeleton
