import BaseSkeleton.Auth
import BaseSkeleton.Lib.Machine
import BaseSkeleton.Oidc.Metadata

/-!
# The key cache and its callers

`OidcAccessTokenVerifier::key_for` under any number of callers: a `KeyCache` is what the callers
share, the calls that were made, and the log of what they did, newest first. The runs of the
machine `keyCache` are all interleavings of all calls, with every answer of the provider at any
time and every call dropped at any of its await points.

A call moves from one `Phase` to the next; between two phases it does what the code does without
an await in between, or reads the clock once. The guard of `refresh` is held from `locked` to the
end of the call, and released when the call is dropped. The sections under the read lock of `keys`
do not await anything, so each of them is one step.

`Move` is the inversion of what a call can do (`resume_move`, `respond_move`, `drop_move`), and
`step_happens` that of the machine.
-/

namespace BaseSkeleton.Oidc

variable {K : Type}

/-! ## The state

What the callers share is under the two locks. What each of them knows is in its phase. -/

structure RefreshState where
  lastAttempt : Option Instant

/-- Where a call of `key_for` is suspended or about to read the clock. -/
inductive Phase (K : Type) where
  /-- `self.keys.read().await`, without the guard of `refresh` -/
  | reading
  /-- the key was found, and is about to be returned -/
  | found (key : K)
  /-- `self.refresh.lock().await` -/
  | queued
  /-- `self.keys.read().await`, with the guard of `refresh` -/
  | locked
  /-- the check of `last_attempt` -/
  | judged (cacheIsStale : Bool)
  /-- `refresh.last_attempt = Some(Instant::now())` -/
  | attempting
  /-- `fetch_json(..).await` -/
  | fetching
  /-- `self.keys.write().await`; the clock was read before -/
  | installing (index : KeyIndex K) (fetchedAt : Instant)
  | returned (result : Except AccessTokenVerificationError K)
  | dropped

/-- The call holds the guard of `refresh`. -/
def Phase.holds : Phase K → Bool
  | locked => true
  | judged _ => true
  | attempting => true
  | fetching => true
  | installing _ _ => true
  | _ => false

/-- The call is suspended at an await. -/
def Phase.awaits : Phase K → Bool
  | reading => true
  | queued => true
  | locked => true
  | fetching => true
  | installing _ _ => true
  | _ => false

/-- A call of `key_for`. -/
structure KeyFor (K : Type) where
  kid : String
  algorithm : Algorithm
  phase : Phase K

/-- What a call does that matters to others, or to its caller. -/
inductive Happening (K : Type) where
  | called (i : Nat) (kid : String) (algorithm : Algorithm)
  /-- a refresh starts; its instant is stored in `last_attempt` -/
  | attempted (i : Nat)
  /-- a key set was fetched and indexed -/
  | fetched (i : Nat) (index : KeyIndex K)
  | failed (i : Nat)
  | installed (i : Nat) (keys : CachedKeys K)
  | returned (i : Nat) (result : Except AccessTokenVerificationError K)
  | dropped (i : Nat)

abbrev CacheLog (K : Type) := List (Instant × Happening K)

/-- What the calls share. -/
structure Shared (K : Type) where
  now : Instant
  keys : CachedKeys K
  refresh : RefreshState
  /-- the call that holds the guard of `refresh` -/
  holder : Option Nat

structure KeyCache (K : Type) extends Shared K where
  calls : List (KeyFor K)
  log : CacheLog K

/-! ## One call

Each function is a stretch of `key_for` between two of its awaits, or between two readings of the
clock. -/

namespace Shared

variable (v : OidcAccessTokenVerifier) (s : Shared K)

/-- `keys.fetched_at.elapsed() < self.jwks_max_age` -/
def Fresh : Prop :=
  s.now - s.keys.fetchedAt < v.jwksMaxAge

instance : Decidable (s.Fresh v) :=
  inferInstanceAs (Decidable (_ < _))

/-- The last attempt is less than `refresh_interval` ago. -/
def Throttled : Prop :=
  ∃ lastAttempt ∈ s.refresh.lastAttempt, s.now - lastAttempt < v.refreshInterval

instance : Decidable (s.Throttled v) :=
  decidable_of_iff (s.refresh.lastAttempt.any fun last => s.now - last < v.refreshInterval) <| by
    simp [Throttled, Option.any_eq_true]

/-- The guard of `refresh` is dropped. -/
def unlock : Shared K :=
  { s with holder := none }

end Shared

/-- A call goes on: what it leaves behind, where it is then, and what it did. -/
abbrev Progress (K : Type) := Shared K × Phase K × List (Happening K)

/-- The error of a call that may not fetch again yet. -/
def throttleError (cacheIsStale : Bool) : AccessTokenVerificationError :=
  if cacheIsStale then .authenticationUnavailable else .invalidToken

/-- Call `i` goes on from a phase in which it does not wait for the provider. -/
def resume (v : OidcAccessTokenVerifier) (i : Nat) (kid : String) (algorithm : Algorithm)
    (s : Shared K) : Phase K → Option (Progress K)
  | .reading =>
    if s.Fresh v then
      match s.keys.key kid algorithm with
      | some key => some (s, .found key, [])
      | none => some (s, .queued, [])
    else some (s, .queued, [])
  | .found key => some (s, .returned (.ok key), [.returned i (.ok key)])
  | .queued =>
    if s.holder = none then some ({ s with holder := some i }, .locked, []) else none
  | .locked =>
    if s.Fresh v then
      match s.keys.key kid algorithm with
      | some key => some (s.unlock, .returned (.ok key), [.returned i (.ok key)])
      | none => some (s, .judged false, [])
    else some (s, .judged true, [])
  | .judged cacheIsStale =>
    if s.Throttled v then
      some (s.unlock, .returned (.error (throttleError cacheIsStale)),
        [.returned i (.error (throttleError cacheIsStale))])
    else some (s, .attempting, [])
  | .attempting => some ({ s with refresh := ⟨some s.now⟩ }, .fetching, [.attempted i])
  | .installing index fetchedAt =>
    let result := .ofOption .invalidToken (index.find algorithm kid)
    some ({ s.unlock with keys := ⟨index, fetchedAt⟩ }, .returned result,
      [.returned i result, .installed i ⟨index, fetchedAt⟩])
  | _ => none

/-- The refresh of call `i` ends without a new key set. -/
def giveUp (i : Nat) (s : Shared K) : Progress K :=
  (s.unlock, .returned (.error .authenticationUnavailable),
    [.returned i (.error .authenticationUnavailable), .failed i])

/-- The provider answers the fetch of call `i`, or the fetch fails. -/
def respond (env : Environment K) (v : OidcAccessTokenVerifier) (i : Nat)
    (response : Option Response) (s : Shared K) : Phase K → Option (Progress K)
  | .fetching =>
    match fetchJson env.jwksFromSlice response with
    | .error _ => some (giveUp i s)
    | .ok keys =>
      match indexKeys env.fromJwk keys v.allowedAlgorithms with
      | .error _ => some (giveUp i s)
      | .ok index => some (s, .installing index s.now, [.fetched i index])
  | _ => none

/-- The future of call `i` is dropped at an await. -/
def drop (i : Nat) (s : Shared K) (phase : Phase K) : Option (Progress K) :=
  if phase.awaits then
    some (if phase.holds then s.unlock else s, .dropped, [.dropped i])
  else none

/-! ## All calls

Any call may move at any time, if it is not waiting for the guard that another one holds. -/

inductive CacheInput where
  | tick (elapsed : Duration)
  | call (kid : String) (algorithm : Algorithm)
  | resume (i : Nat)
  | respond (i : Nat) (response : Option Response)
  | drop (i : Nat)

namespace KeyCache

/-- Call `i` has gone on. -/
def advance (c : KeyCache K) (i : Nat) (call : KeyFor K) : Progress K → KeyCache K
  | (s, phase, happenings) =>
    { toShared := s
      calls := c.calls.set i { call with phase := phase }
      log := happenings.map (fun h => (c.now, h)) ++ c.log }

def step (env : Environment K) (v : OidcAccessTokenVerifier) (c : KeyCache K) :
    CacheInput → Option (KeyCache K)
  | .tick elapsed => some { c with now := c.now + elapsed }
  | .call kid algorithm =>
    some { c with
      calls := c.calls ++ [⟨kid, algorithm, .reading⟩]
      log := (c.now, .called c.calls.length kid algorithm) :: c.log }
  | .resume i =>
    c.calls[i]?.bind fun call =>
      (Oidc.resume v i call.kid call.algorithm c.toShared call.phase).map (c.advance i call)
  | .respond i response =>
    c.calls[i]?.bind fun call =>
      (Oidc.respond env v i response c.toShared call.phase).map (c.advance i call)
  | .drop i =>
    c.calls[i]?.bind fun call => (Oidc.drop i c.toShared call.phase).map (c.advance i call)

end KeyCache

/-- The callers of a verifier that starts with the key set `keys`. -/
def keyCache (env : Environment K) (v : OidcAccessTokenVerifier) (keys : CachedKeys K) :
    Machine (KeyCache K) CacheInput where
  init := ⟨⟨keys.fetchedAt, keys, ⟨none⟩, none⟩, [], []⟩
  step := KeyCache.step env v

/-! ## Inversion -/

/-- What call `i` can do. -/
inductive Move (v : OidcAccessTokenVerifier) (i : Nat) (kid : String) (algorithm : Algorithm)
    (s : Shared K) : Phase K → Shared K → Phase K → List (Happening K) → Prop where
  | readFound (key : K) (hfresh : s.Fresh v) (hkey : s.keys.key kid algorithm = some key) :
      Move v i kid algorithm s .reading s (.found key) []
  | readMissed : Move v i kid algorithm s .reading s .queued []
  | returnFound (key : K) :
      Move v i kid algorithm s (.found key) s (.returned (.ok key)) [.returned i (.ok key)]
  | lock (hfree : s.holder = none) :
      Move v i kid algorithm s .queued { s with holder := some i } .locked []
  | recheckFound (key : K) (hfresh : s.Fresh v) (hkey : s.keys.key kid algorithm = some key) :
      Move v i kid algorithm s .locked s.unlock (.returned (.ok key)) [.returned i (.ok key)]
  | recheckMissed (hfresh : s.Fresh v) : Move v i kid algorithm s .locked s (.judged false) []
  | recheckStale (hstale : ¬ s.Fresh v) : Move v i kid algorithm s .locked s (.judged true) []
  | throttle (cacheIsStale : Bool) (hthrottled : s.Throttled v) :
      Move v i kid algorithm s (.judged cacheIsStale) s.unlock
        (.returned (.error (throttleError cacheIsStale)))
        [.returned i (.error (throttleError cacheIsStale))]
  | goOn (cacheIsStale : Bool) (hallowed : ¬ s.Throttled v) :
      Move v i kid algorithm s (.judged cacheIsStale) s .attempting []
  | attempt :
      Move v i kid algorithm s .attempting { s with refresh := ⟨some s.now⟩ } .fetching
        [.attempted i]
  | fail :
      Move v i kid algorithm s .fetching s.unlock
        (.returned (.error .authenticationUnavailable))
        [.returned i (.error .authenticationUnavailable), .failed i]
  | fetch (index : KeyIndex K) :
      Move v i kid algorithm s .fetching s (.installing index s.now) [.fetched i index]
  | install (index : KeyIndex K) (fetchedAt : Instant)
      (result : Except AccessTokenVerificationError K)
      (hresult : result = .ofOption .invalidToken (index.find algorithm kid)) :
      Move v i kid algorithm s (.installing index fetchedAt)
        { s.unlock with keys := ⟨index, fetchedAt⟩ } (.returned result)
        [.returned i result, .installed i ⟨index, fetchedAt⟩]
  | drop (phase : Phase K) (s' : Shared K) (hawaits : phase.awaits = true)
      (hs : s' = if phase.holds then s.unlock else s) :
      Move v i kid algorithm s phase s' .dropped [.dropped i]

variable {env : Environment K} {v : OidcAccessTokenVerifier} {i : Nat} {kid : String}
  {algorithm : Algorithm} {s s' : Shared K} {phase phase' : Phase K}
  {happenings : List (Happening K)}

theorem resume_move (h : resume v i kid algorithm s phase = some (s', phase', happenings)) :
    Move v i kid algorithm s phase s' phase' happenings := by
  cases phase with
  -- The cases are the phases of a call; one that awaits a response cannot be resumed.
  | reading =>
    simp only [resume] at h
    split at h
    · split at h <;> cases h
      · exact .readFound _ ‹_› ‹_›
      · exact .readMissed
    · cases h
      exact .readMissed
  | found key =>
    cases h
    exact .returnFound key
  | queued =>
    simp only [resume] at h
    split at h <;> cases h
    exact .lock ‹_›
  | locked =>
    simp only [resume] at h
    split at h
    · split at h <;> cases h
      · exact .recheckFound _ ‹_› ‹_›
      · exact .recheckMissed ‹_›
    · cases h
      exact .recheckStale ‹_›
  | judged cacheIsStale =>
    simp only [resume] at h
    split at h <;> cases h
    · exact .throttle cacheIsStale ‹_›
    · exact .goOn cacheIsStale ‹_›
  | attempting =>
    cases h
    exact .attempt
  | installing index fetchedAt =>
    cases h
    exact .install index fetchedAt _ rfl
  | _ => cases h

theorem respond_move {response : Option Response}
    (h : respond env v i response s phase = some (s', phase', happenings)) :
    Move v i kid algorithm s phase s' phase' happenings := by
  cases phase with
  | fetching =>
    simp only [respond] at h
    split at h
    · cases h
      exact .fail
    · split at h <;> cases h
      · exact .fail
      · exact .fetch _
  | _ => cases h

theorem drop_move (h : drop i s phase = some (s', phase', happenings)) :
    Move v i kid algorithm s phase s' phase' happenings := by
  unfold drop at h
  split at h <;> cases h
  exact .drop phase _ ‹_› rfl

/-- What an input can do to the cache. -/
inductive CacheHappens (v : OidcAccessTokenVerifier) (c : KeyCache K) : KeyCache K → Prop where
  | tick (elapsed : Duration) : CacheHappens v c { c with now := c.now + elapsed }
  | call (kid : String) (algorithm : Algorithm) :
      CacheHappens v c { c with
        calls := c.calls ++ [⟨kid, algorithm, .reading⟩]
        log := (c.now, .called c.calls.length kid algorithm) :: c.log }
  | move (i : Nat) (call : KeyFor K) (s' : Shared K) (phase' : Phase K)
      (happenings : List (Happening K)) (hcall : c.calls[i]? = some call)
      (hmove : Move v i call.kid call.algorithm c.toShared call.phase s' phase' happenings) :
      CacheHappens v c (c.advance i call (s', phase', happenings))

/-- **Inversion of `KeyCache.step`.** -/
theorem cache_step_happens {c c' : KeyCache K} {keys : CachedKeys K} {input : CacheInput}
    (h : (keyCache env v keys).step c input = some c') : CacheHappens v c c' := by
  have hmoved : ∀ (i : Nat) (go : KeyFor K → Option (Progress K)),
      (∀ call s' phase' happenings, go call = some (s', phase', happenings) →
        Move v i call.kid call.algorithm c.toShared call.phase s' phase' happenings) →
      (c.calls[i]?.bind fun call => (go call).map (c.advance i call)) = some c' →
      CacheHappens v c c' := by
    intro i go hgo hstep
    obtain ⟨call, hcall, hmap⟩ := Option.bind_eq_some_iff.mp hstep
    obtain ⟨⟨s', phase', happenings⟩, hprogress, rfl⟩ := Option.map_eq_some_iff.mp hmap
    exact .move i call s' phase' happenings hcall (hgo call s' phase' happenings hprogress)
  cases input with
  | tick elapsed =>
    cases h
    exact .tick elapsed
  | call kid algorithm =>
    cases h
    exact .call kid algorithm
  | resume i => exact hmoved i _ (fun _ _ _ _ hgo => resume_move hgo) h
  | respond i response => exact hmoved i _ (fun _ _ _ _ hgo => respond_move hgo) h
  | drop i => exact hmoved i _ (fun _ _ _ _ hgo => drop_move hgo) h

end BaseSkeleton.Oidc
