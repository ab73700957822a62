import BaseSkeleton.Lib.Indexed
import BaseSkeleton.Lib.Log
import BaseSkeleton.Oidc.KeyCache

/-!
# The invariant of the key cache

Everything the cache promises can be read off its log: which key set was installed at a point of
the log (`installedAt`), when the refreshes started (`attempts`). `Due` says of every entry of the
log what the older part must show for it, and `CacheInv` that the log is `Justified` by it, that
what the calls share is what the log says, and what the phase of each call says (`Sound`).

`Move.sound` is the step lemma for the call that moves, `Sound.stable` the one for all the others:
only the call that holds the guard of `refresh` touches the keys or the last attempt.
`reachable_cacheInv` is the run.
-/

namespace BaseSkeleton.Oidc

variable {K : Type}

/-! ## Reading the log

Each of these walks the log to the newest entry of some kind. An entry that is no refresh is passed
over by all of them. -/

/-- The key set installed at the end of a log, and when it was installed. -/
def installedAt (initial : CachedKeys K) : CacheLog K → Instant × CachedKeys K
  | [] => (initial.fetchedAt, initial)
  | (t, .installed _ keys) :: _ => (t, keys)
  | _ :: log => installedAt initial log

/-- When the refreshes started, newest first. -/
def attempts : CacheLog K → List Instant
  | [] => []
  | (t, .attempted _) :: log => t :: attempts log
  | _ :: log => attempts log

/-- A refresh starts, or a key set is installed. -/
def Happening.isRefresh : Happening K → Bool
  | attempted _ => true
  | installed _ _ => true
  | _ => false

/-- The latest refresh is the one of call `i`, and it has installed nothing yet. -/
def InProgress (log : CacheLog K) (i : Nat) : Prop :=
  ∃ since a before, log = since ++ (a, .attempted i) :: before ∧
    ∀ e ∈ since, e.2.isRefresh = false

/-- At an instant `u` of call `i`, no later than `now`, the installed key set had been installed
for less than `jwks_max_age` and held the key. -/
def Cached (v : OidcAccessTokenVerifier) (initial : CachedKeys K) (log : CacheLog K)
    (now : Instant) (i : Nat) (kid : String) (algorithm : Algorithm) (key : K) : Prop :=
  ∃ after during u, log = after ++ during ∧ (∃ t, (t, .called i kid algorithm) ∈ during) ∧
    (∀ e ∈ during, e.1 ≤ u) ∧ (∀ e ∈ after, u ≤ e.1) ∧ u ≤ now ∧
    (installedAt initial during).2.key kid algorithm = some key ∧
    u < (installedAt initial during).1 + v.jwksMaxAge

/-- Call `i` has fetched and indexed a key set that holds the key. -/
def JustFetched (log : CacheLog K) (i : Nat) (kid : String) (algorithm : Algorithm) (key : K) :
    Prop :=
  ∃ t index, (t, .fetched i index) ∈ log ∧ index.find algorithm kid = some key

/-- The installed key set is stale, and the latest refresh started too short a time ago. -/
def StaleAndThrottled (v : OidcAccessTokenVerifier) (initial : CachedKeys K) (log : CacheLog K)
    (now : Instant) : Prop :=
  (installedAt initial log).2.fetchedAt + v.jwksMaxAge ≤ now ∧
    ∃ a ∈ (attempts log).head?, now < a + v.refreshInterval

/-- What the log must show for an entry to be written. -/
def Due (v : OidcAccessTokenVerifier) (initial : CachedKeys K) (older : CacheLog K) :
    Instant × Happening K → Prop
  | (_, .called i _ _) => ∀ t kid algorithm, (t, .called i kid algorithm) ∉ older
  | (_, .fetched i _) => ∃ t kid algorithm, (t, .called i kid algorithm) ∈ older
  | (t, .attempted _) => ∀ a ∈ attempts older, a + v.refreshInterval ≤ t
  | (t, .installed i keys) =>
    (∃ u, (u, .fetched i keys.index) ∈ older) ∧ (∀ a ∈ attempts older, a ≤ keys.fetchedAt) ∧
      keys.fetchedAt ≤ t
  | (_, .failed i) => InProgress older i
  | (t, .returned i (.ok key)) =>
    ∃ kid algorithm, (∃ s, (s, .called i kid algorithm) ∈ older) ∧
      (JustFetched older i kid algorithm key ∨ Cached v initial older t i kid algorithm key)
  | (t, .returned i (.error .authenticationUnavailable)) =>
    (∃ a, (a, .attempted i) ∈ older) ∨ StaleAndThrottled v initial older t
  | _ => True

variable {v : OidcAccessTokenVerifier} {initial : CachedKeys K} {log older new : CacheLog K}
  {now now' : Instant} {i : Nat} {kid : String} {algorithm : Algorithm} {key : K}

theorem attempts_append : attempts (new ++ log) = attempts new ++ attempts log := by
  induction new with
  | nil => rfl
  | cons e new ih =>
    obtain ⟨t, happening⟩ := e
    cases happening with
    | attempted j =>
      show t :: attempts (new ++ log) = t :: attempts new ++ attempts log
      rw [ih, List.cons_append]
    | _ => exact ih

theorem attempts_quiet (hnew : ∀ e ∈ new, e.2.isRefresh = false) :
    attempts (new ++ log) = attempts log := by
  induction new with
  | nil => rfl
  | cons e new ih =>
    rw [List.forall_mem_cons] at hnew
    obtain ⟨t, happening⟩ := e
    cases happening with
    | attempted j => cases hnew.1
    | _ => exact ih hnew.2

theorem installedAt_quiet (hnew : ∀ e ∈ new, e.2.isRefresh = false) :
    installedAt initial (new ++ log) = installedAt initial log := by
  induction new with
  | nil => rfl
  | cons e new ih =>
    rw [List.forall_mem_cons] at hnew
    obtain ⟨t, happening⟩ := e
    cases happening with
    | installed j keys => cases hnew.1
    | _ => exact ih hnew.2

theorem mem_attempts {a : Instant} (h : a ∈ attempts log) : ∃ j, (a, .attempted j) ∈ log := by
  induction log with
  | nil => cases h
  | cons e log ih =>
    obtain ⟨t, happening⟩ := e
    cases happening with
    | attempted j =>
      rcases List.mem_cons.mp h with rfl | h
      · exact ⟨j, List.mem_cons_self⟩
      · obtain ⟨j', hj'⟩ := ih h
        exact ⟨j', List.mem_cons_of_mem _ hj'⟩
    | _ =>
      obtain ⟨j', hj'⟩ := ih h
      exact ⟨j', List.mem_cons_of_mem _ hj'⟩

/-- A refresh that starts is `refresh_interval` away from every earlier one. -/
theorem attempts_pairwise (h : Log.Justified (Due v initial) log) :
    (attempts log).Pairwise fun later earlier => earlier + v.refreshInterval ≤ later := by
  induction log with
  | nil => exact List.Pairwise.nil
  | cons e log ih =>
    obtain ⟨hdue, hrest⟩ := Log.justified_cons.mp h
    obtain ⟨t, happening⟩ := e
    cases happening with
    | attempted j => exact List.Pairwise.cons hdue (ih hrest)
    | _ => exact ih hrest

/-- The latest refresh is the one that started last. -/
theorem le_head_attempts (h : Log.Justified (Due v initial) log) {a : Instant}
    (ha : a ∈ attempts log) : ∃ last ∈ (attempts log).head?, a ≤ last := by
  have hpairwise := attempts_pairwise h
  generalize attempts log = starts at ha hpairwise
  cases starts with
  | nil => cases ha
  | cons last earlier =>
    refine ⟨last, rfl, ?_⟩
    rcases List.mem_cons.mp ha with rfl | ha
    · exact Nat.le_refl _
    · exact Nat.le_trans (Nat.le_add_right _ _) ((List.pairwise_cons.mp hpairwise).1 a ha)

theorem InProgress.cons_quiet (h : InProgress log i) (hnew : ∀ e ∈ new, e.2.isRefresh = false) :
    InProgress (new ++ log) i := by
  obtain ⟨since, a, before, rfl, hsince⟩ := h
  refine ⟨new ++ since, a, before, (List.append_assoc ..).symm, ?_⟩
  exact List.forall_mem_append.mpr ⟨hnew, hsince⟩

theorem Cached.append (h : Cached v initial log now i kid algorithm key) (hnow : now ≤ now')
    (hnew : ∀ e ∈ new, now ≤ e.1) : Cached v initial (new ++ log) now' i kid algorithm key := by
  obtain ⟨after, during, u, rfl, hcalled, hduring, hafter, hu, hkey, hage⟩ := h
  refine ⟨new ++ after, during, u, (List.append_assoc ..).symm, hcalled, hduring, ?_,
    Nat.le_trans hu hnow, hkey, hage⟩
  exact List.forall_mem_append.mpr
    ⟨fun e he => Nat.le_trans hu (hnew e he), hafter⟩

/-! ## The invariant

`Sound` says of each phase what the log shows for it: a call that is about to install keys has
fetched them, and one that is about to fail was throttled. -/

/-- What the phase of call `i` says about the log and about what the calls share. -/
def Sound (v : OidcAccessTokenVerifier) (initial : CachedKeys K) (s : Shared K) (log : CacheLog K)
    (i : Nat) (kid : String) (algorithm : Algorithm) : Phase K → Prop
  | .found key => Cached v initial log s.now i kid algorithm key
  | .judged true => s.keys.fetchedAt + v.jwksMaxAge ≤ s.now
  | .attempting => ∀ last ∈ s.refresh.lastAttempt, last + v.refreshInterval ≤ s.now
  | .fetching => InProgress log i
  | .installing index fetchedAt =>
    (∃ t, (t, .fetched i index) ∈ log) ∧ (∀ last ∈ s.refresh.lastAttempt, last ≤ fetchedAt) ∧
      fetchedAt ≤ s.now
  | _ => True

/-- What the calls share is what the log says. -/
structure Reads (initial : CachedKeys K) (s : Shared K) (log : CacheLog K) : Prop where
  times : ∀ e ∈ log, e.1 ≤ s.now
  keys_eq : s.keys = (installedAt initial log).2
  fetchedAt_le : s.keys.fetchedAt ≤ (installedAt initial log).1
  fetchedAt_le_now : s.keys.fetchedAt ≤ s.now
  lastAttempt_eq : s.refresh.lastAttempt = (attempts log).head?

structure CacheInv (v : OidcAccessTokenVerifier) (initial : CachedKeys K) (c : KeyCache K) :
    Prop where
  justified : Log.Justified (Due v initial) c.log
  reads : Reads initial c.toShared c.log
  holder : ∀ (i : Nat) (call : KeyFor K), c.calls[i]? = some call → call.phase.holds = true →
    c.holder = some i
  called : ∀ (i : Nat) (call : KeyFor K), c.calls[i]? = some call →
    ∃ t, (t, .called i call.kid call.algorithm) ∈ c.log
  called_lt : ∀ t i kid algorithm, (t, .called i kid algorithm) ∈ c.log → i < c.calls.length
  sound : ∀ (i : Nat) (call : KeyFor K), c.calls[i]? = some call →
    Sound v initial c.toShared c.log i call.kid call.algorithm call.phase

/-- A call that holds the guard of `refresh` is not disturbed by what is not a refresh, and any
other call by nothing. -/
theorem Sound.stable {s s' : Shared K} {phase : Phase K} (new : CacheLog K)
    (h : Sound v initial s log i kid algorithm phase) (hnow : s.now ≤ s'.now)
    (hnew : ∀ e ∈ new, s.now ≤ e.1)
    (hheld : phase.holds = true → s'.keys = s.keys ∧ s'.refresh = s.refresh ∧
      ∀ e ∈ new, e.2.isRefresh = false) :
    Sound v initial s' (new ++ log) i kid algorithm phase := by
  cases phase with
  | found key => exact Cached.append h hnow hnew
  | judged cacheIsStale =>
    cases cacheIsStale with
    | false => trivial
    | true =>
      -- nobody else replaces the keys while the guard is held: stale stays stale
      obtain ⟨hkeys, _, _⟩ := hheld rfl
      show s'.keys.fetchedAt + v.jwksMaxAge ≤ s'.now
      rw [hkeys]
      exact Nat.le_trans h hnow
  | attempting =>
    obtain ⟨_, hrefresh, _⟩ := hheld rfl
    show ∀ last ∈ s'.refresh.lastAttempt, last + v.refreshInterval ≤ s'.now
    rw [hrefresh]
    exact fun last hlast => Nat.le_trans (h last hlast) hnow
  | fetching => exact InProgress.cons_quiet h (hheld rfl).2.2
  | installing index fetchedAt =>
    obtain ⟨_, hrefresh, _⟩ := hheld rfl
    obtain ⟨⟨t, hfetched⟩, hlast, hle⟩ := h
    refine ⟨⟨t, List.mem_append_right _ hfetched⟩, ?_, Nat.le_trans hle hnow⟩
    rw [hrefresh]
    exact hlast
  | _ => trivial

/-! ## One step of one call

The call that moves writes the log. What it appends is allowed (`Move.justified`), and where it
arrives it is sound again (`Move.sound`). -/

variable {s s' : Shared K} {phase phase' : Phase K} {happenings : List (Happening K)}

/-- The entries a call that moves at `now` appends. -/
def stamped (now : Instant) (happenings : List (Happening K)) : CacheLog K :=
  happenings.map fun h => (now, h)

theorem Move.now_eq (h : Move v i kid algorithm s phase s' phase' happenings) :
    s'.now = s.now := by
  cases h with
  | drop phase s' hawaits hs =>
    rw [hs]
    split <;> rfl
  | _ => rfl

/-- Only a call that holds the guard of `refresh` refreshes the keys. -/
theorem Move.quiet (h : Move v i kid algorithm s phase s' phase' happenings)
    (hphase : phase.holds = false) : s'.keys = s.keys ∧ s'.refresh = s.refresh ∧
      ∀ e ∈ stamped s.now happenings, e.2.isRefresh = false := by
  cases h with
  | drop phase s' hawaits hs =>
    rw [hphase] at hs
    rw [hs]
    simp [stamped, Happening.isRefresh]
  | readFound key hfresh hkey => simp [stamped]
  | readMissed => simp [stamped]
  | returnFound key => simp [stamped, Happening.isRefresh]
  | lock hfree => simp [stamped]
  | _ => cases hphase

/-- The guard of `refresh` goes to a call only while it is free. -/
theorem Move.holder (h : Move v i kid algorithm s phase s' phase' happenings)
    (hholds : phase.holds = true → s.holder = some i) :
    (phase'.holds = true → s'.holder = some i) ∧
      ∀ j, j ≠ i → s.holder = some j → s'.holder = some j := by
  -- a call that releases the guard had it
  have hrelease : phase.holds = true → ∀ j, j ≠ i → s.holder = some j → False := by
    intro hphase j hne hj
    exact hne (Option.some.inj (hj.symm.trans (hholds hphase)))
  cases h with
  | readFound key hfresh hkey => exact ⟨nofun, fun _ _ hj => hj⟩
  | readMissed => exact ⟨nofun, fun _ _ hj => hj⟩
  | returnFound key => exact ⟨nofun, fun _ _ hj => hj⟩
  | lock hfree =>
    -- the mutex is taken only when nobody has it
    refine ⟨fun _ => rfl, fun j _ hj => ?_⟩
    cases hfree.symm.trans hj
  | recheckFound key hfresh hkey => exact ⟨nofun, fun j hne hj => (hrelease rfl j hne hj).elim⟩
  | recheckMissed hfresh => exact ⟨fun _ => hholds rfl, fun _ _ hj => hj⟩
  | recheckStale hstale => exact ⟨fun _ => hholds rfl, fun _ _ hj => hj⟩
  | throttle cacheIsStale hthrottled =>
    exact ⟨nofun, fun j hne hj => (hrelease rfl j hne hj).elim⟩
  | goOn cacheIsStale hallowed => exact ⟨fun _ => hholds rfl, fun _ _ hj => hj⟩
  | attempt => exact ⟨fun _ => hholds rfl, fun _ _ hj => hj⟩
  | fail => exact ⟨nofun, fun j hne hj => (hrelease rfl j hne hj).elim⟩
  | fetch index => exact ⟨fun _ => hholds rfl, fun _ _ hj => hj⟩
  | install index fetchedAt result hresult =>
    exact ⟨nofun, fun j hne hj => (hrelease rfl j hne hj).elim⟩
  | drop phase s' hawaits hs =>
    refine ⟨nofun, fun j hne hj => ?_⟩
    cases hphase : phase.holds with
    | true => exact (hrelease hphase j hne hj).elim
    | false =>
      rw [hs, hphase]
      exact hj

theorem Move.not_called (h : Move v i kid algorithm s phase s' phase' happenings) (t : Instant)
    (j : Nat) (kid' : String) (algorithm' : Algorithm) :
    (t, .called j kid' algorithm') ∉ stamped s.now happenings := by
  cases h <;> simp [stamped]

/-- The last attempt is one of the log, in the past. -/
theorem Reads.lastAttempt_le (h : Reads initial s log) {last : Instant}
    (hlast : last ∈ s.refresh.lastAttempt) : last ≤ s.now := by
  rw [h.lastAttempt_eq] at hlast
  obtain ⟨j, hj⟩ := mem_attempts (List.mem_of_mem_head? hlast)
  exact h.times _ hj

theorem Move.reads (h : Move v i kid algorithm s phase s' phase' happenings)
    (hreads : Reads initial s log) (hsound : Sound v initial s log i kid algorithm phase) :
    Reads initial s' (stamped s.now happenings ++ log) := by
  have htimes : ∀ e ∈ stamped s.now happenings ++ log, e.1 ≤ s'.now := by
    rw [h.now_eq]
    refine List.forall_mem_append.mpr ⟨?_, hreads.times⟩
    intro e he
    obtain ⟨_, _, rfl⟩ := List.mem_map.mp he
    exact Nat.le_refl _
  obtain ⟨_, hkeys, hle, hnow, hlast⟩ := hreads
  cases h with
  | attempt => exact ⟨htimes, hkeys, hle, hnow, rfl⟩
  | install index fetchedAt result hresult =>
    exact ⟨htimes, rfl, hsound.2.2, hsound.2.2, hlast⟩
  | drop phase s' hawaits hs =>
    have hkept : s'.keys = s.keys ∧ s'.refresh = s.refresh ∧ s'.now = s.now := by
      rw [hs]
      split <;> exact ⟨rfl, rfl, rfl⟩
    obtain ⟨hkeys', hrefresh, hnow'⟩ := hkept
    refine ⟨htimes, ?_, ?_, ?_, ?_⟩
    · rw [hkeys']
      exact hkeys
    · rw [hkeys']
      exact hle
    · rw [hkeys', hnow']
      exact hnow
    · rw [hrefresh]
      exact hlast
  | _ => exact ⟨htimes, hkeys, hle, hnow, hlast⟩

/-- A read of fresh keys is a read of keys that were installed for less than `jwks_max_age`. -/
theorem cached_of_fresh (hreads : Reads initial s log)
    (hcalled : ∃ t, (t, .called i kid algorithm) ∈ log) (hfresh : s.Fresh v)
    (hkey : s.keys.key kid algorithm = some key) :
    Cached v initial log s.now i kid algorithm key := by
  have hle := hreads.fetchedAt_le
  unfold Shared.Fresh at hfresh
  refine ⟨[], log, s.now, rfl, hcalled, hreads.times, by simp, Nat.le_refl _, ?_, by lia⟩
  rw [← hreads.keys_eq]
  exact hkey

/-- **The call that moves** is in order where it arrives. -/
theorem Move.sound (h : Move v i kid algorithm s phase s' phase' happenings)
    (hreads : Reads initial s log) (hcalled : ∃ t, (t, .called i kid algorithm) ∈ log) :
    Sound v initial s' (stamped s.now happenings ++ log) i kid algorithm phase' := by
  cases h with
  | readFound key hfresh hkey => exact cached_of_fresh hreads hcalled hfresh hkey
  | recheckStale hstale =>
    have hle := hreads.fetchedAt_le_now
    unfold Shared.Fresh at hstale
    show s.keys.fetchedAt + v.jwksMaxAge ≤ s.now
    lia
  | goOn cacheIsStale hallowed =>
    -- the throttle was passed, so the last attempt is an interval ago
    intro last hlast
    have hle := hreads.lastAttempt_le hlast
    by_contra hlt
    exact hallowed ⟨last, hlast, by lia⟩
  | attempt => exact ⟨[], s.now, log, rfl, by simp⟩
  | fetch index =>
    exact ⟨⟨s.now, List.mem_cons_self⟩, fun last hlast => hreads.lastAttempt_le hlast,
      Nat.le_refl _⟩
  | _ => trivial

theorem InProgress.attempted (h : InProgress log i) : ∃ a, (a, .attempted i) ∈ log := by
  obtain ⟨since, a, before, rfl, _⟩ := h
  exact ⟨a, List.mem_append_right _ List.mem_cons_self⟩

/-- **What a call does is due.** -/
theorem Move.justified (h : Move v i kid algorithm s phase s' phase' happenings)
    (hjustified : Log.Justified (Due v initial) log) (hreads : Reads initial s log)
    (hcalled : ∃ t, (t, .called i kid algorithm) ∈ log)
    (hsound : Sound v initial s log i kid algorithm phase) :
    Log.Justified (Due v initial) (stamped s.now happenings ++ log) := by
  -- all refreshes started before the last one
  have hattempts : ∀ a ∈ attempts log, ∃ last ∈ s.refresh.lastAttempt, a ≤ last := by
    rw [hreads.lastAttempt_eq]
    exact fun a ha => le_head_attempts hjustified ha
  cases h with
  | returnFound key =>
    exact Log.justified_cons.mpr ⟨⟨kid, algorithm, hcalled, Or.inr hsound⟩, hjustified⟩
  | recheckFound key hfresh hkey =>
    have hcached := cached_of_fresh hreads hcalled hfresh hkey
    exact Log.justified_cons.mpr ⟨⟨kid, algorithm, hcalled, Or.inr hcached⟩, hjustified⟩
  | throttle cacheIsStale hthrottled =>
    refine Log.justified_cons.mpr ⟨?_, hjustified⟩
    cases cacheIsStale with
    | false => trivial
    | true =>
      -- the answer that `StaleAndThrottled` is about
      obtain ⟨last, hlast, hrecent⟩ := hthrottled
      rw [hreads.lastAttempt_eq] at hlast
      have hstale : s.keys.fetchedAt + v.jwksMaxAge ≤ s.now := hsound
      rw [hreads.keys_eq] at hstale
      exact Or.inr ⟨hstale, last, hlast, by lia⟩
  | attempt =>
    refine Log.justified_cons.mpr ⟨fun a ha => ?_, hjustified⟩
    obtain ⟨last, hlast, hle⟩ := hattempts a ha
    exact Nat.le_trans (Nat.add_le_add_right hle _) (hsound last hlast)
  | fail =>
    refine Log.justified_cons.mpr ⟨Or.inl ?_, Log.justified_cons.mpr ⟨hsound, hjustified⟩⟩
    obtain ⟨a, ha⟩ := InProgress.attempted hsound
    exact ⟨a, List.mem_cons_of_mem _ ha⟩
  | fetch index =>
    obtain ⟨t, hcall⟩ := hcalled
    exact Log.justified_cons.mpr ⟨⟨t, kid, algorithm, hcall⟩, hjustified⟩
  | install index fetchedAt result hresult =>
    obtain ⟨⟨t, hfetched⟩, hlast, hle⟩ := hsound
    refine Log.justified_cons.mpr ⟨?_, Log.justified_cons.mpr ⟨⟨⟨t, hfetched⟩, ?_, hle⟩,
      hjustified⟩⟩
    · cases hkey : index.find algorithm kid with
      | none =>
        rw [hkey] at hresult
        rw [hresult]
        trivial
      | some key =>
        rw [hkey] at hresult
        rw [hresult]
        obtain ⟨t', hcall⟩ := hcalled
        exact ⟨kid, algorithm, ⟨t', List.mem_cons_of_mem _ hcall⟩,
          Or.inl ⟨t, index, List.mem_cons_of_mem _ hfetched, hkey⟩⟩
    · intro a ha
      obtain ⟨last, hmem, hle'⟩ := hattempts a ha
      exact Nat.le_trans hle' (hlast last hmem)
  | drop phase s' hawaits hs => exact Log.justified_cons.mpr ⟨trivial, hjustified⟩
  | _ => exact hjustified

/-! ## Every cache

The other calls are where they were, and what was said of them stays true while the guard is not
theirs. -/

variable {c c' : KeyCache K}

theorem cacheInv_init (env : Environment K) (v : OidcAccessTokenVerifier)
    (initial : CachedKeys K) : CacheInv v initial (keyCache env v initial).init where
  justified := Log.justified_nil
  reads := ⟨fun e he => absurd he List.not_mem_nil, rfl, Nat.le_refl _, Nat.le_refl _, rfl⟩
  holder i call hcall := by cases hcall
  called i call hcall := by cases hcall
  called_lt t i kid algorithm h := absurd h List.not_mem_nil
  sound i call hcall := by cases hcall

theorem cacheInv_tick (h : CacheInv v initial c) (elapsed : Duration) :
    CacheInv v initial { c with now := c.now + elapsed } where
  justified := h.justified
  reads :=
    { h.reads with
      times := fun e he => Nat.le_trans (h.reads.times e he) (Nat.le_add_right _ _)
      fetchedAt_le_now := Nat.le_trans h.reads.fetchedAt_le_now (Nat.le_add_right _ _) }
  holder := h.holder
  called := h.called
  called_lt := h.called_lt
  sound i call hcall :=
    (h.sound i call hcall).stable [] (Nat.le_add_right _ _) (by simp)
      fun _ => ⟨rfl, rfl, by simp⟩

theorem cacheInv_call (h : CacheInv v initial c) (kid : String) (algorithm : Algorithm) :
    CacheInv v initial
      { c with
        calls := c.calls ++ [⟨kid, algorithm, .reading⟩]
        log := (c.now, .called c.calls.length kid algorithm) :: c.log } := by
  have hquiet : ∀ e ∈ [(c.now, Happening.called (K := K) c.calls.length kid algorithm)],
      e.2.isRefresh = false := by simp [Happening.isRefresh]
  refine ⟨?_, ?_, ?_, ?_, ?_, ?_⟩
  · refine Log.justified_cons.mpr ⟨fun t kid' algorithm' hmem => ?_, h.justified⟩
    exact Nat.lt_irrefl _ (h.called_lt t _ kid' algorithm' hmem)
  · exact ⟨List.forall_mem_cons.mpr ⟨Nat.le_refl _, h.reads.times⟩, h.reads.keys_eq,
      h.reads.fetchedAt_le, h.reads.fetchedAt_le_now, h.reads.lastAttempt_eq⟩
  · intro i call hcall hholds
    rcases Indexed.getElem?_append_cases hcall with hcall | ⟨_, rfl⟩
    · exact h.holder i call hcall hholds
    · cases hholds
  · intro i call hcall
    rcases Indexed.getElem?_append_cases hcall with hcall | ⟨rfl, rfl⟩
    · obtain ⟨t, hmem⟩ := h.called i call hcall
      exact ⟨t, List.mem_cons_of_mem _ hmem⟩
    · exact ⟨c.now, List.mem_cons_self⟩
  · intro t i kid' algorithm' hmem
    rw [List.length_append, List.length_singleton]
    rcases List.mem_cons.mp hmem with heq | hmem
    · cases heq
      exact Nat.lt_succ_self _
    · exact Nat.lt_succ_of_lt (h.called_lt t i kid' algorithm' hmem)
  · intro i call hcall
    rcases Indexed.getElem?_append_cases hcall with hcall | ⟨_, rfl⟩
    · exact (h.sound i call hcall).stable [(c.now, _)] (Nat.le_refl _) (by simp)
        fun _ => ⟨rfl, rfl, hquiet⟩
    · trivial

/-- A call moves. -/
theorem cacheInv_move {call : KeyFor K} (h : CacheInv v initial c)
    (hcall : c.calls[i]? = some call)
    (hmove : Move v i call.kid call.algorithm c.toShared call.phase s' phase' happenings) :
    CacheInv v initial (c.advance i call (s', phase', happenings)) := by
  have hsound := h.sound i call hcall
  have hcalled := h.called i call hcall
  obtain ⟨hself, hothers⟩ := hmove.holder (h.holder i call hcall)
  refine ⟨?_, ?_, ?_, ?_, ?_, ?_⟩
  · exact hmove.justified h.justified h.reads hcalled hsound
  · exact hmove.reads h.reads hsound
  -- the guard: taken by the call that moves, or kept by another one
  · intro j f hj hholds
    rcases Indexed.getElem?_set_cases hj with ⟨rfl, rfl⟩ | ⟨hne, hj⟩
    · exact hself hholds
    · exact hothers j hne (h.holder j f hj hholds)
  · intro j f hj
    have hbefore : ∃ t, (t, .called j f.kid f.algorithm) ∈ c.log := by
      rcases Indexed.getElem?_set_cases hj with ⟨rfl, rfl⟩ | ⟨_, hj⟩
      · exact hcalled
      · exact h.called j f hj
    obtain ⟨t, hmem⟩ := hbefore
    exact ⟨t, List.mem_append_right _ hmem⟩
  · intro t j kid algorithm hmem
    show j < (c.calls.set i { call with phase := phase' }).length
    rw [List.length_set]
    rcases List.mem_append.mp hmem with hmem | hmem
    · exact absurd hmem (hmove.not_called t j kid algorithm)
    · exact h.called_lt t j kid algorithm hmem
  · intro j f hj
    rcases Indexed.getElem?_set_cases hj with ⟨rfl, rfl⟩ | ⟨hne, hj⟩
    · exact hmove.sound h.reads hcalled
    · refine (h.sound j f hj).stable _ (Nat.le_of_eq hmove.now_eq.symm) ?_ fun hholds => ?_
      · intro e he
        obtain ⟨_, _, rfl⟩ := List.mem_map.mp he
        exact Nat.le_refl _
      · -- two calls do not hold the guard at once
        refine hmove.quiet (Bool.eq_false_iff.mpr fun hi => hne ?_)
        have hholder := h.holder j f hj hholds
        exact Option.some.inj (hholder.symm.trans (h.holder i call hcall hi))

/-- **The run lemma.** -/
theorem reachable_cacheInv {env : Environment K} (h : (keyCache env v initial).Reachable c) :
    CacheInv v initial c := by
  refine Machine.Reachable.invariant (cacheInv_init env v initial) ?_ h
  intro c input c' _ hinv hstep
  cases cache_step_happens hstep with
  | tick elapsed => exact cacheInv_tick hinv elapsed
  | call kid algorithm => exact cacheInv_call hinv kid algorithm
  | move i call s' phase' happenings hcall hmove => exact cacheInv_move hinv hcall hmove

end BaseSkeleton.Oidc
