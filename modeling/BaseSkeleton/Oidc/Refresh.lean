import BaseSkeleton.Oidc.SigningKeys

/-!
# Refreshes are single-flight and throttled

When `key_for` fetches a key set, and when it does not although the installed one is stale.

* `refresh_single_flight` — at most one fetch at a time, and at most one in each
  `refresh_interval`.
* `stale_never_throttled_after_success` — the throttle never answers a stale cache after a refresh
  that installed a key set. `fetched_at` is read after `last_attempt`, so a set that is older than
  `jwks_max_age` was attempted longer than `refresh_interval` ago: this is what the configuration
  check of the two durations is for.
-/

namespace BaseSkeleton.Oidc

variable {K : Type} {v : OidcAccessTokenVerifier} {initial : CachedKeys K} {c : KeyCache K}
  {env : Environment K} {log : CacheLog K}

/-- **A refresh is single-flight and throttled.** In every run at most one call fetches; the fetch
is the latest refresh of the log; the refreshes start at least `refresh_interval` apart, so that
each interval of that length holds the start of one at most; `last_attempt` is the latest start. -/
theorem refresh_single_flight (h : (keyCache env v initial).Reachable c) :
    (∀ (i j : Nat) (f g : KeyFor K), c.calls[i]? = some f → c.calls[j]? = some g →
      f.phase = .fetching → g.phase = .fetching → i = j) ∧
    (∀ (i : Nat) (f : KeyFor K), c.calls[i]? = some f → f.phase = .fetching →
      ∃ since a before, c.log = since ++ (a, .attempted i) :: before ∧
        c.refresh.lastAttempt = some a) ∧
    (attempts c.log).Pairwise (fun later earlier => earlier + v.refreshInterval ≤ later) ∧
    (∀ t, (attempts c.log).countP (fun a => t ≤ a ∧ a < t + v.refreshInterval) ≤ 1) ∧
    c.refresh.lastAttempt = (attempts c.log).head? := by
  have hinv := reachable_cacheInv h
  have hpairwise := attempts_pairwise hinv.justified
  refine ⟨?_, ?_, hpairwise, ?_, hinv.reads.lastAttempt_eq⟩
  · intro i j f g hf hg hfetching hfetching'
    have hi := hinv.holder i f hf (by rw [hfetching]; rfl)
    have hj := hinv.holder j g hg (by rw [hfetching']; rfl)
    exact Option.some.inj (hi.symm.trans hj)
  · intro i f hf hfetching
    have hsound := hinv.sound i f hf
    rw [hfetching] at hsound
    obtain ⟨since, a, before, hlog, hquiet⟩ := hsound
    refine ⟨since, a, before, hlog, ?_⟩
    rw [hinv.reads.lastAttempt_eq, hlog, attempts_quiet hquiet]
    rfl
  · intro t
    refine Log.countP_le_one hpairwise fun later earlier hapart hlater => ?_
    simp only [decide_eq_true_eq, decide_eq_false_iff_not] at hlater ⊢
    lia

/-- The keys are stale for two calls. The second waits for the guard while the first refreshes them
and returns; they are stale again when it gets the guard, and it fetches in turn. -/
def twiceRefreshedRun : List CacheInput :=
  [.resume 1, .resume 1, .resume 1, .resume 1, .tick (.fromSecs 300), .resume 0,
    .respond 0 (some ⟨true, none, [some []]⟩), .resume 1, .resume 0, .resume 0, .resume 0, .resume 0,
    .call "initial" .RS256, .resume 0, .tick (.fromSecs 300), .call "initial" .RS256]

def twiceRefreshedCache : KeyCache String :=
  ((keyCache sampleEnvironment sampleVerifier sampleKeys).run twiceRefreshedRun).get (by decide)

theorem twiceRefreshedCache_reachable :
    (keyCache sampleEnvironment sampleVerifier sampleKeys).Reachable twiceRefreshedCache :=
  Machine.reachable_get (by decide)

theorem refresh_single_flight_refreshed :
    twiceRefreshedCache.calls[1]? = some ⟨"initial", .RS256, .fetching⟩ ∧
      attempts twiceRefreshedCache.log = [600000000000, 300000000000] ∧
      twiceRefreshedCache.refresh.lastAttempt = some 600000000000 ∧
      (∀ (i : Nat) (f : KeyFor String), twiceRefreshedCache.calls[i]? = some f →
        f.phase = .fetching → i = 1) ∧
      (attempts twiceRefreshedCache.log).Pairwise
        fun later earlier => earlier + sampleVerifier.refreshInterval ≤ later := by
  obtain ⟨hone, _, hpairwise, _, hlast⟩ := refresh_single_flight twiceRefreshedCache_reachable
  refine ⟨rfl, rfl, hlast, fun i f hf hfetching => ?_, hpairwise⟩
  exact hone i 1 f ⟨"initial", .RS256, .fetching⟩ hf rfl hfetching rfl

/-! ## The throttle and the age of the keys

`fetched_at` is read after the attempt that fetched the keys, so that the age of the keys starts no
earlier than the throttle. -/

/-- Where the latest refresh stands in the log. -/
theorem latest_attempt {a : Instant} (h : a ∈ (attempts log).head?) :
    ∃ since j before, log = since ++ (a, .attempted j) :: before ∧
      ∀ t k, (t, .attempted k) ∉ since := by
  induction log with
  | nil => cases h
  | cons e log ih =>
    obtain ⟨t, happening⟩ := e
    cases happening with
    | attempted j =>
      obtain rfl : t = a := Option.some.inj h
      exact ⟨[], j, log, rfl, fun _ _ => List.not_mem_nil⟩
    | _ =>
      obtain ⟨since, j, before, hlog, hnone⟩ := ih h
      refine ⟨_ :: since, j, before, by rw [hlog, List.cons_append], fun u k hmem => ?_⟩
      rcases List.mem_cons.mp hmem with heq | hmem
      · cases heq
      · exact hnone u k hmem

theorem head_attempts {since before : CacheLog K} {a : Instant} {j : Nat}
    (hnone : ∀ t k, (t, .attempted k) ∉ since) :
    (attempts (since ++ (a, .attempted j) :: before)).head? = some a := by
  have hsince : attempts since = [] := by
    refine List.eq_nil_iff_forall_not_mem.mpr fun b hb => ?_
    obtain ⟨k, hk⟩ := mem_attempts hb
    exact hnone b k hk
  rw [attempts_append, hsince]
  rfl

/-- A key set that was installed after a refresh started was fetched after that. -/
theorem attempt_le_fetchedAt {since before : CacheLog K} {a u : Instant} {j k : Nat}
    {keys : CachedKeys K}
    (h : Log.Justified (Due v initial) (since ++ (a, .attempted j) :: before))
    (hinstalled : (u, .installed k keys) ∈ since) :
    a ≤ (installedAt initial (since ++ (a, .attempted j) :: before)).2.fetchedAt := by
  rcases installedAt_append initial since ((a, .attempted j) :: before) with
    ⟨_, hnone⟩ | ⟨newer, u', k', keys', older, hsince, hlatest⟩
  · exact absurd hinstalled (hnone u k keys)
  · rw [hlatest]
    rw [hsince, List.append_assoc] at h
    refine (Log.justified_cons.mp h.drop_newer).1.2.1 a ?_
    show a ∈ attempts (older ++ (a, .attempted j) :: before)
    rw [attempts_append]
    exact List.mem_append_right _ List.mem_cons_self

/-- A cache that is stale and throttled has not been refreshed by its latest attempt. -/
theorem StaleAndThrottled.not_installed {t : Instant} (h : StaleAndThrottled v initial log t)
    (hjustified : Log.Justified (Due v initial) log)
    (hle : v.refreshInterval ≤ v.jwksMaxAge) :
    ∃ since a j before, log = since ++ (a, .attempted j) :: before ∧
      t < a + v.refreshInterval ∧ (∀ u k, (u, .attempted k) ∉ since) ∧
      ∀ u k keys, (u, .installed k keys) ∉ since := by
  obtain ⟨hstale, a, hhead, hrecent⟩ := h
  obtain ⟨since, j, before, rfl, hnone⟩ := latest_attempt hhead
  refine ⟨since, a, j, before, rfl, hrecent, hnone, fun u k keys hinstalled => ?_⟩
  have hfetched := attempt_le_fetchedAt hjustified hinstalled
  lia

/-- A call that can go on does. -/
theorem step_resume {i : Nat} {f : KeyFor K} {progress : Progress K}
    (hf : c.calls[i]? = some f)
    (hresume : resume v i f.kid f.algorithm c.toShared f.phase = some progress) :
    (keyCache env v initial).step c (.resume i) = some (c.advance i f progress) := by
  show (c.calls[i]?.bind fun call =>
    (resume v i call.kid call.algorithm c.toShared call.phase).map (c.advance i call)) = _
  rw [hf, Option.bind_some, hresume, Option.map_some]

theorem advance_getElem? {i : Nat} {f : KeyFor K} (hf : c.calls[i]? = some f) (s : Shared K)
    (phase : Phase K) (happenings : List (Happening K)) :
    (c.advance i f (s, phase, happenings)).calls[i]? = some { f with phase := phase } :=
  List.getElem?_set_self (List.getElem?_eq_some_iff.mp hf).1

/-- **A stale cache is never throttled by a refresh that succeeded.** Under a configuration that
passed `validate`:

* if a call answers `AuthenticationUnavailable` without having started a refresh itself, the latest
  refresh has installed no key set;
* if the latest refresh has installed one, a call that finds it stale goes on to fetch. -/
theorem stale_never_throttled_after_success {config : OidcConfig} {discovered : Instant}
    (hv : discover env config discovered = .ok (v, initial))
    (h : (keyCache env v initial).Reachable c) :
    (∀ newer t i older,
      c.log = newer ++ (t, .returned i (.error .authenticationUnavailable)) :: older →
      (∀ a, (a, .attempted i) ∉ older) →
      ∃ since a j before, older = since ++ (a, .attempted j) :: before ∧
        t < a + v.refreshInterval ∧ (∀ u k, (u, .attempted k) ∉ since) ∧
        ∀ u k keys, (u, .installed k keys) ∉ since) ∧
    (∀ (i : Nat) (f : KeyFor K) (since : CacheLog K) (a : Instant) (j : Nat)
      (before : CacheLog K), c.calls[i]? = some f → f.phase = .judged true →
      c.log = since ++ (a, .attempted j) :: before → (∀ u k, (u, .attempted k) ∉ since) →
      (∃ u k keys, (u, .installed k keys) ∈ since) →
      ∃ c', (keyCache env v initial).runFrom c [.resume i, .resume i] = some c' ∧
        c'.calls[i]? = some { f with phase := .fetching } ∧
        c'.log = (c.now, .attempted i) :: c.log) := by
  obtain ⟨metadata, hd⟩ := discover_ok hv
  have hle : v.refreshInterval ≤ v.jwksMaxAge := by
    rw [hd.refreshInterval, hd.jwksMaxAge]
    exact OidcConfig.interval_le_maxAge hd.validated
  have hinv := reachable_cacheInv h
  refine ⟨?_, ?_⟩
  · intro newer t i older hlog hnone
    have hjustified := hinv.justified
    rw [hlog] at hjustified
    obtain ⟨hdue, hrest⟩ := Log.justified_cons.mp hjustified.drop_newer
    rcases hdue with ⟨a, hattempted⟩ | hthrottled
    -- a call that answers after an attempt of its own was not throttled
    · exact absurd hattempted (hnone a)
    · exact hthrottled.not_installed hrest hle
  · intro i f since a j before hf hjudged hlog hnone hinstalled
    obtain ⟨u, k, keys, hmem⟩ := hinstalled
    -- `fetched_at` is no earlier than the attempt, and `jwks_max_age` no shorter than the interval
    have hallowed : ¬ c.Throttled v := by
      rintro ⟨last, hlast, hrecent⟩
      have hstale := hinv.sound i f hf
      rw [hjudged] at hstale
      have hlatest : last = a := by
        rw [hinv.reads.lastAttempt_eq, hlog, head_attempts hnone] at hlast
        exact (Option.some.inj hlast).symm
      have hjustified := hinv.justified
      have hkeys := hinv.reads.keys_eq
      rw [hlog] at hjustified hkeys
      have hfetched := attempt_le_fetchedAt hjustified hmem
      rw [← hkeys] at hfetched
      have hexpired : c.keys.fetchedAt + v.jwksMaxAge ≤ c.now := hstale
      lia
    have hfirst : resume v i f.kid f.algorithm c.toShared f.phase =
        some (c.toShared, .attempting, []) := by
      rw [hjudged]
      exact if_neg hallowed
    have hcall := advance_getElem? hf c.toShared .attempting []
    refine ⟨_, Machine.runFrom_cons.mpr ⟨_, Machine.runFrom_cons.mpr
      ⟨c, rfl, step_resume hf hfirst⟩, step_resume hcall rfl⟩, ?_, rfl⟩
    exact advance_getElem? hcall _ _ _

/-- The keys are stale, a refresh fails, and a second call comes too early for another one. -/
def throttledRun : List CacheInput :=
  [.resume 1, .resume 1, .resume 1, .resume 1, .call "initial" .RS256, .respond 0 none, .resume 0,
    .resume 0, .resume 0, .resume 0, .resume 0, .tick (.fromSecs 300), .call "initial" .RS256]

def throttledCache : KeyCache String :=
  ((keyCache sampleEnvironment sampleVerifier sampleKeys).run throttledRun).get (by decide)

theorem throttledCache_reachable :
    (keyCache sampleEnvironment sampleVerifier sampleKeys).Reachable throttledCache :=
  Machine.reachable_get (by decide)

theorem stale_never_throttled_after_success_throttled :
    ∃ since a j before, throttledCache.log.tail = since ++ (a, .attempted j) :: before ∧
      throttledCache.now < a + sampleVerifier.refreshInterval ∧
      (∀ u k, (u, .attempted k) ∉ since) ∧ ∀ u k keys, (u, .installed k keys) ∉ since := by
  have hlog : throttledCache.log.tail =
      [(300000000000, .called 1 "initial" .RS256),
        (300000000000, .returned 0 (.error .authenticationUnavailable)),
        (300000000000, .failed 0), (300000000000, .attempted 0),
        (0, .called 0 "initial" .RS256)] := rfl
  refine (stale_never_throttled_after_success discover_sample throttledCache_reachable).1 []
    throttledCache.now 1 throttledCache.log.tail rfl ?_
  intro a hmem
  rw [hlog] at hmem
  simp at hmem

end BaseSkeleton.Oidc
