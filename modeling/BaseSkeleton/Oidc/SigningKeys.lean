import BaseSkeleton.Oidc.CacheInvariant

/-!
# Signing keys fail closed

Where a key that `key_for` returns comes from, and what a refresh that fails leaves behind.

* `installedAt_append` — the latest installation decides which key set is installed.
* `called_once` / `not_called_before` — a call is made once, and everything it does comes after.
* `keys_fail_closed` — the guarantee over every run.
-/

namespace BaseSkeleton.Oidc

variable {K : Type} {v : OidcAccessTokenVerifier} {initial : CachedKeys K}
  {log new before during : CacheLog K} {i : Nat} {kid kid' : String}
  {algorithm algorithm' : Algorithm} {key : K} {t s : Instant}

/-- The latest installation of `new`, or, without one, what was installed before. -/
theorem installedAt_append (initial : CachedKeys K) (new log : CacheLog K) :
    (installedAt initial (new ++ log) = installedAt initial log ∧
      ∀ u j keys, (u, .installed j keys) ∉ new) ∨
    ∃ newer u j keys older, new = newer ++ (u, .installed j keys) :: older ∧
      installedAt initial (new ++ log) = (u, keys) := by
  induction new with
  | nil => exact Or.inl ⟨rfl, fun u j keys => List.not_mem_nil⟩
  | cons e new ih =>
    obtain ⟨t, happening⟩ := e
    cases happening with
    | installed j keys => exact Or.inr ⟨[], t, j, keys, new, rfl, rfl⟩
    | _ =>
      rcases ih with ⟨hsame, hnone⟩ | ⟨newer, u, j, keys, older, hnew, hlatest⟩
      · refine Or.inl ⟨hsame, fun u j keys hmem => ?_⟩
        rcases List.mem_cons.mp hmem with heq | hmem
        · cases heq
        · exact hnone u j keys hmem
      · exact Or.inr ⟨_ :: newer, u, j, keys, older, by rw [hnew, List.cons_append], hlatest⟩

/-- A call is made once. -/
theorem called_once
    (h : Log.Justified (Due v initial) (during ++ (s, .called i kid algorithm) :: before))
    {t : Instant} (hcalled : (t, .called i kid' algorithm') ∈
      during ++ (s, .called i kid algorithm) :: before) : kid' = kid ∧ algorithm' = algorithm := by
  induction during with
  | nil =>
    rcases List.mem_cons.mp hcalled with heq | hmem
    · cases heq
      exact ⟨rfl, rfl⟩
    · exact absurd hmem ((Log.justified_cons.mp h).1 t kid' algorithm')
  | cons e during ih =>
    obtain ⟨hdue, hrest⟩ := Log.justified_cons.mp h
    rcases List.mem_cons.mp hcalled with rfl | hmem
    · have hthere : (s, Happening.called i kid algorithm) ∈
          during ++ (s, .called i kid algorithm) :: before :=
        List.mem_append_right _ List.mem_cons_self
      exact absurd hthere (hdue s kid algorithm)
    · exact ih hrest hmem

/-- A call has done nothing before it was made. -/
theorem not_called_before
    (h : Log.Justified (Due v initial) (during ++ (s, .called i kid algorithm) :: before)) :
    (∀ t kid' algorithm', (t, .called i kid' algorithm') ∉ before) ∧
      ∀ t index, (t, .fetched i index) ∉ before := by
  obtain ⟨hdue, hbefore⟩ := Log.justified_cons.mp h.drop_newer
  refine ⟨hdue, fun t index hmem => ?_⟩
  obtain ⟨newer, older, hsplit⟩ := List.append_of_mem hmem
  obtain ⟨u, kid', algorithm', hcalled⟩ := hbefore newer _ older hsplit
  refine hdue u kid' algorithm' ?_
  rw [hsplit]
  exact List.mem_append_right _ (List.mem_cons_of_mem _ hcalled)

/-- A point of the log at which the call had been made lies after the call was made. -/
theorem during_of_called {since after : CacheLog K}
    (h : Log.Justified (Due v initial) (since ++ (s, .called i kid algorithm) :: before))
    (hsplit : since ++ (s, .called i kid algorithm) :: before = after ++ during)
    (hcalled : ∃ t kid' algorithm', (t, .called i kid' algorithm') ∈ during) :
    ∃ first, during = first ++ (s, .called i kid algorithm) :: before ∧
      ∀ e ∈ first, e ∈ since := by
  rcases List.append_eq_append_iff.mp hsplit with ⟨x, hafter, hx⟩ | ⟨x, hsince, hduring⟩
  · cases x with
    | nil => exact ⟨[], hx.symm, by simp⟩
    | cons e x =>
      obtain ⟨_, hbefore⟩ := List.cons.inj hx
      obtain ⟨t, kid', algorithm', hmem⟩ := hcalled
      refine absurd ?_ ((not_called_before h).1 t kid' algorithm')
      rw [hbefore]
      exact List.mem_append_right _ hmem
  · refine ⟨x, hduring, fun e he => ?_⟩
    rw [hsince]
    exact List.mem_append_right _ he

/-- A refresh ends without a new key set when the document cannot be fetched or indexed. -/
theorem respond_eq_giveUp {env : Environment K} {response : Option Response} {shared : Shared K}
    {phase : Phase K} {progress : Progress K}
    (hfails : ∀ keys, fetchJson env.jwksFromSlice response = .ok keys →
      ∀ index, indexKeys env.fromJwk keys v.allowedAlgorithms ≠ .ok index)
    (h : respond env v i response shared phase = some progress) : progress = giveUp i shared := by
  unfold respond at h
  split at h
  · split at h
    · exact (Option.some.inj h).symm
    · next keys hfetched =>
      split at h
      · exact (Option.some.inj h).symm
      · next index hindexed => exact absurd hindexed (hfails keys hfetched index)
  · cases h

/-- **Signing keys fail closed.** In every run:

* a key that a call returns is the one under its `kid` and algorithm in the key set that this call
  has just fetched, or in a set that was installed at an instant of the call, and had been for less
  than `jwks_max_age` then;
* it is in no set that was replaced before the call, unless it is also in the one that was
  installed when the call was made, in one installed since, or in the one the call has fetched;
* a refresh fails whenever the document cannot be fetched or indexed, and installs nothing; what
  was installed when it started, with its `fetched_at`, is installed when it has failed. -/
theorem keys_fail_closed {env : Environment K} {c : KeyCache K}
    (h : (keyCache env v initial).Reachable c) :
    (∀ newer t i key older, c.log = newer ++ (t, .returned i (.ok key)) :: older →
      ∃ kid algorithm, (∃ s, (s, .called i kid algorithm) ∈ older) ∧
        (JustFetched older i kid algorithm key ∨
          Cached v initial older t i kid algorithm key)) ∧
    (∀ newer t i key since s kid algorithm before,
      c.log = newer ++ (t, .returned i (.ok key)) ::
        (since ++ (s, .called i kid algorithm) :: before) →
      (installedAt initial before).2.key kid algorithm = some key ∨
        (∃ u j keys, (u, .installed j keys) ∈ since ∧ keys.key kid algorithm = some key) ∨
        JustFetched since i kid algorithm key) ∧
    (∀ i response c', (keyCache env v initial).step c (.respond i response) = some c' →
      (∀ keys, fetchJson env.jwksFromSlice response = .ok keys →
        ∀ index, indexKeys env.fromJwk keys v.allowedAlgorithms ≠ .ok index) →
      c'.keys = c.keys ∧ c'.log = (c.now, .returned i (.error .authenticationUnavailable)) ::
        (c.now, .failed i) :: c.log) ∧
    (∀ newer t i older, c.log = newer ++ (t, .failed i) :: older →
      ∃ since a before, older = since ++ (a, .attempted i) :: before ∧
        installedAt initial older = installedAt initial before) ∧
    c.keys = (installedAt initial c.log).2 := by
  have hinv := reachable_cacheInv h
  refine ⟨?_, ?_, ?_, ?_, hinv.reads.keys_eq⟩
  · intro newer t i key older hlog
    exact hinv.justified newer _ older hlog
  · intro newer t i key since s kid algorithm before hlog
    have hjustified := hinv.justified
    rw [hlog] at hjustified
    have hcalls := (Log.justified_cons.mp hjustified.drop_newer).2
    obtain ⟨kid', algorithm', ⟨t', hcalled⟩, horigin⟩ := hinv.justified newer _ _ hlog
    obtain ⟨rfl, rfl⟩ := called_once hcalls hcalled
    rcases horigin with ⟨u, index, hfetched, hkey⟩ | ⟨after, during, u, hsplit, hmade, _, _, _,
      hkey, _⟩
    · -- what this call has fetched, it has fetched since it was made
      right; right
      rcases List.mem_append.mp hfetched with hmem | hmem
      · exact ⟨u, index, hmem, hkey⟩
      · rcases List.mem_cons.mp hmem with heq | hmem
        · cases heq
        · exact absurd hmem ((not_called_before hcalls).2 u index)
    · -- the set of a cached key was installed at some point after the call was made
      obtain ⟨u', hu'⟩ := hmade
      obtain ⟨first, rfl, hfirst⟩ := during_of_called hcalls hsplit ⟨u', _, _, hu'⟩
      rcases installedAt_append initial first ((s, .called i kid' algorithm') :: before) with
        ⟨hsame, _⟩ | ⟨newer', u'', j, keys, older', hnew, hlatest⟩
      · left
        rw [hsame] at hkey
        exact hkey
      · right; left
        rw [hlatest] at hkey
        refine ⟨u'', j, keys, hfirst _ ?_, hkey⟩
        rw [hnew]
        exact List.mem_append_right _ List.mem_cons_self
  · intro i response c' hstep hfails
    obtain ⟨call, _, hmap⟩ := Option.bind_eq_some_iff.mp hstep
    obtain ⟨progress, hrespond, rfl⟩ := Option.map_eq_some_iff.mp hmap
    rw [respond_eq_giveUp hfails hrespond]
    exact ⟨rfl, rfl⟩
  · intro newer t i older hlog
    obtain ⟨since, a, before, rfl, hquiet⟩ := hinv.justified newer _ older hlog
    exact ⟨since, a, before, rfl, installedAt_quiet hquiet⟩

/-- A call that finds the keys stale, fetches new ones and returns one of them. -/
def refreshedRun : List CacheInput :=
  [.resume 0, .respond 0 (some ⟨true, none, [some []]⟩), .resume 0, .resume 0, .resume 0, .resume 0,
    .resume 0, .tick (.fromSecs 300), .call "initial" .RS256]

def refreshedCache : KeyCache String :=
  ((keyCache sampleEnvironment sampleVerifier sampleKeys).run refreshedRun).get (by decide)

theorem refreshedCache_reachable :
    (keyCache sampleEnvironment sampleVerifier sampleKeys).Reachable refreshedCache :=
  Machine.reachable_get (by decide)

theorem keys_fail_closed_refreshed :
    ∃ kid algorithm, (∃ s, (s, .called 0 kid algorithm) ∈ refreshedCache.log.tail) ∧
      (JustFetched refreshedCache.log.tail 0 kid algorithm "public key" ∨
        Cached sampleVerifier sampleKeys refreshedCache.log.tail refreshedCache.now 0 kid
          algorithm "public key") :=
  (keys_fail_closed refreshedCache_reachable).1 [] refreshedCache.now 0 "public key"
    refreshedCache.log.tail rfl

end BaseSkeleton.Oidc
