import BaseSkeleton.Oidc.Refresh

/-!
# Calls that are dropped in the middle of a refresh

`key_for` writes `last_attempt` before it awaits the provider, and a call that is dropped there
leaves it behind without new keys. The answers of the calls that come after it depend on whether
the cache is stale while that attempt still throttles: `Shared.Blocks` is the condition, on the
state in which the call is dropped.

* `unavailable_iff_blocks` — with a provider that answers every fetch, no call returns
  `AuthenticationUnavailable` unless such a call was dropped, and after each such drop one can.
* `unavailable_after_drop` — the run in which it does.
-/

namespace BaseSkeleton.Oidc

variable {K : Type}

/-! ## The conditions

`Shared.Blocks` speaks of the state in which a call is dropped, and of nothing that comes after it.
-/

/-- The attempt is stored in `last_attempt`, and its keys are not installed yet. -/
def Phase.refreshes : Phase K → Bool
  | fetching => true
  | installing _ _ => true
  | _ => false

/-- From now on there is an instant at which the installed keys are stale and the last attempt is
too recent for another one. -/
def Shared.Blocks (v : OidcAccessTokenVerifier) (s : Shared K) : Prop :=
  ∃ last ∈ s.refresh.lastAttempt, s.now < last + v.refreshInterval ∧
    s.keys.fetchedAt + v.jwksMaxAge < last + v.refreshInterval

instance (v : OidcAccessTokenVerifier) (s : Shared K) : Decidable (s.Blocks v) :=
  decidable_of_iff (s.refresh.lastAttempt.any fun last =>
    s.now < last + v.refreshInterval ∧
      s.keys.fetchedAt + v.jwksMaxAge < last + v.refreshInterval) <| by
    simp [Shared.Blocks, Option.any_eq_true]

/-- The fetch succeeds and yields a valid key set with a usable key. -/
def answers (env : Environment K) (v : OidcAccessTokenVerifier) (kid : String)
    (algorithm : Algorithm) (response : Option Response) : Bool :=
  match fetchJson env.jwksFromSlice response with
  | .error _ => false
  | .ok keys =>
    match indexKeys env.fromJwk keys v.allowedAlgorithms with
    | .error _ => false
    | .ok index => (index.find algorithm kid).isSome

/-- Every fetch that ends is answered. -/
def ProviderAnswers (env : Environment K) (v : OidcAccessTokenVerifier) (kid : String)
    (algorithm : Algorithm) (_ : KeyCache K) : CacheInput → Prop
  | .respond _ response => answers env v kid algorithm response
  | _ => True

instance (env : Environment K) (v : OidcAccessTokenVerifier) (kid : String)
    (algorithm : Algorithm) (c : KeyCache K) :
    ∀ input, Decidable (ProviderAnswers env v kid algorithm c input)
  | .respond _ _ => inferInstanceAs (Decidable (_ = true))
  | .tick _ => .isTrue trivial
  | .call _ _ => .isTrue trivial
  | .resume _ => .isTrue trivial
  | .drop _ => .isTrue trivial

/-- Every fetch that ends is answered, and no refresh is dropped whose attempt blocks others. -/
def NoBlockingDrop (env : Environment K) (v : OidcAccessTokenVerifier) (kid : String)
    (algorithm : Algorithm) (c : KeyCache K) : CacheInput → Prop
  | .drop i => (c.calls[i]?.any fun call => call.phase.refreshes) → ¬ c.Blocks v
  | input => ProviderAnswers env v kid algorithm c input

instance (env : Environment K) (v : OidcAccessTokenVerifier) (kid : String)
    (algorithm : Algorithm) (c : KeyCache K) :
    ∀ input, Decidable (NoBlockingDrop env v kid algorithm c input)
  | .drop _ => inferInstanceAs (Decidable (_ → ¬ _))
  | .tick _ => .isTrue trivial
  | .call _ _ => .isTrue trivial
  | .resume _ => .isTrue trivial
  | .respond _ _ => inferInstanceAs (Decidable (_ = true))

/-- The callers of a verifier whose provider answers every fetch. -/
def answeredCache (env : Environment K) (v : OidcAccessTokenVerifier) (keys : CachedKeys K)
    (kid : String) (algorithm : Algorithm) : Machine (KeyCache K) CacheInput :=
  (keyCache env v keys).restrict (ProviderAnswers env v kid algorithm)

variable {env : Environment K} {v : OidcAccessTokenVerifier} {initial : CachedKeys K}
  {c c' : KeyCache K} {kid : String} {algorithm : Algorithm}

/-! ## No drop blocks

As long as the throttle ends before the keys are stale, a call that finds them stale may fetch. -/

/-- A refresh is in progress, or the last attempt blocks nobody. -/
def Unblocked (v : OidcAccessTokenVerifier) (c : KeyCache K) : Prop :=
  (∃ (i : Nat) (call : KeyFor K), c.calls[i]? = some call ∧ call.phase.refreshes = true) ∨
    ¬ c.Blocks v

/-- The answer that blames the provider. -/
def Phase.unavailable : Phase K :=
  .returned (.error .authenticationUnavailable)

theorem Phase.holds_of_refreshes {phase : Phase K} (h : phase.refreshes = true) :
    phase.holds = true := by
  cases phase with
  | fetching => rfl
  | installing index fetchedAt => rfl
  | _ => cases h

/-- What blocks is read off the clock, the keys and the last attempt. -/
theorem Shared.Blocks.congr {s s' : Shared K} (h : s'.Blocks v) (hnow : s.now ≤ s'.now)
    (hkeys : s'.keys = s.keys) (hrefresh : s'.refresh = s.refresh) : s.Blocks v := by
  obtain ⟨last, hlast, hrecent, hstale⟩ := h
  rw [hrefresh] at hlast
  rw [hkeys] at hstale
  exact ⟨last, hlast, Nat.lt_of_le_of_lt hnow hrecent, hstale⟩

section Moves

variable {s s' : Shared K} {i : Nat} {phase phase' : Phase K} {happenings : List (Happening K)}
  {log : CacheLog K}

/-- A call without the guard of `refresh` does not blame the provider. -/
theorem Move.available_of_not_holds (h : Move v i kid algorithm s phase s' phase' happenings)
    (hphase : phase.holds = false) : phase' ≠ .unavailable := by
  cases h with
  | throttle cacheIsStale hthrottled => cases hphase
  | fail => cases hphase
  | install index fetchedAt result hresult => cases hphase
  | _ => exact nofun

/-- **One step of one call.** A call that is not stopped by the provider leaves nobody blocked,
unless it is dropped while it blocks. -/
theorem Move.unblocked (h : Move v i kid algorithm s phase s' phase' happenings)
    (hsound : Sound v initial s log i kid algorithm phase)
    (hle : v.refreshInterval ≤ v.jwksMaxAge)
    (hanswered : phase = .fetching → phase' ≠ .unavailable)
    (hdrop : phase' = .dropped → phase.refreshes = true → ¬ s.Blocks v)
    (hbefore : phase.refreshes = true ∨ ¬ s.Blocks v) :
    (phase'.refreshes = true ∨ ¬ s'.Blocks v) ∧ phase' ≠ .unavailable := by
  cases h with
  | throttle cacheIsStale hthrottled =>
    have hfree : ¬ s.Blocks v := hbefore.resolve_left nofun
    refine ⟨Or.inr hfree, ?_⟩
    cases cacheIsStale with
    | false => exact nofun
    | true =>
      -- stale and throttled at this instant: the last attempt blocks
      intro _
      obtain ⟨last, hlast, hrecent⟩ := hthrottled
      have hstale : s.keys.fetchedAt + v.jwksMaxAge ≤ s.now := hsound
      exact hfree ⟨last, hlast, by lia, by lia⟩
  | attempt => exact ⟨Or.inl rfl, nofun⟩
  | fetch index => exact ⟨Or.inl rfl, nofun⟩
  | fail => exact absurd rfl (hanswered rfl)
  | install index fetchedAt result hresult =>
    -- the new keys are younger than the attempt, and live at least as long as it throttles
    refine ⟨Or.inr ?_, ?_⟩
    · intro hblocks
      obtain ⟨last, hlast, _, hstale⟩ := hblocks
      have hfetched : last ≤ fetchedAt := hsound.2.1 last hlast
      have hlate : fetchedAt + v.jwksMaxAge < last + v.refreshInterval := hstale
      lia
    · rw [hresult]
      cases index.find algorithm kid <;> exact nofun
  | drop phase s' hawaits hs =>
    have hfree : ¬ s.Blocks v := by
      cases hrefreshes : phase.refreshes with
      | true => exact hdrop rfl hrefreshes
      | false =>
        rw [hrefreshes] at hbefore
        exact hbefore.resolve_left nofun
    refine ⟨Or.inr fun hblocks => hfree ?_, nofun⟩
    rw [hs] at hblocks
    split at hblocks <;> exact hblocks
  | _ =>
    have hfree : ¬ s.Blocks v := hbefore.resolve_left nofun
    exact ⟨Or.inr hfree, nofun⟩

/-- What a provider that answers leaves of a fetch. -/
theorem respond_answered {response : Option Response}
    (hanswers : answers env v kid algorithm response = true)
    (h : respond env v i response s phase = some (s', phase', happenings)) :
    ∃ index, phase' = .installing index s.now := by
  unfold respond at h
  unfold answers at hanswers
  split at h
  · split at h
    · next hfetch =>
      rw [hfetch] at hanswers
      cases hanswers
    · next keys hfetch =>
      rw [hfetch] at hanswers
      simp only at hanswers
      split at h
      · next hindex =>
        rw [hindex] at hanswers
        cases hanswers
      · next index hindex =>
        cases h
        exact ⟨index, rfl⟩
  · cases h

/-- A refresh goes on only with the answer of the provider, or to its end. -/
theorem resume_refreshes (hphase : phase.refreshes = true)
    (h : resume v i kid algorithm s phase = some (s', phase', happenings)) :
    phase ≠ .fetching ∧ phase' ≠ .dropped := by
  cases phase with
  | fetching => cases h
  | installing index fetchedAt =>
    cases h
    exact ⟨nofun, nofun⟩
  | _ => cases hphase

end Moves

/-! ## Every run without a blocking drop

Invariant, step and run for a provider that answers every fetch with keys that can be indexed. -/

/-- What such a run keeps. -/
structure Quiet (v : OidcAccessTokenVerifier) (c : KeyCache K) : Prop where
  unblocked : Unblocked v c
  available : ∀ (i : Nat) (call : KeyFor K), c.calls[i]? = some call → call.phase ≠ .unavailable

theorem quiet_init : Quiet v (keyCache env v initial).init := by
  refine ⟨Or.inr ?_, fun i call hcall => nomatch hcall⟩
  intro hblocks
  obtain ⟨last, hlast, _⟩ := hblocks
  cases hlast

theorem quiet_tick (h : Quiet v c) (elapsed : Duration) :
    Quiet v { c with now := c.now + elapsed } where
  unblocked := h.unblocked.imp_right fun hfree hblocks =>
    hfree (Shared.Blocks.congr hblocks (Nat.le_add_right _ _) rfl rfl)
  available := h.available

theorem quiet_call (h : Quiet v c) (kid : String) (algorithm : Algorithm) :
    Quiet v
      { c with
        calls := c.calls ++ [⟨kid, algorithm, .reading⟩]
        log := (c.now, .called c.calls.length kid algorithm) :: c.log } where
  unblocked := h.unblocked.imp_left fun ⟨i, call, hcall, hrefreshes⟩ => by
    have hlt := (List.getElem?_eq_some_iff.mp hcall).1
    exact ⟨i, call, (List.getElem?_append_left hlt).trans hcall, hrefreshes⟩
  available i call hcall := by
    rcases Indexed.getElem?_append_cases hcall with hcall | ⟨_, rfl⟩
    · exact h.available i call hcall
    · exact nofun

/-- A call moves. -/
theorem quiet_move {i : Nat} {call : KeyFor K} {s' : Shared K} {phase' : Phase K}
    {happenings : List (Happening K)} (h : Quiet v c) (hinv : CacheInv v initial c)
    (hle : v.refreshInterval ≤ v.jwksMaxAge) (hcall : c.calls[i]? = some call)
    (hmove : Move v i call.kid call.algorithm c.toShared call.phase s' phase' happenings)
    (hanswered : call.phase = .fetching → phase' ≠ .unavailable)
    (hdrop : phase' = .dropped → call.phase.refreshes = true → ¬ c.Blocks v) :
    Quiet v (c.advance i call (s', phase', happenings)) := by
  have hmoved := advance_getElem? hcall s' phase' happenings
  have hothers : ∀ (j : Nat) (f : KeyFor K), phase' ≠ .unavailable →
      (c.advance i call (s', phase', happenings)).calls[j]? = some f → f.phase ≠ .unavailable := by
    intro j f hphase' hj
    rcases Indexed.getElem?_set_cases hj with ⟨rfl, rfl⟩ | ⟨_, hj⟩
    · exact hphase'
    · exact h.available j f hj
  have hown : call.phase.refreshes = true ∨ ¬ c.Blocks v →
      Quiet v (c.advance i call (s', phase', happenings)) := by
    intro hbefore
    obtain ⟨hafter, hphase'⟩ :=
      hmove.unblocked (hinv.sound i call hcall) hle hanswered hdrop hbefore
    refine ⟨hafter.imp_left fun hrefreshes => ?_, fun j f hj => hothers j f hphase' hj⟩
    exact ⟨i, _, hmoved, hrefreshes⟩
  rcases h.unblocked with ⟨j, f, hj, hrefreshes⟩ | hfree
  · rcases eq_or_ne i j with rfl | hne
    · obtain rfl := Option.some.inj (hcall.symm.trans hj)
      exact hown (Or.inl hrefreshes)
    · -- the guard is with the call that refreshes, so the one that moves has no answer to give
      have hfree : call.phase.holds = false := by
        refine Bool.eq_false_iff.mpr fun hholds => hne ?_
        have hholder := hinv.holder i call hcall hholds
        have hholder' := hinv.holder j f hj (Phase.holds_of_refreshes hrefreshes)
        exact Option.some.inj (hholder.symm.trans hholder')
      have hphase' := hmove.available_of_not_holds hfree
      refine ⟨Or.inl ⟨j, f, ?_, hrefreshes⟩, fun k g hk => hothers k g hphase' hk⟩
      show (c.calls.set i _)[j]? = some f
      rw [List.getElem?_set_ne hne]
      exact hj
  · exact hown (Or.inr hfree)

/-- **The step lemma.** -/
theorem quiet_step {input : CacheInput} (h : Quiet v c) (hinv : CacheInv v initial c)
    (hle : v.refreshInterval ≤ v.jwksMaxAge) (hok : NoBlockingDrop env v kid algorithm c input)
    (hstep : (keyCache env v initial).step c input = some c') : Quiet v c' := by
  cases input with
  | tick elapsed =>
    cases hstep
    exact quiet_tick h elapsed
  | call kid' algorithm' =>
    cases hstep
    exact quiet_call h kid' algorithm'
  | resume i =>
    obtain ⟨call, hcall, hmap⟩ := Option.bind_eq_some_iff.mp hstep
    obtain ⟨⟨s', phase', happenings⟩, hresume, rfl⟩ := Option.map_eq_some_iff.mp hmap
    refine quiet_move h hinv hle hcall (resume_move hresume) ?_ ?_
    · intro hfetching
      have hrefreshes : call.phase.refreshes = true := by rw [hfetching]; rfl
      exact absurd hfetching (resume_refreshes hrefreshes hresume).1
    · intro hdropped hrefreshes
      exact absurd hdropped (resume_refreshes hrefreshes hresume).2
  | respond i response =>
    obtain ⟨call, hcall, hmap⟩ := Option.bind_eq_some_iff.mp hstep
    obtain ⟨⟨s', phase', happenings⟩, hrespond, rfl⟩ := Option.map_eq_some_iff.mp hmap
    -- The provider is healthy: what it sends is a key set the code can install.
    obtain ⟨index, rfl⟩ := respond_answered hok hrespond
    exact quiet_move h hinv hle hcall (respond_move hrespond) (fun _ => nofun) nofun
  | drop i =>
    obtain ⟨call, hcall, hmap⟩ := Option.bind_eq_some_iff.mp hstep
    obtain ⟨⟨s', phase', happenings⟩, hdropped, rfl⟩ := Option.map_eq_some_iff.mp hmap
    refine quiet_move h hinv hle hcall (drop_move hdropped) ?_ ?_
    · intro _ hphase'
      subst hphase'
      unfold drop at hdropped
      split at hdropped <;> cases hdropped
    · intro _ hrefreshes
      -- The drop of a call that refreshes is what the condition rules out.
      refine hok ?_
      rw [hcall]
      exact hrefreshes

/-- **The run lemma.** -/
theorem quiet_of_noBlockingDrop (hle : v.refreshInterval ≤ v.jwksMaxAge)
    (h : ((keyCache env v initial).restrict (NoBlockingDrop env v kid algorithm)).Reachable c) :
    Quiet v c := by
  refine Machine.Reachable.restrict_invariant quiet_init ?_ h
  intro c input c' hreach hquiet hok hstep
  exact quiet_step hquiet (reachable_cacheInv hreach) hle hok hstep

/-! ## A blocking drop

The other direction: after a drop that blocks there is a call that is refused, though the provider
would answer it. -/

/-- Call `i` goes on in a cache whose provider answers. -/
theorem answered_resume {i : Nat} {f : KeyFor K} {progress : Progress K}
    (hf : c.calls[i]? = some f)
    (hresume : resume v i f.kid f.algorithm c.toShared f.phase = some progress) :
    (answeredCache env v initial kid algorithm).step c (.resume i) =
      some (c.advance i f progress) :=
  Machine.restrict_step.mpr ⟨trivial, step_resume hf hresume⟩

/-- A new call that finds the keys stale and the last attempt recent blames the provider, which it
has not asked. -/
theorem blocked_call (env : Environment K) (initial : CachedKeys K) (kid : String)
    (algorithm : Algorithm) (hfree : c.holder = none) (hstale : ¬ c.Fresh v)
    (hthrottled : c.Throttled v) :
    ∃ newer c', (answeredCache env v initial kid algorithm).runFrom c newer = some c' ∧
      c'.calls[c.calls.length]? = some ⟨kid, algorithm, .unavailable⟩ := by
  let called : KeyCache K := { c with
    calls := c.calls ++ [⟨kid, algorithm, .reading⟩]
    log := (c.now, .called c.calls.length kid algorithm) :: c.log }
  have hreading : called.calls[c.calls.length]? = some ⟨kid, algorithm, .reading⟩ :=
    List.getElem?_concat_length
  have hqueued := advance_getElem? hreading called.toShared .queued []
  have hlocked := advance_getElem? hqueued { called.toShared with holder := some c.calls.length }
    .locked []
  have hjudged := advance_getElem? hlocked { called.toShared with holder := some c.calls.length }
    (.judged true) []
  have hreturned := advance_getElem? hjudged called.toShared.unlock .unavailable
    [.returned c.calls.length (.error .authenticationUnavailable)]
  have hcall : (answeredCache env v initial kid algorithm).runFrom c [.call kid algorithm] =
      some called := rfl
  refine ⟨_, _, Machine.runFrom_cons.mpr ⟨_, Machine.runFrom_cons.mpr ⟨_, Machine.runFrom_cons.mpr
    ⟨_, Machine.runFrom_cons.mpr ⟨called, hcall, answered_resume hreading ?_⟩,
      answered_resume hqueued ?_⟩, answered_resume hlocked ?_⟩, answered_resume hjudged ?_⟩,
    hreturned⟩
  · exact if_neg hstale
  · exact if_pos hfree
  · exact if_neg hstale
  · exact if_pos hthrottled

/-- **After a drop that blocks**, time alone brings a call to blame the provider. -/
theorem blocking_drop {i : Nat} {f : KeyFor K} (hinv : CacheInv v initial c)
    (hf : c.calls[i]? = some f) (hrefreshes : f.phase.refreshes = true) (hblocks : c.Blocks v) :
    ∃ newer c', (answeredCache env v initial kid algorithm).runFrom c (newer ++ [.drop i]) =
        some c' ∧
      ∃ j : Nat, c'.calls[j]? = some ⟨kid, algorithm, .unavailable⟩ := by
  obtain ⟨last, hlast, hrecent, hstale⟩ := hblocks
  have hle := hinv.reads.lastAttempt_le hlast
  have hdropped : drop i c.toShared f.phase = some (c.unlock, .dropped, [.dropped i]) := by
    cases hphase : f.phase with
    | fetching => rfl
    | installing index fetchedAt => rfl
    | _ =>
      rw [hphase] at hrefreshes
      cases hrefreshes
  let afterDrop := c.advance i f (c.unlock, .dropped, [.dropped i])
  have hdrop : (answeredCache env v initial kid algorithm).step c (.drop i) = some afterDrop := by
    refine Machine.restrict_step.mpr ⟨trivial, ?_⟩
    show (c.calls[i]?.bind fun call =>
      (drop i c.toShared call.phase).map (c.advance i call)) = _
    rw [hf, Option.bind_some, hdropped, Option.map_some]
  -- the first instant at which the keys are stale
  let elapsed : Duration := c.keys.fetchedAt + v.jwksMaxAge - c.now
  let later : KeyCache K := { afterDrop with now := c.now + elapsed }
  have hnow : later.now = c.now + (c.keys.fetchedAt + v.jwksMaxAge - c.now) := rfl
  have hlater : ¬ later.Fresh v := by
    show ¬ later.now - c.keys.fetchedAt < v.jwksMaxAge
    have hfetched := hinv.reads.fetchedAt_le_now
    lia
  have hthrottled : later.Throttled v := ⟨last, hlast, by lia⟩
  have hfree : later.holder = none := rfl
  obtain ⟨newer, c', hrun, hcall⟩ :=
    blocked_call env initial kid algorithm hfree hlater hthrottled
  refine ⟨newer ++ [.tick elapsed], c', ?_, _, hcall⟩
  rw [List.append_assoc]
  refine Machine.runFrom_append.mpr ⟨later, ?_, hrun⟩
  exact Machine.runFrom_cons.mpr ⟨afterDrop, Machine.runFrom_cons.mpr ⟨c, rfl, hdrop⟩, rfl⟩

/-- **The provider is blamed only after a blocking drop.** Take a verifier that was discovered,
and a provider that answers every fetch with a usable key for `(kid, algorithm)`:

* in every run in which no refresh is dropped whose attempt blocks, no call answers
  `AuthenticationUnavailable`;
* from every state in which such a refresh is in progress, dropping it leads to a run in which a
  call for `(kid, algorithm)` does. -/
theorem unavailable_iff_blocks {config : OidcConfig} {discovered : Instant}
    (hv : discover env config discovered = .ok (v, initial)) (kid : String)
    (algorithm : Algorithm) :
    (∀ c, ((keyCache env v initial).restrict (NoBlockingDrop env v kid algorithm)).Reachable c →
      ∀ (i : Nat) (call : KeyFor K), c.calls[i]? = some call →
        call.phase ≠ .returned (.error .authenticationUnavailable)) ∧
    (∀ c, (answeredCache env v initial kid algorithm).Reachable c →
      ∀ (i : Nat) (call : KeyFor K), c.calls[i]? = some call → call.phase.refreshes = true →
        c.Blocks v →
        ∃ newer c', (answeredCache env v initial kid algorithm).runFrom c (newer ++ [.drop i]) =
            some c' ∧
          ∃ j : Nat, c'.calls[j]? =
            some ⟨kid, algorithm, .returned (.error .authenticationUnavailable)⟩) := by
  obtain ⟨metadata, hd⟩ := discover_ok hv
  have hle : v.refreshInterval ≤ v.jwksMaxAge := by
    rw [hd.refreshInterval, hd.jwksMaxAge]
    exact OidcConfig.interval_le_maxAge hd.validated
  refine ⟨fun c h i call hcall => (quiet_of_noBlockingDrop hle h).available i call hcall, ?_⟩
  intro c h i call hcall hrefreshes hblocks
  have hinv : CacheInv v initial c :=
    Machine.Reachable.restrict_invariant (cacheInv_init env v initial)
      (fun c input c' hreach _ _ hstep => reachable_cacheInv (hreach.next hstep)) h
  exact blocking_drop hinv hcall hrefreshes hblocks

/-- The keys are stale, and a call refreshes them. -/
def refreshingRun : List CacheInput :=
  [.resume 0, .resume 0, .resume 0, .resume 0, .resume 0, .tick (.fromSecs 300),
    .call "initial" .RS256]

def refreshingCache : KeyCache String :=
  ((answeredCache sampleEnvironment sampleVerifier sampleKeys "initial" .RS256).run
    refreshingRun).get (by decide)

theorem refreshingCache_reachable :
    (answeredCache sampleEnvironment sampleVerifier sampleKeys "initial" .RS256).Reachable
      refreshingCache :=
  Machine.reachable_get (by decide)

/-- A run in which a refresh ends and a call that does not refresh is dropped. -/
def answeredRun : List CacheInput :=
  [.drop 1, .call "initial" .RS256] ++ refreshedRun

def answeredRunCache : KeyCache String :=
  (((keyCache sampleEnvironment sampleVerifier sampleKeys).restrict
    (NoBlockingDrop sampleEnvironment sampleVerifier "initial" .RS256)).run answeredRun).get
      (by decide)

theorem answeredRunCache_reachable :
    ((keyCache sampleEnvironment sampleVerifier sampleKeys).restrict
      (NoBlockingDrop sampleEnvironment sampleVerifier "initial" .RS256)).Reachable
        answeredRunCache :=
  Machine.reachable_get (by decide)

theorem unavailable_iff_blocks_sample :
    (∀ (i : Nat) (call : KeyFor String), answeredRunCache.calls[i]? = some call →
      call.phase ≠ .returned (.error .authenticationUnavailable)) ∧
    ∃ newer c', (answeredCache sampleEnvironment sampleVerifier sampleKeys "initial" .RS256).runFrom
        refreshingCache (newer ++ [.drop 0]) = some c' ∧
      ∃ j : Nat, c'.calls[j]? =
        some ⟨"initial", .RS256, .returned (.error .authenticationUnavailable)⟩ := by
  obtain ⟨hquiet, hblocked⟩ := unavailable_iff_blocks discover_sample "initial" .RS256
  refine ⟨hquiet answeredRunCache answeredRunCache_reachable, ?_⟩
  exact hblocked refreshingCache refreshingCache_reachable 0 _ rfl rfl (by decide)

/-- The keys are stale, the call that refreshes them is dropped, and a second call comes. -/
def droppedRun : List CacheInput :=
  [.resume 1, .resume 1, .resume 1, .resume 1, .call "initial" .RS256, .drop 0] ++ refreshingRun

def blockedCache : KeyCache String :=
  ((answeredCache sampleEnvironment sampleVerifier sampleKeys "initial" .RS256).run
    droppedRun).get (by decide)

theorem blockedCache_reachable :
    (answeredCache sampleEnvironment sampleVerifier sampleKeys "initial" .RS256).Reachable
      blockedCache :=
  Machine.reachable_get (by decide)

/-- The provider answers every fetch, and is blamed. -/
theorem unavailable_after_drop :
    ¬ ∀ c, (answeredCache sampleEnvironment sampleVerifier sampleKeys "initial" .RS256).Reachable
        c → ∀ (i : Nat) (call : KeyFor String), c.calls[i]? = some call → call.kid = "initial" →
          call.algorithm = .RS256 → call.phase ≠ .returned (.error .authenticationUnavailable) :=
  fun h => h blockedCache blockedCache_reachable 1 _ rfl rfl rfl rfl

end BaseSkeleton.Oidc
