import BaseSkeleton.Oidc.SigningKeys
import BaseSkeleton.Oidc.Verify

/-!
# Revoked keys

A provider revokes a key when it leaves it out of the key sets it serves. The verifier goes on with
the set it has, for as long as it is fresh: what it accepts after `jwks_max_age` was signed with a
key that has been served since.

* `Served` — the key sets a call can have read.
* `reachable_dated` — where the keys come from that calls return, and when.
* `revoked_keys_expire` — what is accepted, and how long a revoked key is.
-/

namespace BaseSkeleton.Oidc

variable {K : Type}

/-- The key set was fetched at its `fetched_at`, or is the one the verifier started with. -/
def Served (initial : CachedKeys K) (log : CacheLog K) (keys : CachedKeys K) : Prop :=
  keys = initial ∨ ∃ j, (keys.fetchedAt, .fetched j keys.index) ∈ log

/-- When call `i` was made, a key set that holds the key had been served for less than
`jwks_max_age`, or was still to be served. -/
def Vouched (v : OidcAccessTokenVerifier) (initial : CachedKeys K) (log : CacheLog K) (i : Nat)
    (kid : String) (algorithm : Algorithm) (key : K) : Prop :=
  ∃ s keys, (s, .called i kid algorithm) ∈ log ∧ Served initial log keys ∧
    keys.key kid algorithm = some key ∧
    (s < keys.fetchedAt + v.jwksMaxAge ∨ s ≤ keys.fetchedAt)

/-- What the phase of call `i` says of the key it has, or has fetched. -/
def Phase.Dated (v : OidcAccessTokenVerifier) (initial : CachedKeys K) (log : CacheLog K) (i : Nat)
    (kid : String) (algorithm : Algorithm) : Phase K → Prop
  | .found key => Vouched v initial log i kid algorithm key
  | .returned (.ok key) => Vouched v initial log i kid algorithm key
  | .installing index fetchedAt =>
    (fetchedAt, .fetched i index) ∈ log ∧ ∃ s ≤ fetchedAt, (s, .called i kid algorithm) ∈ log
  | _ => True

/-- The keys of all calls, and the installed ones, are dated. -/
structure Dated (v : OidcAccessTokenVerifier) (initial : CachedKeys K) (c : KeyCache K) :
    Prop where
  keys : Served initial c.log c.keys
  calls : ∀ (i : Nat) (call : KeyFor K), c.calls[i]? = some call →
    call.phase.Dated v initial c.log i call.kid call.algorithm

variable {v : OidcAccessTokenVerifier} {initial keys : CachedKeys K} {log log' : CacheLog K}
  {i : Nat} {kid kid' : String} {algorithm algorithm' : Algorithm} {key : K} {phase phase' : Phase K}
  {s s' : Shared K} {happenings : List (Happening K)} {c c' : KeyCache K} {t t' : Instant}

/-! ## Later

The log only grows, and what it shows stays shown. -/

theorem Served.mono (h : Served initial log keys) (hlog : log ⊆ log') :
    Served initial log' keys := by
  rcases h with rfl | ⟨j, hfetched⟩
  · exact Or.inl rfl
  · exact Or.inr ⟨j, hlog hfetched⟩

theorem Vouched.mono (h : Vouched v initial log i kid algorithm key) (hlog : log ⊆ log') :
    Vouched v initial log' i kid algorithm key := by
  obtain ⟨s, keys, hcalled, hserved, hkey, hage⟩ := h
  exact ⟨s, keys, hlog hcalled, hserved.mono hlog, hkey, hage⟩

theorem Phase.Dated.mono (h : phase.Dated v initial log i kid algorithm) (hlog : log ⊆ log') :
    phase.Dated v initial log' i kid algorithm := by
  cases phase with
  | found key => exact Vouched.mono h hlog
  | returned result =>
    cases result with
    | ok key => exact Vouched.mono h hlog
    | error e => trivial
  | installing index fetchedAt =>
    obtain ⟨hfetched, s, hle, hcalled⟩ := h
    exact ⟨hlog hfetched, s, hle, hlog hcalled⟩
  | _ => trivial

/-! ## One step

A call has its key from installed keys that are fresh when it reads them, or from a set it has
fetched itself. -/

/-- A key that is read from fresh keys is vouched for. -/
theorem vouched_of_fresh (hserved : Served initial log s.keys) (htimes : ∀ e ∈ log, e.1 ≤ s.now)
    (hcalled : (t, .called i kid algorithm) ∈ log) (hfresh : s.Fresh v)
    (hkey : s.keys.key kid algorithm = some key) : Vouched v initial log i kid algorithm key := by
  have hmade : t ≤ s.now := htimes _ hcalled
  unfold Shared.Fresh at hfresh
  exact ⟨t, s.keys, hcalled, hserved, hkey, by lia⟩

/-- **The call that moves.** -/
theorem Move.dated (h : Move v i kid algorithm s phase s' phase' happenings)
    (hserved : Served initial log s.keys) (htimes : ∀ e ∈ log, e.1 ≤ s.now)
    (hcalled : (t, .called i kid algorithm) ∈ log)
    (hphase : phase.Dated v initial log i kid algorithm) :
    Served initial (stamped s.now happenings ++ log) s'.keys ∧
      phase'.Dated v initial (stamped s.now happenings ++ log) i kid algorithm := by
  have hgrow : log ⊆ stamped s.now happenings ++ log := List.subset_append_right _ _
  have hkept := hserved.mono hgrow
  cases h with
  | readFound key hfresh hkey =>
    exact ⟨hkept, vouched_of_fresh hserved htimes hcalled hfresh hkey⟩
  | returnFound key => exact ⟨hkept, Vouched.mono hphase hgrow⟩
  | recheckFound key hfresh hkey =>
    exact ⟨hkept, (vouched_of_fresh hserved htimes hcalled hfresh hkey).mono hgrow⟩
  | fetch index =>
    exact ⟨hkept, List.mem_cons_self, t, htimes _ hcalled, List.mem_cons_of_mem _ hcalled⟩
  | install index fetchedAt result hresult =>
    obtain ⟨hfetched, u, hle, hmade⟩ := hphase
    refine ⟨Or.inr ⟨i, hgrow hfetched⟩, ?_⟩
    cases result with
    | error e => trivial
    | ok key =>
      have hfind := Except.ofOption_eq_ok.mp hresult.symm
      exact ⟨u, ⟨index, fetchedAt⟩, hgrow hmade, Or.inr ⟨i, hgrow hfetched⟩, hfind, Or.inr hle⟩
  | drop phase s' hawaits hs =>
    have hkeys : s'.keys = s.keys := by
      rw [hs]
      split <;> rfl
    rw [hkeys]
    exact ⟨hkept, trivial⟩
  | _ => exact ⟨hkept, trivial⟩

theorem dated_init (env : Environment K) (v : OidcAccessTokenVerifier) (initial : CachedKeys K) :
    Dated v initial (keyCache env v initial).init where
  keys := Or.inl rfl
  calls i call h := by cases h

/-- **The step lemma.** -/
theorem dated_step (hinv : CacheInv v initial c) (h : Dated v initial c)
    (hstep : CacheHappens v c c') : Dated v initial c' := by
  cases hstep with
  | tick elapsed => exact ⟨h.keys, h.calls⟩
  | call kid algorithm =>
    have hgrow : c.log ⊆ (c.now, .called c.calls.length kid algorithm) :: c.log :=
      List.subset_cons_self _ _
    refine ⟨h.keys.mono hgrow, fun i call hcall => ?_⟩
    rcases Indexed.getElem?_append_cases hcall with hcall | ⟨rfl, rfl⟩
    · exact (h.calls i call hcall).mono hgrow
    · trivial
  | move i call s' phase' happenings hcall hmove =>
    obtain ⟨t, hmade⟩ := hinv.called i call hcall
    obtain ⟨hserved, hphase⟩ :=
      hmove.dated h.keys hinv.reads.times hmade (h.calls i call hcall)
    refine ⟨hserved, fun j other hother => ?_⟩
    rcases Indexed.getElem?_set_cases hother with ⟨rfl, rfl⟩ | ⟨_, hother⟩
    · exact hphase
    · exact (h.calls j other hother).mono (List.subset_append_right _ _)

/-- **The run lemma.** -/
theorem reachable_dated {env : Environment K} (h : (keyCache env v initial).Reachable c) :
    Dated v initial c := by
  refine h.invariant (dated_init env v initial) fun c input c' hreach hdated hstep => ?_
  exact dated_step (reachable_cacheInv hreach) hdated (cache_step_happens hstep)

/-- A call is made at one instant. -/
theorem called_at (h : Log.Justified (Due v initial) log)
    (hcalled : (t, .called i kid algorithm) ∈ log)
    (hcalled' : (t', .called i kid' algorithm') ∈ log) : t = t' := by
  induction log with
  | nil => cases hcalled
  | cons e log ih =>
    obtain ⟨hdue, hrest⟩ := Log.justified_cons.mp h
    rcases List.mem_cons.mp hcalled with rfl | hmem
    · rcases List.mem_cons.mp hcalled' with heq | hmem'
      · cases heq
        rfl
      · exact absurd hmem' (hdue t' kid' algorithm')
    · rcases List.mem_cons.mp hcalled' with rfl | hmem'
      · exact absurd hmem (hdue t kid algorithm)
      · exact ih hrest hmem hmem'

/-! ## Every run

`verify` goes on with the key that `key_for` returns, and its second `decode` checks the signature
with it. -/

/-- The answer of a call that was made for `kid` and `algorithm`. -/
def answerOf (call : KeyFor K) (kid : String) (algorithm : Algorithm) :
    Except AccessTokenVerificationError K :=
  match call.phase with
  | .returned result =>
    if call.kid = kid ∧ call.algorithm = algorithm then result else .error .invalidToken
  | _ => .error .invalidToken

theorem answerOf_eq_ok {call : KeyFor K} (h : answerOf call kid algorithm = .ok key) :
    call.phase = .returned (.ok key) ∧ call.kid = kid ∧ call.algorithm = algorithm := by
  unfold answerOf at h
  split at h
  · next result hphase =>
    split at h
    · next hsame =>
      rw [hphase, h]
      exact ⟨rfl, hsame⟩
    · cases h
  · cases h

/-- **Revoked keys expire.** In every run of the cache, with any number of calls and any answers of
the provider at any time, let `verify` go on with the answer of a call of `key_for` that was made at
`s`:

* it accepts a token only if the signature verifies under a key that was in a set the provider
  served, less than `jwks_max_age` before `s` or later, or in the one the verifier started with;
* so it accepts none from `jwks_max_age` after an instant on, if since then no set has been served
  that holds a key the token was signed with. -/
theorem revoked_keys_expire {jwt : JsonWebToken K} {payload : String → Option Payload}
    {verifies : String → Algorithm → K → Prop} (hjwt : jwt.Documented payload verifies)
    {env : Environment K} (h : (keyCache env v initial).Reachable c) {call : KeyFor K}
    (hcall : c.calls[i]? = some call) {made : Instant}
    (hmade : (made, .called i call.kid call.algorithm) ∈ c.log) (accessToken : String)
    (precheckNow : UInt64) (wallClock : Option UInt64) (decodeNow : UInt64) :
    (∀ p, v.verify jwt accessToken precheckNow wallClock (answerOf call) decodeNow = .ok p →
      ∃ key keys, verifies accessToken call.algorithm key ∧
        keys.key call.kid call.algorithm = some key ∧ Served initial c.log keys ∧
        (made < keys.fetchedAt + v.jwksMaxAge ∨ made ≤ keys.fetchedAt)) ∧
    ∀ revoked, revoked + v.jwksMaxAge ≤ made →
      (∀ keys, Served initial c.log keys → revoked ≤ keys.fetchedAt →
        ∀ key, keys.key call.kid call.algorithm = some key →
          ¬ verifies accessToken call.algorithm key) →
      ∀ p, v.verify jwt accessToken precheckNow wallClock (answerOf call) decodeNow ≠ .ok p := by
  have haccepted : ∀ p,
      v.verify jwt accessToken precheckNow wallClock (answerOf call) decodeNow = .ok p →
      ∃ key keys, verifies accessToken call.algorithm key ∧
        keys.key call.kid call.algorithm = some key ∧ Served initial c.log keys ∧
        (made < keys.fetchedAt + v.jwksMaxAge ∨ made ≤ keys.fetchedAt) := by
    intro p hverify
    obtain ⟨header, kid, _, _, key, token, hheader, _, _, _, _, _, _, hkey, hdecode, _⟩ :=
      verify_ok_iff.mp hverify
    obtain ⟨hphase, rfl, halgorithm⟩ := answerOf_eq_ok hkey
    have hdated := (reachable_dated h).calls i call hcall
    rw [hphase] at hdated
    obtain ⟨s, keys, hcalled, hserved, hfind, hage⟩ := hdated
    rw [called_at (reachable_cacheInv h).justified hmade hcalled]
    -- the header the signature was checked with is the one the key was asked for
    obtain ⟨header', _, hheader', _, _, _, hsignature⟩ := (hjwt _ _ _ _ _).mp hdecode
    cases hheader.symm.trans hheader'
    rw [halgorithm] at hfind ⊢
    exact ⟨key, keys, (hsignature rfl).2, hfind, hserved, hage⟩
  refine ⟨haccepted, fun revoked hlate hrevoked p hverify => ?_⟩
  obtain ⟨key, keys, hverifies, hkey, hserved, hage⟩ := haccepted p hverify
  refine hrevoked keys hserved ?_ key hkey hverifies
  lia

/-- The call of `refreshedCache`, which has fetched the key it returns. -/
def refreshedCall : KeyFor String :=
  ⟨"initial", .RS256, .returned (.ok "public key")⟩

theorem revoked_keys_expire_refreshed :
    ∃ key keys, sampleVerifies "token" .RS256 key ∧ keys.key "initial" .RS256 = some key ∧
      Served sampleKeys refreshedCache.log keys := by
  have hcall : refreshedCache.calls[0]? = some refreshedCall := rfl
  obtain ⟨made, hmade⟩ := (reachable_cacheInv refreshedCache_reachable).called 0 refreshedCall hcall
  obtain ⟨key, keys, hverifies, hkey, hserved, _⟩ :=
    (revoked_keys_expire sampleJwt_documented refreshedCache_reachable hcall hmade "token" 1010
      (some 1010) 1011).1 ⟨"operator-123", {"users:read", "users:write"}⟩ (by rfl)
  exact ⟨key, keys, hverifies, hkey, hserved⟩

end BaseSkeleton.Oidc
