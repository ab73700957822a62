import BaseSkeleton.Environment
import BaseSkeleton.Users.Grammar

/-!
# Bearer tokens

`bearer_token` of `src/presentation/http/auth.rs`, and the route of
`src/presentation/http/metrics.rs` that compares it with `METRICS_PROMETHEUS_BEARER_TOKEN`.

* `bearerToken_eq_some` — what a header must look like.
* `metrics_open_iff` — to which requests the route is open, and for which tokens to none.
-/

namespace BaseSkeleton.Http

open RateLimit (HeaderValue ReadsVisibleAscii isVisibleAscii ascii bytesOf)
open Text (isWhitespace)

/-- `char::to_ascii_lowercase`. -/
def toAsciiLowercase (c : Char) : Char :=
  if 'A' ≤ c ∧ c ≤ 'Z' then .ofNat (c.toNat + 32) else c

/-- `str::eq_ignore_ascii_case`. -/
def eqIgnoreAsciiCase (s t : List Char) : Bool :=
  s.map toAsciiLowercase = t.map toAsciiLowercase

/-- `bearer_token`; `authorization` are the values of the `Authorization` lines in order. -/
def bearerToken (toStr : HeaderValue → Option String) (authorization : List HeaderValue) :
    Option String := do
  -- `HeaderMap::get` returns the first of several values
  let value ← authorization.head?.bind toStr
  let (scheme, token) ← Users.Email.splitOnce ' ' value.toList
  if !eqIgnoreAsciiCase scheme "Bearer".toList || token.isEmpty || token.any isWhitespace then none
  else some (.ofList token)

/-! ## What is accepted

The scheme in any case, one blank, and the token, which is not empty and holds no whitespace. -/

/-- A header line that carries `token`. -/
structure Carries (line : HeaderValue) (token : String) : Prop where
  visible : line.all isVisibleAscii = true
  form : ∃ scheme, (ascii line).toList = scheme ++ ' ' :: token.toList ∧
    eqIgnoreAsciiCase scheme "Bearer".toList = true
  nonEmpty : token ≠ ""
  unspaced : ∀ c ∈ token.toList, isWhitespace c = false

variable {toStr : HeaderValue → Option String} {authorization : List HeaderValue}
  {line : HeaderValue} {token : String}

/-- Whatever is `Bearer` in some case has no space in it. -/
theorem not_mem_of_eqIgnoreAsciiCase {scheme : List Char}
    (h : eqIgnoreAsciiCase scheme "Bearer".toList = true) : ' ' ∉ scheme := by
  intro hmem
  have hlower : toAsciiLowercase ' ' ∈ scheme.map toAsciiLowercase := List.mem_map_of_mem hmem
  rw [of_decide_eq_true h] at hlower
  exact absurd hlower (by decide)

theorem toStr_eq_some (htoStr : ReadsVisibleAscii toStr) {value : String} :
    toStr line = some value ↔ line.all isVisibleAscii = true ∧ ascii line = value := by
  rw [htoStr line, Option.ite_none_right_eq_some, Option.some.injEq]

/-- **What a header must look like.** -/
theorem bearerToken_eq_some (htoStr : ReadsVisibleAscii toStr) :
    bearerToken toStr authorization = some token ↔
      ∃ line, authorization.head? = some line ∧ Carries line token := by
  unfold bearerToken
  simp only [Option.bind_eq_bind, Option.bind_eq_some_iff, Prod.exists, Option.ite_none_left_eq_some,
    Option.some.injEq, toStr_eq_some htoStr, Bool.or_eq_true, Bool.not_eq_true', not_or,
    Bool.not_eq_false, Bool.not_eq_true, Users.Email.splitOnce_eq_some]
  constructor
  · rintro ⟨value, ⟨line, hline, hvisible, rfl⟩, scheme, chars, ⟨hsplit, _⟩,
      ⟨⟨hscheme, hempty⟩, hspace⟩, rfl⟩
    refine ⟨line, hline, hvisible, ⟨scheme, ?_, hscheme⟩, ?_, ?_⟩
    · rw [String.toList_ofList, hsplit]
    · intro hnil
      rw [← String.toList_inj, String.toList_ofList] at hnil
      rw [hnil] at hempty
      cases hempty
    · rw [String.toList_ofList]
      intro c hc
      simpa using List.any_eq_false.mp hspace c hc
  · rintro ⟨line, hline, hcarries⟩
    obtain ⟨scheme, hform, hscheme⟩ := hcarries.form
    refine ⟨ascii line, ⟨line, hline, hcarries.visible, rfl⟩, scheme, token.toList,
      ⟨hform, not_mem_of_eqIgnoreAsciiCase hscheme⟩, ⟨⟨hscheme, ?_⟩, ?_⟩, String.ofList_toList⟩
    · rw [List.isEmpty_eq_false_iff]
      exact fun hnil => hcarries.nonEmpty (String.toList_eq_nil_iff.mp hnil)
    · rw [List.any_eq_false]
      intro c hc
      rw [hcarries.unspaced c hc]
      decide

/-! ## Tokens that can be carried

`to_str` reads visible ASCII only, so a token with any other character is in no line that is read.
-/

/-- The token is made of the characters from `!` to `~`. -/
def IsGraphic (token : String) : Prop :=
  token ≠ "" ∧ ∀ c ∈ token.toList, '!' ≤ c ∧ c ≤ '~'

instance (token : String) : Decidable (IsGraphic token) :=
  inferInstanceAs (Decidable (_ ∧ _))

/-- The visible characters of ASCII that are no whitespace. -/
theorem graphic_of_visible : ∀ n : Fin 127, 32 ≤ n.val ∨ n.val = 9 →
    isWhitespace (.ofNat n) = false → '!' ≤ Char.ofNat n ∧ Char.ofNat n ≤ '~' := by
  decide

theorem graphic_of_mem_ascii (h : line.all isVisibleAscii = true) {c : Char}
    (hc : c ∈ (ascii line).toList) (hspace : isWhitespace c = false) : '!' ≤ c ∧ c ≤ '~' := by
  unfold ascii at hc
  rw [String.toList_ofList, List.mem_map] at hc
  obtain ⟨b, hb, rfl⟩ := hc
  have hvisible := of_decide_eq_true (List.all_eq_true.mp h b hb)
  simp only [UInt8.le_iff_toNat_le, UInt8.lt_iff_toNat_lt, ← UInt8.toNat_inj,
    UInt8.reduceToNat] at hvisible
  exact graphic_of_visible ⟨b.toNat, by omega⟩ (by simp only; omega) hspace

/-- The byte of a graphic character. -/
theorem byte_of_graphic {c : Char} (hlow : '!' ≤ c) (hhigh : c ≤ '~') :
    isVisibleAscii (.ofNat c.toNat) = true ∧ Char.ofNat (UInt8.ofNat c.toNat).toNat = c := by
  rw [Char.le_def, UInt32.le_iff_toNat_le] at hlow hhigh
  have hlow' : 33 ≤ c.toNat := hlow
  have hhigh' : c.toNat ≤ 126 := hhigh
  have hbyte : (UInt8.ofNat c.toNat).toNat = c.toNat := Nat.mod_eq_of_lt (by omega)
  refine ⟨?_, by rw [hbyte, Char.ofNat_toNat]⟩
  unfold isVisibleAscii
  simp only [decide_eq_true_eq, UInt8.le_iff_toNat_le, UInt8.lt_iff_toNat_lt, ← UInt8.toNat_inj,
    UInt8.reduceToNat, hbyte]
  omega

theorem ascii_bytesOf (h : ∀ c ∈ token.toList, '!' ≤ c ∧ c ≤ '~') :
    (bytesOf token).all isVisibleAscii = true ∧ ascii (bytesOf token) = token := by
  unfold bytesOf ascii
  refine ⟨?_, ?_⟩
  · rw [List.all_map, List.all_eq_true]
    exact fun c hc => (byte_of_graphic (h c hc).1 (h c hc).2).1
  · have hback : ∀ c ∈ token.toList, ((fun b : UInt8 => Char.ofNat b.toNat) ∘
        fun c : Char => UInt8.ofNat c.toNat) c = id c :=
      fun c hc => (byte_of_graphic (h c hc).1 (h c hc).2).2
    rw [List.map_map, List.map_congr_left hback, List.map_id, String.ofList_toList]

/-- **The tokens some header carries.** -/
theorem exists_carries_iff : (∃ line, Carries line token) ↔ IsGraphic token := by
  constructor
  · rintro ⟨line, hcarries⟩
    obtain ⟨scheme, hform, _⟩ := hcarries.form
    refine ⟨hcarries.nonEmpty, fun c hc => ?_⟩
    refine graphic_of_mem_ascii hcarries.visible ?_ (hcarries.unspaced c hc)
    rw [hform]
    exact List.mem_append_right _ (List.mem_cons_of_mem _ hc)
  · rintro ⟨hne, hgraphic⟩
    obtain ⟨hvisible, htext⟩ := ascii_bytesOf hgraphic
    refine ⟨bytesOf "Bearer " ++ bytesOf token, ?_, ⟨"Bearer".toList, ?_, by decide⟩, hne, ?_⟩
    · rw [List.all_append, hvisible, Bool.and_true]
      decide
    · have hsplit : ascii (bytesOf "Bearer " ++ bytesOf token) = "Bearer " ++ token := by
        unfold ascii at htext ⊢
        rw [List.map_append, String.ofList_append, htext]
        rfl
      rw [hsplit, String.toList_append]
      rfl
    · exact fun c hc => Text.isWhitespace_of_graphic (hgraphic c hc).1 (hgraphic c hc).2

/-! ## The metrics route

It exists only if a token is configured. -/

/-- What the server answers under `/metrics`. -/
inductive MetricsResponse where
  /-- there is no such route -/
  | notFound
  | unauthorized
  | serviceUnavailable
  | text (metrics : String)
deriving DecidableEq

/-- `TelemetryConfig::from_env` for `METRICS_PROMETHEUS_BEARER_TOKEN`. -/
def prometheusBearerToken (env : Environment) : Except AnyhowError (Option String) :=
  optional env "METRICS_PROMETHEUS_BEARER_TOKEN"

/-- The handler `metrics`; `prometheusText` is what the exporter returns, if there is one. -/
def metrics (toStr : HeaderValue → Option String) (token : String)
    (authorization : List HeaderValue) (prometheusText : Option (Except String String)) :
    MetricsResponse :=
  let authorized := (bearerToken toStr authorization).any fun candidate =>
    candidate.toUTF8.data = token.toUTF8.data
  if !authorized then .unauthorized
  else
    match prometheusText with
    | some (.ok metrics) => .text metrics
    | _ => .serviceUnavailable

/-- `router` of the metrics, with the token of the configuration. -/
def metricsRouter (toStr : HeaderValue → Option String) (token : Option String)
    (authorization : List HeaderValue) (prometheusText : Option (Except String String)) :
    MetricsResponse :=
  match token with
  | some token => metrics toStr token authorization prometheusText
  | none => .notFound

/-- The requests that are let in. -/
theorem metrics_eq_text (htoStr : ReadsVisibleAscii toStr) {prometheusText} {text : String} :
    metrics toStr token authorization prometheusText = .text text ↔
      prometheusText = some (.ok text) ∧
        ∃ line, authorization.head? = some line ∧ Carries line token := by
  rw [← bearerToken_eq_some htoStr]
  have hauthorized : ((bearerToken toStr authorization).any fun candidate =>
      candidate.toUTF8.data = token.toUTF8.data) = true ↔
        bearerToken toStr authorization = some token := by
    rw [Option.any_eq_true]
    constructor
    · rintro ⟨candidate, hcandidate, hsame⟩
      rw [hcandidate, String.toByteArray_inj.mp (ByteArray.ext (of_decide_eq_true hsame))]
    · intro h
      exact ⟨token, h, decide_eq_true rfl⟩
  unfold metrics
  rw [← hauthorized]
  cases ((bearerToken toStr authorization).any fun candidate =>
      candidate.toUTF8.data = token.toUTF8.data) with
  | false => simp
  | true =>
    cases prometheusText with
    | none => simp
    | some exported => cases exported <;> simp

/-- **The metrics are shown to those who send the token, and a token that is not graphic ASCII
shows them to nobody.** Without a token there is no route. -/
theorem metrics_open_iff (htoStr : ReadsVisibleAscii toStr) {env : Environment}
    {configured : Option String} (hconfigured : prometheusBearerToken env = .ok configured)
    (text : String) :
    (∀ authorization prometheusText,
      metricsRouter toStr configured authorization prometheusText = .text text ↔
        ∃ token line, env "METRICS_PROMETHEUS_BEARER_TOKEN" = .ok token ∧
          prometheusText = some (.ok text) ∧ authorization.head? = some line ∧
            Carries line token) ∧
    ((∃ authorization,
        metricsRouter toStr configured authorization (some (.ok text)) = .text text) ↔
      ∃ token, env "METRICS_PROMETHEUS_BEARER_TOKEN" = .ok token ∧ IsGraphic token) := by
  have hrequest : ∀ authorization prometheusText,
      metricsRouter toStr configured authorization prometheusText = .text text ↔
        ∃ token line, env "METRICS_PROMETHEUS_BEARER_TOKEN" = .ok token ∧
          prometheusText = some (.ok text) ∧ authorization.head? = some line ∧
            Carries line token := by
    intro authorization prometheusText
    unfold prometheusBearerToken optional at hconfigured
    cases hvalue : env "METRICS_PROMETHEUS_BEARER_TOKEN" with
    | error e =>
      rw [hvalue] at hconfigured
      cases e with
      | notPresent =>
        cases hconfigured
        simp [metricsRouter]
      | notUnicode debug => cases hconfigured
    | ok value =>
      rw [hvalue] at hconfigured
      simp only at hconfigured
      split at hconfigured
      · next hblank =>
        cases hconfigured
        simp only [metricsRouter, reduceCtorEq, Except.ok.injEq, false_iff, not_exists, not_and]
        rintro token line rfl _ _ hcarries
        -- a blank token would be made of whitespace
        obtain ⟨c, hc⟩ := List.exists_mem_of_ne_nil _ fun hnil =>
          hcarries.nonEmpty (String.toList_eq_nil_iff.mp hnil)
        have hspace := Text.trim_eq_empty.mp hblank c hc
        rw [hcarries.unspaced c hc] at hspace
        cases hspace
      · cases hconfigured
        simp only [metricsRouter, metrics_eq_text htoStr, Except.ok.injEq, exists_and_left,
          exists_eq_left']
  refine ⟨hrequest, ?_⟩
  constructor
  · rintro ⟨authorization, hshown⟩
    obtain ⟨token, line, htoken, _, _, hcarries⟩ := (hrequest _ _).mp hshown
    exact ⟨token, htoken, exists_carries_iff.mp ⟨line, hcarries⟩⟩
  · rintro ⟨token, htoken, hgraphic⟩
    obtain ⟨line, hcarries⟩ := exists_carries_iff.mpr hgraphic
    exact ⟨[line], (hrequest _ _).mpr ⟨token, line, htoken, rfl, rfl, hcarries⟩⟩

/-- The environment of a deployment that shows its metrics. -/
def scrapedEnvironment : Environment := fun name =>
  if name = "METRICS_PROMETHEUS_BEARER_TOKEN" then .ok "scrape-secret" else .error .notPresent

theorem metrics_open_scraped :
    metricsRouter RateLimit.visibleText (some "scrape-secret") [bytesOf "bearer scrape-secret"]
      (some (.ok "# TYPE")) = .text "# TYPE" := by
  have hconfigured : prometheusBearerToken scrapedEnvironment = .ok (some "scrape-secret") := by
    decide
  have htoken : bearerToken RateLimit.visibleText [bytesOf "bearer scrape-secret"] =
      some "scrape-secret" := by
    decide
  obtain ⟨_, hline, hcarries⟩ :=
    (bearerToken_eq_some RateLimit.readsVisibleAscii_visibleText).mp htoken
  cases hline
  exact ((metrics_open_iff RateLimit.readsVisibleAscii_visibleText hconfigured "# TYPE").1 _
    _).mpr ⟨"scrape-secret", _, rfl, rfl, rfl, hcarries⟩

end BaseSkeleton.Http
