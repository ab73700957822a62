import BaseSkeleton.Oidc.Metadata

/-!
# The key index is a first-match scan

`index_keys` walks the key set once and skips what is shadowed; what it builds answers like a scan
of the key set for the first key that is usable (`firstUsable`), and it decodes no other key.

* `find_put` — the index as a map from an algorithm and a `kid`.
* `indexUnder_ok` / `indexUnder_error` — what one key does to it.
* `reads_of_foldlM` — the loop over the key set.
* `index_is_first_match` — the index, its failures, and the order of the algorithms.
-/

namespace BaseSkeleton.Oidc

variable {K : Type}

namespace KeyIndex

@[simp] theorem find_empty (algorithm : Algorithm) (kid : String) :
    find (∅ : KeyIndex K) algorithm kid = none := rfl

theorem find_put (index : KeyIndex K) (algorithm algorithm' : Algorithm) (kid kid' : String)
    (key : K) : (index.put algorithm kid key).find algorithm' kid' =
      if algorithm' = algorithm ∧ kid' = kid then some key else index.find algorithm' kid' := by
  unfold find put
  by_cases halgorithm : algorithm' = algorithm
  · subst halgorithm
    rw [AList.lookup_insert, Option.bind_some]
    by_cases hkid : kid' = kid
    · subst hkid
      rw [AList.lookup_insert, if_pos ⟨rfl, rfl⟩]
    · rw [AList.lookup_insert_ne hkid, if_neg fun h => hkid h.2]
      cases AList.lookup algorithm' index with
      | none => rfl
      | some entries => rfl
  · rw [AList.lookup_insert_ne halgorithm, if_neg fun h => halgorithm h.1]

/-- An index that is not empty has a key in it. -/
def Filled (index : KeyIndex K) : Prop :=
  index.entries ≠ [] → ∃ algorithm kid, (index.find algorithm kid).isSome

theorem filled_put (index : KeyIndex K) (algorithm : Algorithm) (kid : String) (key : K) :
    (index.put algorithm kid key).Filled := by
  intro _
  refine ⟨algorithm, kid, ?_⟩
  rw [find_put, if_pos ⟨rfl, rfl⟩]
  rfl

/-- An empty index has no key. -/
theorem find_of_entries_nil {index : KeyIndex K} (h : index.entries = []) (algorithm : Algorithm)
    (kid : String) : index.find algorithm kid = none := by
  have hempty : index = ∅ := AList.ext h
  rw [hempty, find_empty]

end KeyIndex

/-! ## The scan

What the index stands for, without the index. -/

/-- The first key of the document with this `kid` that is usable under the algorithm. -/
def firstUsable (keys : JwkSet) (algorithm : Algorithm) (kid : String) : Option Jwk :=
  keys.keys.find? fun key => key.common.keyId = some kid ∧ keyIsUsable key algorithm = true

variable {fromJwk : Jwk → Option K} {key : Jwk} {kid kid' : String} {algorithm : Algorithm}
  {algorithms : List Algorithm} {allowedAlgorithms : AlgorithmSet} {index index' : KeyIndex K}
  {decodingKey : Option K}

/-! ## One key

A key is put under each algorithm it is usable for, unless another key is there already. It is
decoded once, at the first algorithm it is put under. -/

/-- What one key does to the index, under the algorithms that are still to be looked at. -/
structure Absorbed (fromJwk : Jwk → Option K) (key : Jwk) (kid : String)
    (algorithms : List Algorithm) (index index' : KeyIndex K) : Prop where
  kept : ∀ algorithm kid' decoded, index.find algorithm kid' = some decoded →
    index'.find algorithm kid' = some decoded
  gained : ∀ algorithm kid', index.find algorithm kid' = none →
    index'.find algorithm kid' =
      if algorithm ∈ algorithms ∧ kid' = kid ∧ keyIsUsable key algorithm = true then fromJwk key
      else none
  decodes : ∀ algorithm ∈ algorithms, keyIsUsable key algorithm = true →
    index.find algorithm kid = none → (fromJwk key).isSome
  filled : index.Filled → index'.Filled

/-- An algorithm the key is passed over for. -/
theorem Absorbed.cons_skipped {first : Algorithm}
    (h : Absorbed fromJwk key kid algorithms index index')
    (hskipped : keyIsUsable key first = false ∨ (index.find first kid).isSome) :
    Absorbed fromJwk key kid (first :: algorithms) index index' := by
  have hold : ∀ algorithm, algorithm ∈ first :: algorithms → keyIsUsable key algorithm = true →
      index.find algorithm kid = none → algorithm ∈ algorithms := by
    intro algorithm hmem husable hnone
    rcases List.mem_cons.mp hmem with heq | hmem
    · rw [← heq, husable, hnone] at hskipped
      simp at hskipped
    · exact hmem
  refine ⟨h.kept, fun algorithm kid' hnone => ?_, fun algorithm hmem husable hnone => ?_, h.filled⟩
  · rw [h.gained algorithm kid' hnone]
    refine if_congr ?_ rfl rfl
    constructor
    · intro ⟨hmem, hrest⟩
      exact ⟨List.mem_cons_of_mem _ hmem, hrest⟩
    · intro ⟨hmem, hkid, husable⟩
      rw [hkid] at hnone
      exact ⟨hold algorithm hmem husable hnone, hkid, husable⟩
  · exact h.decodes algorithm (hold algorithm hmem husable hnone) husable hnone

/-- An algorithm the key is the first one for. -/
theorem Absorbed.cons_put {first : Algorithm} {decoded : K}
    (h : Absorbed fromJwk key kid algorithms (index.put first kid decoded) index')
    (hdecoded : fromJwk key = some decoded) (husable : keyIsUsable key first = true)
    (hnew : index.find first kid = none) :
    Absorbed fromJwk key kid (first :: algorithms) index index' where
  kept algorithm kid' decoded' hfound := by
    refine h.kept algorithm kid' decoded' ?_
    rw [KeyIndex.find_put, if_neg ?_, hfound]
    rintro ⟨rfl, rfl⟩
    rw [hnew] at hfound
    cases hfound
  gained algorithm kid' hnone := by
    by_cases hhere : algorithm = first ∧ kid' = kid
    · obtain ⟨rfl, rfl⟩ := hhere
      rw [if_pos ⟨List.mem_cons_self, rfl, husable⟩, hdecoded]
      refine h.kept algorithm kid' decoded ?_
      rw [KeyIndex.find_put, if_pos ⟨rfl, rfl⟩]
    · have hnone' : (index.put first kid decoded).find algorithm kid' = none := by
        rw [KeyIndex.find_put, if_neg hhere, hnone]
      rw [h.gained algorithm kid' hnone']
      refine if_congr ?_ rfl rfl
      rw [List.mem_cons, or_and_right]
      constructor
      · exact Or.inr
      · rintro (⟨heq, hkid, _⟩ | hrest)
        · exact absurd ⟨heq, hkid⟩ hhere
        · exact hrest
  decodes _ _ _ _ := by rw [hdecoded]; rfl
  filled _ := h.filled (KeyIndex.filled_put index first kid decoded)

/-- A key is decoded at most once. -/
theorem or_fromJwk (hmade : ∀ decoded, decodingKey = some decoded → fromJwk key = some decoded) :
    decodingKey.or (fromJwk key) = fromJwk key := by
  cases decodingKey with
  | none => rfl
  | some decoded =>
    rw [hmade decoded rfl]
    rfl

theorem indexUnder_ok
    (hmade : ∀ decoded, decodingKey = some decoded → fromJwk key = some decoded)
    (h : indexUnder fromJwk key kid algorithms index decodingKey = .ok index') :
    Absorbed fromJwk key kid algorithms index index' := by
  induction algorithms generalizing index decodingKey with
  | nil =>
    cases h
    refine ⟨fun _ _ _ hfound => hfound, fun _ _ hnone => ?_, by simp, id⟩
    rw [hnone, if_neg fun hmem => List.not_mem_nil hmem.1]
  | cons first rest ih =>
    simp only [indexUnder, or_fromJwk hmade] at h
    split at h
    · next hunusable => exact (ih hmade h).cons_skipped (Or.inl (by simpa using hunusable))
    · next husable =>
      split at h
      · next hshadowed => exact (ih hmade h).cons_skipped (Or.inr hshadowed)
      · next hnew =>
        split at h
        · cases h
        · next decoded hdecoded =>
          refine Absorbed.cons_put (ih ?_ h) hdecoded (by simpa using husable) (by simpa using hnew)
          intro decoded' hsame
          rw [hdecoded, hsame]

/-- A key is decoded only where it is the first one. -/
theorem indexUnder_error {error : AnyhowError}
    (hmade : ∀ decoded, decodingKey = some decoded → fromJwk key = some decoded)
    (h : indexUnder fromJwk key kid algorithms index decodingKey = .error error) :
    error = ["OIDC JWKS contains an invalid signing key"] ∧ fromJwk key = none ∧
      ∃ algorithm ∈ algorithms, keyIsUsable key algorithm = true ∧
        index.find algorithm kid = none := by
  induction algorithms generalizing index decodingKey with
  | nil => cases h
  | cons first rest ih =>
    have hlater : (∃ algorithm ∈ rest, keyIsUsable key algorithm = true ∧
        index.find algorithm kid = none) → ∃ algorithm ∈ first :: rest,
        keyIsUsable key algorithm = true ∧ index.find algorithm kid = none := by
      rintro ⟨algorithm, hmem, hrest⟩
      exact ⟨algorithm, List.mem_cons_of_mem _ hmem, hrest⟩
    simp only [indexUnder, or_fromJwk hmade] at h
    split at h
    · obtain ⟨herror, hkey, hfirst⟩ := ih hmade h
      exact ⟨herror, hkey, hlater hfirst⟩
    · next husable =>
      split at h
      · obtain ⟨herror, hkey, hfirst⟩ := ih hmade h
        exact ⟨herror, hkey, hlater hfirst⟩
      · next hnew =>
        split at h
        · next hundecodable =>
          refine ⟨(Except.error.inj h).symm, hundecodable, first, List.mem_cons_self, ?_, ?_⟩
          · simpa using husable
          · simpa using hnew
        · next decoded hdecoded =>
          -- a key that has been decoded does not fail any more
          obtain ⟨_, hkey, _⟩ := ih (fun decoded' hsame => by rw [hdecoded, hsame]) h
          rw [hdecoded] at hkey
          cases hkey

/-! ## The loop over the key set

The index of the keys that were seen answers like the scan of these keys, and fails where the scan
would have to decode a key that cannot be. -/

variable {seen : List Jwk}

theorem firstUsable_append (seen : List Jwk) (key : Jwk) (after : List Jwk) (algorithm : Algorithm)
    (kid : String) : firstUsable ⟨seen ++ key :: after⟩ algorithm kid =
      (firstUsable ⟨seen⟩ algorithm kid).or
        (if key.common.keyId = some kid ∧ keyIsUsable key algorithm = true then some key
          else firstUsable ⟨after⟩ algorithm kid) := by
  simp only [firstUsable, List.find?_append, List.find?_cons]
  congr 1
  split <;> simp_all

/-- The index answers like a scan of the keys the loop has seen. -/
structure IndexReads (fromJwk : Jwk → Option K) (allowedAlgorithms : AlgorithmSet) (seen : List Jwk)
    (index : KeyIndex K) : Prop where
  find_eq : ∀ algorithm kid, index.find algorithm kid =
    if algorithm ∈ allowedAlgorithms ∧ kid ≠ "" then
      (firstUsable ⟨seen⟩ algorithm kid).bind fromJwk
    else none
  decodes : ∀ algorithm ∈ allowedAlgorithms, ∀ kid, kid ≠ "" → ∀ key,
    firstUsable ⟨seen⟩ algorithm kid = some key → (fromJwk key).isSome
  filled : index.Filled

theorem reads_empty : IndexReads fromJwk allowedAlgorithms [] (∅ : KeyIndex K) := by
  refine ⟨fun algorithm kid => ?_, fun _ _ _ _ _ hfirst => ?_, fun hne => absurd rfl hne⟩
  · simp [firstUsable]
  · cases hfirst

/-- Under an algorithm and a `kid` that can be asked for, a key is missing only if there is none. -/
theorem IndexReads.firstUsable_eq_none (h : IndexReads fromJwk allowedAlgorithms seen index)
    (halgorithm : algorithm ∈ allowedAlgorithms) (hkid : kid ≠ "")
    (hnone : index.find algorithm kid = none) : firstUsable ⟨seen⟩ algorithm kid = none := by
  rw [h.find_eq, if_pos ⟨halgorithm, hkid⟩] at hnone
  cases hfirst : firstUsable ⟨seen⟩ algorithm kid with
  | none => rfl
  | some key =>
    have hdecodes := h.decodes algorithm halgorithm kid hkid key hfirst
    rw [hfirst, Option.bind_some] at hnone
    rw [hnone] at hdecodes
    cases hdecodes

theorem filter_keyId (key : Jwk) :
    key.common.keyId.filter (fun kid => decide (kid ≠ "")) = some kid ↔
      key.common.keyId = some kid ∧ kid ≠ "" := by
  simp [Option.filter_eq_some_iff]

theorem IndexReads.step (h : IndexReads fromJwk allowedAlgorithms seen index)
    (hstep : indexKey fromJwk allowedAlgorithms index key = .ok index') :
    IndexReads fromJwk allowedAlgorithms (seen ++ [key]) index' := by
  unfold indexKey at hstep
  split at hstep
  · next hnokid =>
    cases hstep
    -- A key without an id is passed over, and it is the first of nothing.
    have hsame : ∀ algorithm kid, kid ≠ "" →
        firstUsable ⟨seen ++ [key]⟩ algorithm kid = firstUsable ⟨seen⟩ algorithm kid := by
      intro algorithm kid hkid
      have hother : key.common.keyId ≠ some kid := by
        intro hkey
        rw [(filter_keyId key).mpr ⟨hkey, hkid⟩] at hnokid
        cases hnokid
      rw [firstUsable_append, if_neg fun hboth => hother hboth.1]
      simp [firstUsable]
    refine ⟨fun algorithm kid => ?_, fun algorithm halgorithm kid hkid key' hfirst => ?_, h.filled⟩
    · rw [h.find_eq]
      split
      · next hasked => rw [hsame algorithm kid hasked.2]
      · rfl
    · rw [hsame algorithm kid hkid] at hfirst
      exact h.decodes algorithm halgorithm kid hkid key' hfirst
  · next own hown =>
    obtain ⟨hkey, hnonempty⟩ := (filter_keyId key).mp hown
    have habsorbed := indexUnder_ok (by simp) hstep
    -- The key goes behind all keys before it: it is the first one only where these had none.
    have happend : ∀ algorithm kid, firstUsable ⟨seen ++ [key]⟩ algorithm kid =
        (firstUsable ⟨seen⟩ algorithm kid).or
          (if kid = own ∧ keyIsUsable key algorithm = true then some key else none) := by
      intro algorithm kid
      rw [firstUsable_append]
      congr 1
      exact if_congr (by rw [hkey, Option.some.injEq, eq_comm]) rfl rfl
    refine ⟨fun algorithm kid => ?_, fun algorithm halgorithm kid hkid key' hfirst => ?_,
      habsorbed.filled h.filled⟩
    · rw [happend]
      cases hbefore : index.find algorithm kid with
      | some decoded =>
        -- An entry that is there is kept by `or_insert`.
        rw [habsorbed.kept algorithm kid decoded hbefore]
        rw [h.find_eq] at hbefore
        split at hbefore
        · next hasked =>
          obtain ⟨first, hfirst, hdecoded⟩ := Option.bind_eq_some_iff.mp hbefore
          rw [if_pos hasked, hfirst, Option.some_or, Option.bind_some, hdecoded]
        · cases hbefore
      | none =>
        -- An entry that is missing is made of this key, if the key is usable with the algorithm.
        rw [habsorbed.gained algorithm kid hbefore]
        by_cases hasked : algorithm ∈ allowedAlgorithms ∧ kid ≠ ""
        · rw [if_pos hasked, h.firstUsable_eq_none hasked.1 hasked.2 hbefore, Option.none_or]
          have hmem : algorithm ∈ allowedAlgorithms.iter := hasked.1
          simp only [hmem, true_and]
          split <;> rfl
        · rw [if_neg hasked, if_neg]
          rintro ⟨hmem, hkid, _⟩
          exact hasked ⟨hmem, hkid ▸ hnonempty⟩
    · rw [happend] at hfirst
      cases hbefore : firstUsable ⟨seen⟩ algorithm kid with
      | some first =>
        rw [hbefore, Option.some_or] at hfirst
        rw [← Option.some.inj hfirst]
        exact h.decodes algorithm halgorithm kid hkid first hbefore
      | none =>
        rw [hbefore, Option.none_or] at hfirst
        split at hfirst
        · next hmatches =>
          rw [← Option.some.inj hfirst]
          refine habsorbed.decodes algorithm halgorithm hmatches.2 ?_
          rw [h.find_eq, ← hmatches.1, hbefore]
          simp
        · cases hfirst

/-- A key the loop fails at is the first usable one for something. -/
theorem IndexReads.fails (h : IndexReads fromJwk allowedAlgorithms seen index) {error : AnyhowError}
    (hstep : indexKey fromJwk allowedAlgorithms index key = .error error) (after : List Jwk) :
    error = ["OIDC JWKS contains an invalid signing key"] ∧ fromJwk key = none ∧
      ∃ algorithm ∈ allowedAlgorithms, ∃ kid, kid ≠ "" ∧
        firstUsable ⟨seen ++ key :: after⟩ algorithm kid = some key := by
  unfold indexKey at hstep
  split at hstep
  · cases hstep
  · next own hown =>
    obtain ⟨hkey, hnonempty⟩ := (filter_keyId key).mp hown
    obtain ⟨herror, hundecodable, algorithm, hmem, husable, hnone⟩ :=
      indexUnder_error (by simp) hstep
    refine ⟨herror, hundecodable, algorithm, hmem, own, hnonempty, ?_⟩
    rw [firstUsable_append, h.firstUsable_eq_none hmem hnonempty hnone, if_pos ⟨hkey, husable⟩]
    rfl

theorem reads_of_foldlM {keys : List Jwk}
    (h : keys.foldlM (indexKey fromJwk allowedAlgorithms) ∅ = .ok index) :
    IndexReads fromJwk allowedAlgorithms keys index :=
  Except.foldlM_seen_invariant (P := IndexReads fromJwk allowedAlgorithms) (l := keys)
    (fun _ _ _ _ hreads hstep => hreads.step hstep) reads_empty h

/-! ## The index as a scan

The order of the algorithms decides nothing, since a key is put under each of them by itself. -/

/-- A key that is the first usable one for something cannot be decoded. -/
def Undecodable (fromJwk : Jwk → Option K) (keys : JwkSet) (allowedAlgorithms : AlgorithmSet) :
    Prop :=
  ∃ algorithm ∈ allowedAlgorithms, ∃ kid, kid ≠ "" ∧
    ∃ key, firstUsable keys algorithm kid = some key ∧ fromJwk key = none

/-- No key is usable for anything. -/
def Unusable (keys : JwkSet) (allowedAlgorithms : AlgorithmSet) : Prop :=
  ∀ algorithm ∈ allowedAlgorithms, ∀ kid, kid ≠ "" → firstUsable keys algorithm kid = none

open Classical in
/-- What `index_keys` is for: a lookup that scans the key set, unless the key set is rejected. -/
noncomputable def scanIndex (fromJwk : Jwk → Option K) (keys : JwkSet)
    (allowedAlgorithms : AlgorithmSet) : Except AnyhowError (Algorithm → String → Option K) :=
  if Undecodable fromJwk keys allowedAlgorithms then
    .error ["OIDC JWKS contains an invalid signing key"]
  else if Unusable keys allowedAlgorithms then
    .error ["OIDC JWKS contains no usable signing key"]
  else
    .ok fun algorithm kid =>
      if algorithm ∈ allowedAlgorithms ∧ kid ≠ "" then (firstUsable keys algorithm kid).bind fromJwk
      else none

variable {keys : JwkSet}

theorem IndexReads.not_undecodable (h : IndexReads fromJwk allowedAlgorithms keys.keys index) :
    ¬ Undecodable fromJwk keys allowedAlgorithms := by
  rintro ⟨algorithm, halgorithm, kid, hkid, key, hfirst, hundecodable⟩
  have hdecodes := h.decodes algorithm halgorithm kid hkid key hfirst
  rw [hundecodable] at hdecodes
  cases hdecodes

theorem IndexReads.entries_eq_nil_iff (h : IndexReads fromJwk allowedAlgorithms keys.keys index) :
    index.entries = [] ↔ Unusable keys allowedAlgorithms := by
  constructor
  · intro hempty algorithm halgorithm kid hkid
    exact h.firstUsable_eq_none halgorithm hkid (KeyIndex.find_of_entries_nil hempty algorithm kid)
  · intro hunusable
    by_contra hne
    obtain ⟨algorithm, kid, hfound⟩ := h.filled hne
    rw [h.find_eq] at hfound
    split at hfound
    · next hasked =>
      have hnone : firstUsable ⟨keys.keys⟩ algorithm kid = none :=
        hunusable algorithm hasked.1 kid hasked.2
      rw [hnone] at hfound
      cases hfound
    · cases hfound

/-- **The index refines the scan**: the same answers, and the same errors. -/
theorem indexKeys_refines (fromJwk : Jwk → Option K) (keys : JwkSet)
    (allowedAlgorithms : AlgorithmSet) :
    (indexKeys fromJwk keys allowedAlgorithms).map KeyIndex.find =
      scanIndex fromJwk keys allowedAlgorithms := by
  cases hloop : keys.keys.foldlM (indexKey fromJwk allowedAlgorithms) ∅ with
  | error error =>
    obtain ⟨before, key, after, index, hkeys, hbefore, hfails⟩ := Except.foldlM_eq_error hloop
    obtain ⟨rfl, hundecodable, algorithm, halgorithm, kid, hkid, hfirst⟩ :=
      (reads_of_foldlM hbefore).fails hfails after
    rw [← hkeys] at hfirst
    have hrejected : Undecodable fromJwk keys allowedAlgorithms :=
      ⟨algorithm, halgorithm, kid, hkid, key, hfirst, hundecodable⟩
    rw [scanIndex, if_pos hrejected, indexKeys, hloop]
    rfl
  | ok index =>
    have hreads := reads_of_foldlM hloop
    rw [scanIndex, if_neg hreads.not_undecodable, indexKeys, hloop]
    by_cases hempty : index.entries = []
    · rw [if_pos (hreads.entries_eq_nil_iff.mp hempty)]
      show (Except.bind (Except.ensure (index.entries ≠ []) _) _).map _ = _
      rw [Except.ensure, if_neg (not_not_intro hempty)]
      rfl
    · rw [if_neg fun hunusable => hempty (hreads.entries_eq_nil_iff.mpr hunusable)]
      show (Except.bind (Except.ensure (index.entries ≠ []) _) _).map _ = _
      rw [Except.ensure, if_pos hempty]
      show Except.ok index.find = _
      congr 1
      funext algorithm kid
      exact hreads.find_eq algorithm kid

/-- The scan looks at the members of the set, and decodes first keys only. -/
theorem scanIndex_congr {fromJwk' : Jwk → Option K} {allowedAlgorithms' : AlgorithmSet}
    (hmem : ∀ algorithm, algorithm ∈ allowedAlgorithms' ↔ algorithm ∈ allowedAlgorithms)
    (hdecode : ∀ algorithm ∈ allowedAlgorithms, ∀ kid, kid ≠ "" → ∀ key,
      firstUsable keys algorithm kid = some key → fromJwk' key = fromJwk key) :
    scanIndex fromJwk' keys allowedAlgorithms' = scanIndex fromJwk keys allowedAlgorithms := by
  have hundecodable : Undecodable fromJwk' keys allowedAlgorithms' ↔
      Undecodable fromJwk keys allowedAlgorithms := by
    constructor
    · rintro ⟨algorithm, halgorithm, kid, hkid, key, hfirst, hnone⟩
      have halgorithm' := (hmem algorithm).mp halgorithm
      rw [hdecode algorithm halgorithm' kid hkid key hfirst] at hnone
      exact ⟨algorithm, halgorithm', kid, hkid, key, hfirst, hnone⟩
    · rintro ⟨algorithm, halgorithm, kid, hkid, key, hfirst, hnone⟩
      rw [← hdecode algorithm halgorithm kid hkid key hfirst] at hnone
      exact ⟨algorithm, (hmem algorithm).mpr halgorithm, kid, hkid, key, hfirst, hnone⟩
  have hunusable : Unusable keys allowedAlgorithms' ↔ Unusable keys allowedAlgorithms := by
    simp only [Unusable, hmem]
  have hfind : ∀ algorithm kid,
      (if algorithm ∈ allowedAlgorithms' ∧ kid ≠ "" then
        (firstUsable keys algorithm kid).bind fromJwk' else none) =
      if algorithm ∈ allowedAlgorithms ∧ kid ≠ "" then
        (firstUsable keys algorithm kid).bind fromJwk else none := by
    intro algorithm kid
    by_cases hasked : algorithm ∈ allowedAlgorithms ∧ kid ≠ ""
    · rw [if_pos hasked, if_pos ⟨(hmem algorithm).mpr hasked.1, hasked.2⟩]
      cases hfirst : firstUsable keys algorithm kid with
      | none => rfl
      | some key => exact hdecode algorithm hasked.1 kid hasked.2 key hfirst
    · rw [if_neg hasked, if_neg fun hasked' => hasked ⟨(hmem algorithm).mp hasked'.1, hasked'.2⟩]
  classical
  unfold scanIndex
  refine if_congr hundecodable rfl (if_congr hunusable rfl (congrArg Except.ok ?_))
  funext algorithm kid
  exact hfind algorithm kid

/-- **The key index agrees with the plain first-match scan.** It answers with the decoded first
usable key; it is refused just if a first usable key cannot be decoded or there is none; it does
not depend on the decoding of any other key, nor on the order of the algorithms. -/
theorem index_is_first_match (fromJwk : Jwk → Option K) (keys : JwkSet)
    (allowedAlgorithms : AlgorithmSet) :
    (∀ index, indexKeys fromJwk keys allowedAlgorithms = .ok index →
      ∀ (fetchedAt : Instant) (algorithm : Algorithm) (kid : String),
        algorithm ∈ allowedAlgorithms → kid ≠ "" →
        (∀ key, firstUsable keys algorithm kid = some key → ∃ decoded, fromJwk key = some decoded ∧
          CachedKeys.key ⟨index, fetchedAt⟩ kid algorithm = some decoded) ∧
        (firstUsable keys algorithm kid = none →
          CachedKeys.key ⟨index, fetchedAt⟩ kid algorithm = none)) ∧
    ((∃ error, indexKeys fromJwk keys allowedAlgorithms = .error error) ↔
      (∃ algorithm ∈ allowedAlgorithms, ∃ kid, kid ≠ "" ∧
        ∃ key, firstUsable keys algorithm kid = some key ∧ fromJwk key = none) ∨
      ∀ algorithm ∈ allowedAlgorithms, ∀ kid, kid ≠ "" →
        firstUsable keys algorithm kid = none) ∧
    (∀ fromJwk' : Jwk → Option K,
      (∀ algorithm ∈ allowedAlgorithms, ∀ kid, kid ≠ "" → ∀ key,
        firstUsable keys algorithm kid = some key → fromJwk' key = fromJwk key) →
      (indexKeys fromJwk' keys allowedAlgorithms).map KeyIndex.find =
        (indexKeys fromJwk keys allowedAlgorithms).map KeyIndex.find) ∧
    ∀ allowedAlgorithms' : AlgorithmSet,
      (∀ algorithm, algorithm ∈ allowedAlgorithms' ↔ algorithm ∈ allowedAlgorithms) →
      (indexKeys fromJwk keys allowedAlgorithms').map KeyIndex.find =
        (indexKeys fromJwk keys allowedAlgorithms).map KeyIndex.find := by
  have hrefines := indexKeys_refines fromJwk keys allowedAlgorithms
  refine ⟨?_, ?_, ?_, ?_⟩
  · intro index hok fetchedAt algorithm kid halgorithm hkid
    -- The index that was built is the one of the scan, read at one pair.
    have hkey : CachedKeys.key ⟨index, fetchedAt⟩ kid algorithm =
        (firstUsable keys algorithm kid).bind fromJwk := by
      rw [hok, scanIndex] at hrefines
      split at hrefines
      · cases hrefines
      · split at hrefines
        · cases hrefines
        · have hfind := congrFun₂ (Except.ok.inj hrefines) algorithm kid
          rwa [if_pos ⟨halgorithm, hkid⟩] at hfind
    rw [hkey]
    constructor
    · intro key hfirst
      cases hdecoded : fromJwk key with
      | some decoded => exact ⟨decoded, rfl, by rw [hfirst, Option.bind_some, hdecoded]⟩
      | none =>
        have hrejected : Undecodable fromJwk keys allowedAlgorithms :=
          ⟨algorithm, halgorithm, kid, hkid, key, hfirst, hdecoded⟩
        rw [hok, scanIndex, if_pos hrejected] at hrefines
        cases hrefines
    · intro hnone
      rw [hnone]
      rfl
  · -- The scan fails for the two reasons, and the code fails if and only if the scan does.
    show _ ↔ Undecodable fromJwk keys allowedAlgorithms ∨ Unusable keys allowedAlgorithms
    rw [scanIndex] at hrefines
    cases hresult : indexKeys fromJwk keys allowedAlgorithms with
    | error error =>
      refine iff_of_true ⟨error, rfl⟩ ?_
      rw [hresult] at hrefines
      split at hrefines
      · next hrejected => exact Or.inl hrejected
      · split at hrefines
        · next hrejected => exact Or.inr hrejected
        · cases hrefines
    | ok index =>
      refine iff_of_false (fun ⟨error, herror⟩ => (nomatch herror)) ?_
      rw [hresult] at hrefines
      split at hrefines
      · cases hrefines
      · next hdecodable =>
        split at hrefines
        · cases hrefines
        · next husable => exact fun hrejected => hrejected.elim hdecodable husable
  · -- The scan decodes the first usable keys and no others.
    intro fromJwk' hdecode
    rw [hrefines, indexKeys_refines]
    exact scanIndex_congr (fun _ => Iff.rfl) hdecode
  · intro allowedAlgorithms' hmem
    rw [hrefines, indexKeys_refines]
    exact scanIndex_congr hmem fun _ _ _ _ _ _ => rfl

/-- An unusable key, the one that signs, and a later one under its name that is no key at all. -/
def shadowedKeys : JwkSet :=
  ⟨[⟨⟨some .signature, some [.sign], some (.signature .RS256), some "initial"⟩, .rsa "n" "AQAB"⟩,
    ⟨⟨some .signature, none, some (.signature .RS256), some "initial"⟩, .rsa "n" "AQAB"⟩,
    ⟨⟨some .signature, none, some (.signature .RS256), some "initial"⟩,
      .rsa "not valid base64!" "AQAB"⟩]⟩

/-- Only base64 decodes. -/
def decodesBase64 (key : Jwk) : Option String :=
  match key.algorithm with
  | .rsa n _ => if n = "n" then some "public key" else none
  | _ => none

theorem index_is_first_match_shadowed :
    ∃ index, indexKeys decodesBase64 shadowedKeys sampleVerifier.allowedAlgorithms = .ok index ∧
      CachedKeys.key ⟨index, 0⟩ "initial" .RS256 = some "public key" := by
  refine ⟨_, rfl, ?_⟩
  obtain ⟨decoded, hdecoded, hkey⟩ := ((index_is_first_match decodesBase64 shadowedKeys
    sampleVerifier.allowedAlgorithms).1 _ rfl 0 .RS256 "initial" (by decide) (by decide)).1 _ rfl
  rw [hkey, ← hdecoded]
  rfl

end BaseSkeleton.Oidc
