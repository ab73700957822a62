import Mathlib.Data.List.AList
import BaseSkeleton.Config

/-!
# Signing keys and their index

The JSON Web Keys a provider publishes, and the index the verifier looks keys up in: which keys
may verify a signature under which algorithm (`keyIsUsable`), the algorithms the configuration
allows (`parseAlgorithms`), and the index over both (`indexKeys`). Turning a key into a decoding
key is `jsonwebtoken`'s: `fromJwk` is a parameter.

A `HashSet` is a list without duplicates in the order it is iterated in; a `HashMap` is an
association list without duplicate keys.
-/

namespace BaseSkeleton.Oidc

/-! ## Algorithms

Those of `jsonwebtoken`, with the names `from_str` accepts. -/

/-- `jsonwebtoken::Algorithm`. -/
inductive Algorithm where
  | HS256 | HS384 | HS512 | ES256 | ES384 | RS256 | RS384 | RS512 | PS256 | PS384 | PS512 | EdDSA
  deriving DecidableEq, Repr

namespace Algorithm

/-- The name `Debug` prints. -/
def name : Algorithm → String
  | HS256 => "HS256"
  | HS384 => "HS384"
  | HS512 => "HS512"
  | ES256 => "ES256"
  | ES384 => "ES384"
  | RS256 => "RS256"
  | RS384 => "RS384"
  | RS512 => "RS512"
  | PS256 => "PS256"
  | PS384 => "PS384"
  | PS512 => "PS512"
  | EdDSA => "EdDSA"

/-- `Algorithm::from_str`, with the text of its error. -/
def fromStr (s : String) : Except String Algorithm :=
  .ofOption "InvalidAlgorithmName" <|
    [HS256, HS384, HS512, ES256, ES384, RS256, RS384, RS512, PS256, PS384, PS512, EdDSA].find?
      fun a => a.name = s

/-- The symmetric algorithms. -/
def isHmac : Algorithm → Bool
  | HS256 => true
  | HS384 => true
  | HS512 => true
  | _ => false

end Algorithm

/-- `HashSet<Algorithm>`. -/
structure AlgorithmSet where
  /-- the order of iteration -/
  iter : List Algorithm
  nodup : iter.Nodup

namespace AlgorithmSet

instance : Membership Algorithm AlgorithmSet :=
  ⟨fun s a => a ∈ s.iter⟩

instance (a : Algorithm) (s : AlgorithmSet) : Decidable (a ∈ s) :=
  inferInstanceAs (Decidable (a ∈ s.iter))

def empty : AlgorithmSet := ⟨[], List.nodup_nil⟩

def insert (a : Algorithm) (s : AlgorithmSet) : AlgorithmSet :=
  if h : a ∈ s.iter then s else ⟨a :: s.iter, List.nodup_cons.mpr ⟨h, s.nodup⟩⟩

theorem mem_insert {a b : Algorithm} {s : AlgorithmSet} : a ∈ s.insert b ↔ a = b ∨ a ∈ s := by
  show a ∈ (s.insert b).iter ↔ a = b ∨ a ∈ s.iter
  unfold insert
  split
  · constructor
    · exact Or.inr
    · rintro (rfl | h)
      · assumption
      · exact h
  · exact List.mem_cons

end AlgorithmSet

def parseAlgorithm (algorithms : AlgorithmSet) (value : String) :
    Except AnyhowError AlgorithmSet := do
  let algorithm ← withContext ("OIDC_ALLOWED_ALGORITHMS contains unsupported value " ++ value)
    (Algorithm.fromStr value)
  .ensure (¬ algorithm.isHmac)
    ["OIDC_ALLOWED_ALGORITHMS cannot enable symmetric HMAC algorithms"]
  return algorithms.insert algorithm

def parseAlgorithms (values : List String) : Except AnyhowError AlgorithmSet := do
  let algorithms ← values.foldlM parseAlgorithm .empty
  .ensure (algorithms.iter ≠ [])
    ["OIDC_ALLOWED_ALGORITHMS must contain at least one algorithm"]
  return algorithms

/-! ## Keys

A key as it is published. Of its parameters only the type and the curve are looked at here. -/

/-- `jwk::PublicKeyUse`. -/
inductive PublicKeyUse where
  | signature
  | encryption
  | other (name : String)
  deriving DecidableEq

/-- `jwk::KeyOperations`. -/
inductive KeyOperations where
  | sign | verify | encrypt | decrypt | wrapKey | unwrapKey | deriveKey | deriveBits
  | other (name : String)
  deriving DecidableEq

/-- `jwk::KeyAlgorithm`: the signature algorithms, and those a key can be encrypted with. -/
inductive KeyAlgorithm where
  | signature (algorithm : Algorithm)
  | RSA1_5
  | RSA_OAEP
  | RSA_OAEP_256
  | UNKNOWN_ALGORITHM

/-- What `Display` prints. -/
def KeyAlgorithm.name : KeyAlgorithm → String
  | signature algorithm => algorithm.name
  | RSA1_5 => "RSA1_5"
  | RSA_OAEP => "RSA_OAEP"
  | RSA_OAEP_256 => "RSA_OAEP_256"
  | UNKNOWN_ALGORITHM => "UNKNOWN_ALGORITHM"

/-- `jwk::AlgorithmParameters`: the type of the key and its material. -/
inductive AlgorithmParameters where
  | ellipticCurve (curve x y : String)
  | rsa (n e : String)
  | octetKey (value : String)
  | octetKeyPair (curve x : String)

/-- `jwk::CommonParameters`, as far as the index reads them. -/
structure CommonParameters where
  publicKeyUse : Option PublicKeyUse
  keyOperations : Option (List KeyOperations)
  keyAlgorithm : Option KeyAlgorithm
  keyId : Option String

structure Jwk where
  common : CommonParameters
  algorithm : AlgorithmParameters

structure JwkSet where
  keys : List Jwk

/-- The key type belongs to the algorithm. -/
def keyTypeMatches : AlgorithmParameters → Algorithm → Bool
  | .rsa _ _, .RS256 => true
  | .rsa _ _, .RS384 => true
  | .rsa _ _, .RS512 => true
  | .rsa _ _, .PS256 => true
  | .rsa _ _, .PS384 => true
  | .rsa _ _, .PS512 => true
  | .ellipticCurve _ _ _, .ES256 => true
  | .ellipticCurve _ _ _, .ES384 => true
  | .octetKeyPair _ _, .EdDSA => true
  | _, _ => false

def keyIsUsable (key : Jwk) (algorithm : Algorithm) : Bool :=
  let useAllowsVerification := key.common.publicKeyUse.all (· = .signature)
  let operationsAllowVerification := key.common.keyOperations.all (.verify ∈ ·)
  let algorithmMatches := key.common.keyAlgorithm.all (·.name = algorithm.name)
  useAllowsVerification && operationsAllowVerification && algorithmMatches &&
    keyTypeMatches key.algorithm algorithm

/-! ## The index

A map from algorithms to maps from key ids, as in the source; a key that is there is not replaced.
-/

/-- `HashMap<Algorithm, HashMap<String, Arc<DecodingKey>>>`. -/
abbrev KeyIndex (K : Type) := AList fun _ : Algorithm => AList fun _ : String => K

variable {K : Type}

namespace KeyIndex

/-- `index.get(&algorithm)?.get(kid)`. -/
def find (index : KeyIndex K) (algorithm : Algorithm) (kid : String) : Option K :=
  (AList.lookup algorithm index).bind (AList.lookup kid)

/-- `index.entry(algorithm).or_default().insert(kid, key)`. -/
def put (index : KeyIndex K) (algorithm : Algorithm) (kid : String) (key : K) : KeyIndex K :=
  AList.insert algorithm (AList.insert kid key ((AList.lookup algorithm index).getD ∅)) index

end KeyIndex

/-- The inner loop of `index_keys`: one key under every allowed algorithm it is usable for.
`decodingKey` is the decoding key once it has been made. -/
def indexUnder (fromJwk : Jwk → Option K) (key : Jwk) (kid : String) :
    List Algorithm → KeyIndex K → Option K → Except AnyhowError (KeyIndex K)
  | [], index, _ => .ok index
  | algorithm :: rest, index, decodingKey =>
    if !keyIsUsable key algorithm then indexUnder fromJwk key kid rest index decodingKey
    -- the first key of a `kid` stays
    else if (index.find algorithm kid).isSome then
      indexUnder fromJwk key kid rest index decodingKey
    else
      match decodingKey.or (fromJwk key) with
      | none => .error ["OIDC JWKS contains an invalid signing key"]
      | some decoded =>
        indexUnder fromJwk key kid rest (index.put algorithm kid decoded) (some decoded)

/-- The body of the outer loop: a key without a `kid` is passed over. -/
def indexKey (fromJwk : Jwk → Option K) (allowedAlgorithms : AlgorithmSet) (index : KeyIndex K)
    (key : Jwk) : Except AnyhowError (KeyIndex K) :=
  match key.common.keyId.filter (· ≠ "") with
  | none => .ok index
  | some kid => indexUnder fromJwk key kid allowedAlgorithms.iter index none

def indexKeys (fromJwk : Jwk → Option K) (keys : JwkSet) (allowedAlgorithms : AlgorithmSet) :
    Except AnyhowError (KeyIndex K) := do
  let index ← keys.keys.foldlM (indexKey fromJwk allowedAlgorithms) ∅
  .ensure (index.entries ≠ []) ["OIDC JWKS contains no usable signing key"]
  return index

/-! ## The allowed algorithms are asymmetric -/

theorem parseAlgorithm_ok {algorithms algorithms' : AlgorithmSet} {value : String}
    (h : parseAlgorithm algorithms value = .ok algorithms') :
    ∃ algorithm, Algorithm.fromStr value = .ok algorithm ∧ algorithm.isHmac = false ∧
      algorithms' = algorithms.insert algorithm := by
  simp only [parseAlgorithm, Except.bind_eq_ok, withContext_eq_ok, Except.ensure_eq_ok,
    Except.pure_eq_ok] at h
  obtain ⟨algorithm, hvalue, _, hmac, rfl⟩ := h
  exact ⟨algorithm, hvalue, by simpa using hmac, rfl⟩

/-- A set of algorithms the configuration can allow holds no HMAC algorithm. -/
theorem isHmac_of_mem_parseAlgorithms {values : List String} {algorithms : AlgorithmSet}
    (h : parseAlgorithms values = .ok algorithms) {algorithm : Algorithm}
    (hmem : algorithm ∈ algorithms) : algorithm.isHmac = false := by
  simp only [parseAlgorithms, Except.bind_eq_ok, Except.ensure_eq_ok, Except.pure_eq_ok] at h
  obtain ⟨parsed, hrun, _, _, rfl⟩ := h
  refine Except.foldlM_invariant (P := fun algorithms => ∀ a ∈ algorithms.iter, a.isHmac = false)
    ?_ (fun a ha => absurd ha List.not_mem_nil) hrun algorithm hmem
  intro before value after hbefore hstep
  obtain ⟨a, _, hasymmetric, rfl⟩ := parseAlgorithm_ok hstep
  intro b hb
  rcases AlgorithmSet.mem_insert.mp hb with rfl | hb
  · exact hasymmetric
  · exact hbefore b hb

end BaseSkeleton.Oidc
