import Mathlib.Algebra.GroupWithZero.Nat

/-!
# Shared data types

Time, identifiers and JSON documents as the rest of the model uses them.

Instants are points on one time axis and durations are lengths on it, both counted in
nanoseconds (the resolution of `std::time::Duration`), so that `a + d` is the model of
`Instant + Duration` and of `NOW() + d * INTERVAL '1 second'` alike. Truncated subtraction is
harmless in `now - d`: an instant is never before the origin of the axis.
-/

namespace BaseSkeleton

/-- `std::time::Duration`, `tokio::time::Instant` and `TIMESTAMPTZ` in nanoseconds. -/
abbrev Duration := Nat

abbrev Instant := Nat

/-- `Duration::from_secs`. -/
def Duration.fromSecs (secs : Nat) : Duration := secs * 1000000000

/-- `Duration::MAX`: `u64::MAX` seconds and 999 999 999 nanoseconds. -/
def Duration.greatest : Duration := 2 ^ 64 * 1000000000 - 1

/-- `Duration::saturating_mul`. -/
def Duration.saturatingMul (d : Duration) (n : Nat) : Duration :=
  min (d * n) Duration.greatest

/-- A string that PostgreSQL stores: TEXT has no U+0000. -/
def IsText (s : String) : Prop :=
  '\x00' ∉ s.toList

instance (s : String) : Decidable (IsText s) :=
  inferInstanceAs (Decidable (¬ _))

/-- `uuid::Uuid`, ordered as PostgreSQL orders the `UUID` type. -/
abbrev Uuid := BitVec 128

/-- `serde_json::Value`. The queue stores and returns documents without looking into them; a
number is kept as its text. -/
inductive Value where
  | null
  | bool (b : Bool)
  | number (text : String)
  | string (s : String)
  | array (items : List Value)
  | object (entries : List (String × Value))

mutual

/-- The strings in a document, its keys included. -/
def Value.strings : Value → List String
  | .string s => [s]
  | .array items => itemStrings items
  | .object entries => entryStrings entries
  | _ => []

def itemStrings : List Value → List String
  | [] => []
  | item :: items => item.strings ++ itemStrings items

def entryStrings : List (String × Value) → List String
  | [] => []
  | (key, value) :: entries => key :: value.strings ++ entryStrings entries

end

end BaseSkeleton
