import Mathlib.Data.Finset.Dedup

/-!
# Authenticated principals

What the application knows of a verified access token.
-/

namespace BaseSkeleton

structure AuthenticatedPrincipal where
  subject : String
  scopes : Finset String
  deriving DecidableEq

namespace AuthenticatedPrincipal

def hasScope (p : AuthenticatedPrincipal) (scope : String) : Bool :=
  scope ∈ p.scopes

end AuthenticatedPrincipal

inductive AccessTokenVerificationError where
  | invalidToken
  | authenticationUnavailable
  deriving DecidableEq

end BaseSkeleton
