import MailserverUi.L3Service.Auth

/-!
# OpenID Connect claims (`oidc.py`)

The mapping of the provider's claims to a principal. A claim is a JSON value;
of one that is neither text nor a list only its truth value and its `str()`
matter, and of a list also the `str()` of each item.
-/
namespace MailserverUi.L3.Oidc

open Py Auth

inductive Claim where
  | none
  | text (s : Str)
  | list (items : List Str) (str : Str)
  | other (truthy : Bool) (str : Str)
  deriving DecidableEq, Repr

def Claim.truthy : Claim → Bool
  | .none => false
  | .text s => s ≠ []
  | .list items _ => items ≠ []
  | .other truthy _ => truthy

/-- `str(value)`. -/
def Claim.str : Claim → Str
  | .none => "None".toList
  | .text s => s
  | .list _ str => str
  | .other _ str => str

/-- `x or y`. -/
def Claim.or (x y : Claim) : Claim := if x.truthy then x else y

/-- The claims of one sign-in; a name that is not there is `none`. -/
abbrev Claims := Str → Option Claim

/-- `claims.get(name)`. -/
def Claims.get (claims : Claims) (name : String) : Claim := (claims name.toList).getD .none

/-- The settings that a sign-in reads.
mirrors backend/app/models/settings_models.py:25-46 -/
structure OidcSettings where
  enabled : Bool
  oidcOnly : Bool
  adminGroupClaim : Str
  adminGroup : Str
  managerGroupClaim : Str
  managerGroup : Str
  restrictToGroups : Bool
  deriving DecidableEq, Repr

/-- mirrors backend/app/services/oidc.py:114-123 -/
def claimGroups (claims : Claims) (claimName : Str) : List Str :=
  match (claims claimName).getD .none with
  | .text s => [s]
  | .list items _ => items
  | .none | .other _ _ => []

/-- mirrors backend/app/services/oidc.py:126-130 -/
def inGroup (claims : Claims) (claimName expected : Str) : Bool :=
  claimName ≠ [] && expected ≠ [] && expected ∈ claimGroups claims claimName

/-- The roles the groups of the claims map to. -/
def matchedRoles (config : OidcSettings) (claims : Claims) : List Role :=
  (if inGroup claims config.adminGroupClaim config.adminGroup then [.admin] else []) ++
    if inGroup claims config.managerGroupClaim config.managerGroup then [.mailboxManager] else []

/-- mirrors backend/app/services/oidc.py:133-165 -/
def mapClaimsToUser (config : OidcSettings) (claims : Claims) : Option SessionUser :=
  let username := ((claims.get "preferred_username").or (claims.get "email")).or
    ((claims "sub".toList).getD (.text []))
  let displayName := (claims.get "name").or username
  let matched := matchedRoles config claims
  if matched = [] ∧ config.restrictToGroups = true then none
  else some ⟨username.str, displayName.str, highestRole (matched.map Role.str), .oidc⟩

end MailserverUi.L3.Oidc
