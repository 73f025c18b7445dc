import MailserverUi.L2Store.Database

/-!
# Personal access tokens (`pat_service.py`)

Issuing and revoking tokens, and what a presented one resolves to. `digest` is
the SHA-256 hex digest, and a `Secret` what `secrets.token_urlsafe` comes out
as; instants are microseconds. An account that a session has loaded has an id.
Log lines are left out.
-/
namespace MailserverUi.L3.PatService

open Py L2.Errors L2.Database

/-- mirrors backend/app/services/pat_service.py:26 -/
def tokenPrefix : Str := "pat_".toList

/-- mirrors backend/app/services/pat_service.py:33 -/
def lastUsedRefreshSeconds : Int := 60

/-- The request schema.
mirrors backend/app/models/pat_models.py:59-64 -/
structure PatCreate where
  name : Str
  expiresInDays : Option Nat
  name_length : 1 ≤ name.length ∧ name.length ≤ 255
  days_bound : ∀ days ∈ expiresInDays, 1 ≤ days ∧ days ≤ 3650

/-- The base64 of 32 random bytes, in the alphabet for URLs. -/
structure Secret where
  chars : Str
  length_chars : chars.length = 43
  urlsafe : ∀ c ∈ chars, c.isAlphanum = true ∨ c = '-' ∨ c = '_'

/-- `raw_token.removeprefix(TOKEN_PREFIX)`. -/
def bare (rawToken : Str) : Str :=
  if tokenPrefix.isPrefixOf rawToken then rawToken.drop tokenPrefix.length else rawToken

/-- mirrors backend/app/services/pat_service.py:51-59 -/
def tokenHintOf (rawToken : Str) : Str :=
  (bare rawToken).take 4 ++ ['…'] ++ (bare rawToken).drop ((bare rawToken).length - 4)

/-- mirrors backend/app/services/pat_service.py:62-64 -/
def isExpired (pat : PatRow) (now : Int) : Bool := pat.expiresAt.any fun e => e ≤ now

/-! ## Queries -/

/-- mirrors backend/app/services/pat_service.py:70-75 -/
def listForUser (userId : Int) : Query (List PatRow) := execute (.patsOfUser userId)

/-- mirrors backend/app/services/pat_service.py:78-81 -/
def getForUser (patId userId : Int) : Query (Option PatRow) := do
  let pat ← execute (.patById patId)
  return pat.filter fun p => p.userId = userId

/-! ## Mutations -/

/-- `_utcnow() + timedelta(days=expires_in_days) if expires_in_days else None`. -/
def expiry (now : Int) (expiresInDays : Option Nat) : Option Int :=
  (expiresInDays.filter (· ≠ 0)).map fun days => now + days * 86400 * 1000000

/-- `session.refresh(pat)`. -/
def refreshPat (id : Int) : Query PatRow := do
  Prog.ofOption .internal (← execute (.patById id))

/-- The row, and the token in plain text.
mirrors backend/app/services/pat_service.py:87-129 -/
def create (digest : Str → Str) (patMaxPerUser now : Int) (secret : Secret) (user : UserRow)
    (name : Str) (expiresInDays : Option Nat) : Query (PatRow × Str) := do
  let name := strip name
  Prog.raiseIf (name = []) (badRequest [lit "A token name is required"])
  let pats ← listForUser user.id
  Prog.raiseIf (patMaxPerUser ≤ pats.length) (conflict [lit "You cannot own more than ",
    .text (toString patMaxPerUser).toList, lit " tokens"])
  let rawToken := tokenPrefix ++ secret.chars
  let pat ← execute (.insertPat user.id name (tokenHintOf rawToken) (digest rawToken) now
    (expiry now expiresInDays))
  let pat ← Prog.ofOption .internal pat
  commit
  return (← refreshPat pat.id, rawToken)

/-- mirrors backend/app/services/pat_service.py:132-137 -/
def deletePat (pat : PatRow) : Query Unit := do
  execute (.deletePat pat.id)
  commit

/-- mirrors backend/app/services/pat_service.py:140-148 -/
def deleteForUser (userId : Int) : Query Unit := execute (.deletePats userId)

/-! ## Authentication -/

/-- mirrors backend/app/services/pat_service.py:180-191 -/
def touchLastUsed (pat : PatRow) (now : Int) : Query Unit :=
  if pat.lastUsedAt.any fun t => now - t < lastUsedRefreshSeconds * 1000000 then .pure ()
  else do
    execute (.touchPat pat.id now)
    commit

/-- mirrors backend/app/services/pat_service.py:154-177 -/
def authenticate (digest : Str → Str) (now : Int) (rawToken : Str) : Query (Option UserRow) :=
  let candidate := strip rawToken
  if bare candidate = [] then .pure none
  else do
    match ← execute (.patByHash (digest candidate)) with
    | none => return none
    | some pat =>
      if isExpired pat now then return none
      else
        match ← execute (.userById pat.userId) with
        | none => return none
        | some user =>
          touchLastUsed pat now
          return some user

end MailserverUi.L3.PatService
