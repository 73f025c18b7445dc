import MailserverUi.L2Store.Errors

/-!
# Roles and session tokens (`auth.py`)

`Jose` is the token library: `encode` signs a payload, `decode` checks the
signature and the expiry at an instant in seconds. A token is a value of some
type `τ`. The server relies on two things: a token it signed decodes to its
payload until it has expired (`Jose.Sound`), and of any token only the expiry
is a matter of time (`Jose.Decides`).

* `highestRole_eq_admin`: the highest role is admin when one of the roles is.
* `decode_createSessionToken`: an unexpired session token names the account it
  was issued to.
* `decodeSessionToken_earlier`: what a token decodes to later it decodes to now.
-/
namespace MailserverUi.L3.Auth

open Py

/-! ## Roles -/

/-- mirrors backend/app/auth.py:30-34 -/
inductive Role where
  | guest
  | mailboxManager
  | admin
  deriving DecidableEq, Repr

def Role.str : Role → Str
  | .guest => "guest".toList
  | .mailboxManager => "mailbox_manager".toList
  | .admin => "admin".toList

def rolePrecedence : List Role := [.guest, .mailboxManager, .admin]

/-- `ROLE_PRECEDENCE.index(role)`. -/
def Role.index (r : Role) : Nat := rolePrecedence.idxOf r

/-- mirrors backend/app/auth.py:36-45 -/
def normalizeRole (value : Str) : Role :=
  let role := if value = "user".toList then "guest".toList else value
  (rolePrecedence.find? fun r => r.str = role).getD .guest

/-- `max` over the normalised roles, starting from the least one.
mirrors backend/app/auth.py:48-54 -/
def highestRole (roles : List Str) : Role :=
  (roles.map normalizeRole).foldl (fun best r => if best.index < r.index then r else best) .guest

/-- mirrors backend/app/auth.py:57-59 -/
def roleGrants (role required : Role) : Bool := required.index ≤ role.index

theorem normalizeRole_str (r : Role) : normalizeRole r.str = r := by
  cases r <;> decide

theorem roleGrants_admin {r : Role} : roleGrants r .admin = true ↔ r = .admin := by
  cases r <;> decide

theorem foldl_highest_eq_admin (rs : List Role) (best : Role) :
    rs.foldl (fun best r => if best.index < r.index then r else best) best = .admin ↔
      best = .admin ∨ .admin ∈ rs := by
  induction rs generalizing best with
  | nil => simp
  | cons r rs ih =>
    rw [List.foldl_cons, ih, List.mem_cons]
    cases best <;> cases r <;> simp [Role.index, rolePrecedence]

theorem highestRole_eq_admin {roles : List Str} :
    highestRole roles = .admin ↔ ∃ r ∈ roles, normalizeRole r = .admin := by
  rw [highestRole, foldl_highest_eq_admin, List.mem_map]
  simp

/-! ## Session tokens -/

inductive AuthProvider where
  | «local»
  | oidc
  deriving DecidableEq, Repr

def AuthProvider.str : AuthProvider → Str
  | .local => "local".toList
  | .oidc => "oidc".toList

/-- mirrors backend/app/auth.py:62-72 -/
structure SessionUser where
  username : Str
  displayName : Str
  role : Role
  provider : AuthProvider
  deriving DecidableEq, Repr

/-- The claims of a token this server signed that are read back. A token of the
OIDC flow has no `sub`. -/
structure Payload where
  sub : Option Str
  name : Option Str
  role : Option Str
  provider : Option Str
  iat : Option Int
  exp : Option Int
  state : Option Str
  nonce : Option Str
  deriving DecidableEq, Repr

structure Jose (τ : Type) where
  encode : Payload → τ
  decode : Int → τ → Option Payload

/-- Not expired at `now`. -/
def Payload.Valid (p : Payload) (now : Int) : Prop := ∀ e, p.exp = some e → now ≤ e

instance (p : Payload) (now : Int) : Decidable (p.Valid now) :=
  match h : p.exp with
  | none => isTrue fun e he => by rw [h] at he; cases he
  | some e => decidable_of_iff (now ≤ e) (by simp [Payload.Valid, h])

/-- What decodes was signed with the server's key, and has not expired. -/
def Jose.Genuine {τ : Type} (jose : Jose τ) : Prop :=
  ∀ now token p, jose.decode now token = some p → token = jose.encode p ∧ p.Valid now

def Jose.Sound {τ : Type} (jose : Jose τ) : Prop :=
  ∀ p now, p.Valid now → jose.decode now (jose.encode p) = some p

/-- The signature first, then the expiry: no token with the server's signature
says from when on it is valid. -/
def Jose.Decides {τ : Type} (jose : Jose τ) : Prop :=
  ∃ verify : τ → Option Payload, ∀ now token,
    jose.decode now token = (verify token).filter fun p => p.Valid now

theorem Payload.Valid.earlier {p : Payload} {now later : Int} (h : p.Valid later)
    (hle : now ≤ later) : p.Valid now := fun e he => hle.trans (h e he)

section
variable {τ : Type} (jose : Jose τ)

def sessionPayload (expireMinutes now : Int) (user : SessionUser) : Payload :=
  ⟨user.username, user.displayName, user.role.str, user.provider.str, now,
    some (now + expireMinutes * 60), none, none⟩

/-- mirrors backend/app/auth.py:98-110 -/
def createSessionToken (expireMinutes now : Int) (user : SessionUser) : τ :=
  jose.encode (sessionPayload expireMinutes now user)

/-- mirrors backend/app/auth.py:113-127 -/
def decodeSessionToken (now : Int) (token : τ) : Option SessionUser := do
  let payload ← jose.decode now token
  let sub ← payload.sub
  let provider ← [AuthProvider.local, .oidc].find? fun p =>
    p.str = payload.provider.getD "local".toList
  return ⟨sub, payload.name.getD sub, normalizeRole (payload.role.getD []), provider⟩

theorem find_provider (p : AuthProvider) :
    ([AuthProvider.local, .oidc].find? fun q => q.str = p.str) = some p := by
  cases p <;> decide

variable {jose}

theorem decode_createSessionToken (h : jose.Sound) {expireMinutes issued now : Int}
    (hexp : now ≤ issued + expireMinutes * 60) (user : SessionUser) :
    decodeSessionToken jose now (createSessionToken jose expireMinutes issued user) =
      some user := by
  have hv : (sessionPayload expireMinutes issued user).Valid now := by
    intro e he
    cases he
    exact hexp
  rw [decodeSessionToken, createSessionToken, h _ _ hv]
  simp only [sessionPayload, Option.getD_some, find_provider, normalizeRole_str,
    Option.bind_eq_bind, Option.bind_some, Option.pure_def]

theorem Jose.Decides.earlier (h : jose.Decides) {now later : Int} (hle : now ≤ later) {token : τ}
    {p : Payload} (hp : jose.decode later token = some p) : jose.decode now token = some p := by
  obtain ⟨verify, hv⟩ := h
  rw [hv, Option.filter_eq_some_iff] at hp ⊢
  exact ⟨hp.1, decide_eq_true ((of_decide_eq_true hp.2).earlier hle)⟩

theorem decodeSessionToken_earlier (h : jose.Decides) {now later : Int} (hle : now ≤ later)
    {token : τ} {user : SessionUser} (hu : decodeSessionToken jose later token = some user) :
    decodeSessionToken jose now token = some user := by
  obtain ⟨p, hp, hrest⟩ := Option.bind_eq_some_iff.mp hu
  exact Option.bind_eq_some_iff.mpr ⟨p, h.earlier hle hp, hrest⟩

end

end MailserverUi.L3.Auth
