import MailserverUi.Core.Session
import MailserverUi.L3Service.AuditService
import MailserverUi.L3Service.SettingsService
import MailserverUi.L4App.Requests

/-!
# Handlers that record what they did (`routers/users.py`, `auth.py`, `settings.py`)

A handler carries its action out, hands an entry to `audit_service.record`, and
answers. `record` swallows its own failure, but rolls the session back, and from
then on the instances of the session are expired: an attribute of one that is
read again raises. `serve` is the whole request in one session.

Of a token only its row is answered, of a sign-in only the principal: cookies and
redirects are left out, and so are the values behind the `detail` of an entry that
only `str` knows (`showTime`).

* `answer_createUser`, …: with the entry committed, a handler answers as the one
  that does not record.
-/
namespace MailserverUi.L4.Audited

open Py L2.Errors L2.Database L3 Auth UserService Oidc AuditService MailService SettingsService
open Requests

/-! ## Requests that record -/

/-- How a handler goes on after its action: what it hands to `record`, and its
answer, given whether the instances of the session are still loaded. -/
structure Ending (α : Type) where
  entry : Option Entry
  answer : Bool → Query α

def Ending.map {α β : Type} (f : α → β) (e : Ending α) : Ending β :=
  ⟨e.entry, fun loaded => do return f (← e.answer loaded)⟩

/-- Reads attributes of an instance that was loaded before. -/
def whileLoaded {α : Type} (loaded : Bool) (q : Query α) : Query α :=
  if loaded then q else .raise .internal

/-- The action, `record`, and the answer; `commits` is whether the commit inside
`record` succeeds. -/
def serve {α : Type} (h : Query (Ending α)) (commits : Bool) (now : Int) (clientIp : Option Str)
    (d : Db) (trail : AuditTable) : Except ApiError α × Db × AuditTable :=
  match h.run sqlite ⟨d, none⟩ with
  | (.error e, t) => (.error e, t.committed, trail)
  | (.ok ending, t) =>
    match ending.entry with
    | none =>
      let r := (ending.answer true).run sqlite t
      (r.1, r.2.committed, trail)
    | some entry =>
      let r := (ending.answer commits).run sqlite ⟨if commits then t.view else t.committed, none⟩
      (r.1, r.2.committed, record trail commits now clientIp entry)

section
variable {α : Type} {h : Query (Ending α)} {d : Db}

theorem serve_ok {ending : Ending α} {entry : Entry} {d' : Db}
    (hr : h.run sqlite ⟨d, none⟩ = (.ok ending, ⟨d', none⟩)) (he : ending.entry = some entry)
    (commits : Bool) (now : Int) (clientIp : Option Str) (trail : AuditTable) :
    serve h commits now clientIp d trail =
      (((ending.answer commits).run sqlite ⟨d', none⟩).1,
        ((ending.answer commits).run sqlite ⟨d', none⟩).2.committed,
        record trail commits now clientIp entry) := by
  unfold serve
  rw [hr]
  simp only [he, Tx.view, Option.getD_none, ite_self]

end

/-! ## Accounts -/

/-- mirrors backend/app/models/user_models.py:84-87 -/
structure PasswordChangeRequest where
  newPassword : Str
  newPassword_length : 8 ≤ newPassword.length ∧ newPassword.length ≤ 1024

/-- mirrors backend/app/models/user_models.py:90-98 -/
structure SelfPasswordChangeRequest where
  currentPassword : Str
  newPassword : Str
  currentPassword_length : 1 ≤ currentPassword.length ∧ currentPassword.length ≤ 1024
  newPassword_length : 8 ≤ newPassword.length ∧ newPassword.length ≤ 1024

/-- mirrors backend/app/routers/users.py:45-69 -/
def createUser (admin : SessionUser) (payload : UserCreate) (hash : Option Str) :
    Query (Ending UserPublic) := do
  let user ← createLocalUser payload.username payload.displayName hash
  return {
    entry := some {
      category := .user
      action := "user.create"
      actor := admin.username
      target := user.username
      detail := "Local account created".toList }
    answer loaded := whileLoaded loaded (toPublic user) }

/-- mirrors backend/app/routers/users.py:89-109 -/
def changeOwnPassword (verifyPassword : Str → Str → Bool) (user : SessionUser)
    (payload : SelfPasswordChangeRequest) (hash : Option Str) : Query (Ending UserPublic) := do
  let updated ← UserService.changeOwnPassword verifyPassword user.username payload.currentPassword
    payload.newPassword hash
  return {
    entry := some {
      category := .user
      action := "user.password.change"
      actor := user.username
      target := user.username
      detail := "Own password rotated".toList }
    answer loaded := whileLoaded loaded (toPublic updated) }

/-- mirrors backend/app/routers/users.py:183-214 -/
def deleteUser (admin : SessionUser) (userId : Int) : Query (Ending Unit) := do
  let user ← getUser userId
  let user ← Prog.ofOption (notFound "User" (idText userId)) user
  Prog.raiseIf (user.username = admin.username)
    (conflict [lit "You cannot delete your own account"])
  let last ← isLastAdmin user
  Prog.raiseIf (last = true)
    (conflict [lit "The last active administrator account cannot be deleted"])
  UserService.deleteUser user
  return {
    entry := some {
      category := .user
      action := "user.delete"
      actor := admin.username
      target := user.username
      detail := "Account, group memberships and personal access tokens removed".toList }
    answer _ := .pure () }

/-- mirrors backend/app/routers/users.py:217-248 -/
def setUserStatus (admin : SessionUser) (userId : Int) (isActive : Bool) :
    Query (Ending UserPublic) := do
  let user ← getUser userId
  let user ← Prog.ofOption (notFound "User" (idText userId)) user
  Prog.raiseIf (isActive = false ∧ user.username = admin.username)
    (conflict [lit "You cannot deactivate your own account"])
  let updated ← setActive user isActive
  return {
    entry := some {
      category := .user
      action := if isActive then "user.activate" else "user.deactivate"
      actor := admin.username
      target := updated.username
      detail := "provider=".toList ++ updated.provider }
    answer loaded := whileLoaded loaded (toPublic updated) }

/-- mirrors backend/app/routers/users.py:251-281 -/
def changePassword (admin : SessionUser) (userId : Int) (_payload : PasswordChangeRequest)
    (hash : Option Str) : Query (Ending UserPublic) := do
  let user ← getUser userId
  let user ← Prog.ofOption (notFound "User" (idText userId)) user
  Prog.raiseIf (user.provider ≠ "local".toList)
    (conflict [lit "Password is managed by the identity provider for OIDC users"])
  let updated ← setPassword user hash
  return {
    entry := some {
      category := .user
      action := "user.password.reset"
      actor := admin.username
      target := updated.username
      detail := "Password reset by an administrator".toList }
    answer loaded := whileLoaded loaded (toPublic updated) }

/-! ## Tokens -/

/-- mirrors backend/app/models/pat_models.py:73-86 -/
structure PatCreated where
  id : Int
  name : Str
  tokenHint : Str
  createdAt : Int
  expiresAt : Option Int
  lastUsedAt : Option Int
  token : Str
  deriving DecidableEq, Repr

/-- `PatCreated(**pat.model_dump(...), token=...)`, which validates the name. -/
def patCreated (pat : PatRow) (token : Str) : Option PatCreated :=
  if 1 ≤ pat.name.length ∧ pat.name.length ≤ 255 then
    some ⟨pat.id, pat.name, pat.tokenHint, pat.createdAt, pat.expiresAt, pat.lastUsedAt, token⟩
  else none

/-- mirrors backend/app/routers/users.py:125-153 -/
def createOwnPat (digest : Str → Str) (showTime : Int → Str) (patMaxPerUser now : Int)
    (secret : PatService.Secret) (user : SessionUser) (payload : PatService.PatCreate) :
    Query (Ending PatCreated) := do
  let account ← ownAccount user
  let (pat, rawToken) ← PatService.create digest patMaxPerUser now secret account payload.name
    payload.expiresInDays
  return {
    entry := some {
      category := .pat
      action := "pat.create"
      actor := user.username
      target := pat.name
      detail := "expires_at=".toList ++ pat.expiresAt.elim "never".toList showTime }
    answer loaded := whileLoaded loaded (Prog.ofOption .internal (patCreated pat rawToken)) }

/-- mirrors backend/app/routers/users.py:156-180 -/
def revokeOwnPat (user : SessionUser) (patId : Int) : Query (Ending Unit) := do
  let account ← ownAccount user
  let pat ← PatService.getForUser patId account.id
  let pat ← Prog.ofOption (notFound "Personal access token" (idText patId)) pat
  PatService.deletePat pat
  return {
    entry := some {
      category := .pat
      action := "pat.revoke"
      actor := user.username
      target := pat.name }
    answer _ := .pure () }

/-! ## Sign-ins -/

/-- mirrors backend/app/routers/auth.py:41-43 -/
structure LoginRequest where
  username : Str
  password : Str
  username_length : 1 ≤ username.length ∧ username.length ≤ 255
  password_length : 1 ≤ password.length ∧ password.length ≤ 1024

/-- mirrors backend/app/routers/auth.py:89-128 -/
def login (verifyPassword : Str → Str → Bool) (config : OidcSettings) (payload : LoginRequest) :
    Query (Ending SessionUser) := do
  Prog.raiseIf (config.oidcOnly = true) (forbidden [lit "Local login is disabled"])
  match ← authenticateLocal verifyPassword payload.username payload.password with
  | none =>
    return {
      entry := some {
        category := .auth
        action := "auth.login"
        actor := payload.username
        target := payload.username
        status := .failure
        detail := "Invalid credentials, or the account is deactivated".toList }
      answer _ := .raise (unauthorized "Invalid username or password") }
  | some user =>
    return {
      entry := some {
        category := .auth
        action := "auth.login"
        actor := user.username
        target := user.username
        detail := "provider=local".toList }
      answer _ := .pure user }

/-- mirrors backend/app/routers/auth.py:137-155 -/
def logout (user : SessionUser) : Query (Ending Unit) :=
  .pure {
    entry := some {
      category := .auth
      action := "auth.logout"
      actor := user.username
      target := user.username
      detail := "provider=".toList ++ user.provider.str }
    answer _ := .pure () }

/-- `exc.detail`; the errors that are caught quote nothing. -/
def detailText (detail : List Piece) : Str :=
  detail.flatMap fun
    | .text s => s
    | .repr s => s

/-- `except (ConflictException, ForbiddenException)`. -/
def refusal : ApiError → Option (List Piece)
  | .api 409 detail => some detail
  | .api 403 detail => some detail
  | _ => none

/-- From the claims on.
mirrors backend/app/routers/auth.py:238-281 -/
def oidcCallback (config : OidcSettings) (claims : Claims) :
    Query (Ending (Option SessionUser)) := do
  Prog.raiseIf (config.enabled = false) (notFound "OIDC endpoint" "callback".toList)
  match mapClaimsToUser config claims with
  | none => return { entry := none, answer _ := .pure none }
  | some principal =>
    match ← (upsertOidcUser principal).attempt with
    | .error exc =>
      let detail ← Prog.ofOption exc (refusal exc)
      return {
        entry := some {
          category := .auth
          action := "auth.login"
          actor := principal.username
          target := principal.username
          status := .failure
          detail := "OIDC sign-in refused: ".toList ++ detailText detail }
        answer _ := .pure none }
    | .ok user =>
      return {
        entry := some {
          category := .auth
          action := "auth.login"
          actor := user.username
          target := user.username
          detail := "provider=oidc".toList }
        answer _ := .pure (some user) }

/-! ## Settings -/

/-- `str` of a `bool`. -/
def boolText (b : Bool) : Str := if b then "True".toList else "False".toList

/-- mirrors backend/app/routers/settings.py:51-72 -/
def updateOidc (admin : SessionUser) (payload : OidcConfig) : Query (Ending OidcConfig) := do
  let config ← updateOidcSettings payload
  return {
    entry := some {
      category := .settings
      action := "settings.oidc.update"
      actor := admin.username
      target := "oidc".toList
      detail := "enabled=".toList ++ boolText config.enabled ++ " oidc_only=".toList ++
        boolText config.oidcOnly ++ " issuer=".toList ++ config.issuer }
    answer loaded := whileLoaded loaded (.pure config) }

/-- mirrors backend/app/routers/settings.py:91-115 -/
def updateMail (admin : SessionUser) (payload : MailSettings) : Query (Ending MailSettings) := do
  let config ← updateMailSettings payload
  return {
    entry := some {
      category := .settings
      action := "settings.mail.update"
      actor := admin.username
      target := "mail".toList
      detail := "enabled=".toList ++ boolText config.enabled ++ " host=".toList ++ config.host ++
        ":".toList ++ idText config.port ++ " auth_events=".toList ++
        boolText config.notifyAuthEvents ++ " audit_events=".toList ++
        boolText config.notifyAuditEvents }
    answer loaded := whileLoaded loaded (.pure config) }

/-- mirrors backend/app/models/mail_models.py:80-87 -/
structure MailTestRequest where
  recipient : Str
  recipient_length : recipient.length ≤ 255

/-- The recipients of a test message. -/
def testRecipients (config : MailSettings) (payload : MailTestRequest) : List Str :=
  parseRecipients (if payload.recipient ≠ [] then payload.recipient else config.recipients)

/-- mirrors backend/app/routers/settings.py:118-170 -/
def testMail (config : MailSettings) (delivery : Delivery) (admin : SessionUser)
    (payload : MailTestRequest) : Query (Ending (Bool × Str)) :=
  let recipients := testRecipients config payload
  match send config recipients delivery with
  | none => .raise .internal
  | some (some exc) =>
    .pure {
      entry := some {
        category := .settings
        action := "settings.mail.test"
        actor := admin.username
        target := joined recipients
        status := .failure
        detail := exc }
      answer _ := .pure (false, exc) }
  | some none =>
    .pure {
      entry := some {
        category := .settings
        action := "settings.mail.test"
        actor := admin.username
        target := joined recipients
        detail := "Test message sent".toList }
      answer _ := .pure (true, "Test message sent to ".toList ++ joined recipients) }

/-! ## Next to the handlers that do not record -/

theorem answer_createUser (admin : SessionUser) (payload : UserCreate) (hash : Option Str) :
    (createUser admin payload hash >>= fun e => e.answer true) =
      Requests.createUser payload hash := by
  rw [createUser, Prog.bind_assoc]
  rfl

theorem answer_deleteUser (admin : SessionUser) (userId : Int) :
    (deleteUser admin userId >>= fun e => e.answer true) =
      Requests.deleteUser admin userId := by
  simp only [deleteUser, Prog.bind_assoc]
  rfl

theorem answer_setUserStatus (admin : SessionUser) (userId : Int) (isActive : Bool) :
    (setUserStatus admin userId isActive >>= fun e => e.answer true) =
      Requests.setUserStatus admin userId isActive := by
  simp only [setUserStatus, Prog.bind_assoc]
  rfl

theorem answer_createOwnPat (digest : Str → Str) (showTime : Int → Str) (patMaxPerUser now : Int)
    (secret : PatService.Secret) (user : SessionUser) (payload : PatService.PatCreate) :
    (createOwnPat digest showTime patMaxPerUser now secret user payload >>= fun e =>
      e.answer true) =
      Requests.createOwnPat digest patMaxPerUser now secret user payload >>= fun r =>
        Prog.ofOption .internal (patCreated r.1 r.2) := by
  simp only [createOwnPat, Requests.createOwnPat, Prog.bind_assoc]
  rfl

theorem answer_revokeOwnPat (user : SessionUser) (patId : Int) :
    (revokeOwnPat user patId >>= fun e => e.answer true) = Requests.revokeOwnPat user patId := by
  simp only [revokeOwnPat, Requests.revokeOwnPat, Prog.bind_assoc]
  rfl

/-! ## The endpoints of accounts and tokens -/

inductive UserCall where
  | createUser (payload : UserCreate) (hash : Option Str)
  | changeOwnPassword (payload : SelfPasswordChangeRequest) (hash : Option Str)
  | createOwnPat (secret : PatService.Secret) (payload : PatService.PatCreate)
  | revokeOwnPat (patId : Int)
  | deleteUser (userId : Int)
  | setUserStatus (userId : Int) (isActive : Bool)
  | changePassword (userId : Int) (payload : PasswordChangeRequest) (hash : Option Str)

inductive Body where
  | user (u : UserPublic)
  | pat (p : PatCreated)
  | noContent
  deriving DecidableEq, Repr

/-- The handler, with its answer as a body. -/
def answering {α : Type} (f : α → Body) (h : Query (Ending α)) : Query (Ending Body) := do
  return (← h).map f

section
variable {τ : Type} (env : Env τ) (showTime : Int → Str) (patMaxPerUser now : Int)

/-- The handler, for the principal that its dependency resolved. -/
def UserCall.handle (user : SessionUser) : UserCall → Query (Ending Body)
  | .createUser payload hash => answering .user (Audited.createUser user payload hash)
  | .changeOwnPassword payload hash =>
    answering .user (Audited.changeOwnPassword env.verifyPassword user payload hash)
  | .createOwnPat secret payload =>
    answering .pat (Audited.createOwnPat env.digest showTime patMaxPerUser now secret user payload)
  | .revokeOwnPat patId => answering (fun _ => .noContent) (Audited.revokeOwnPat user patId)
  | .deleteUser userId => answering (fun _ => .noContent) (Audited.deleteUser user userId)
  | .setUserStatus userId isActive =>
    answering .user (Audited.setUserStatus user userId isActive)
  | .changePassword userId payload hash =>
    answering .user (Audited.changePassword user userId payload hash)

/-- The dependency of the endpoint. -/
def UserCall.principal (cred : Credentials τ) (elapsed : Nat) : UserCall → Query SessionUser
  | .changeOwnPassword .. => requireUser env now cred
  | .createOwnPat .. | .revokeOwnPat _ => requireSessionLogin env now cred elapsed
  | _ => requireAdmin env now cred

end

end MailserverUi.L4.Audited
