import MailserverUi.L3Service.Oidc
import MailserverUi.L3Service.UserService

/-!
# Requests on accounts and groups (`depends.py`, `routers`)

A request first resolves its credentials to a principal: the session cookie,
else a personal access token, each to an account that is active now. The routers
of accounts and groups demand the admin role of it, and run their handler in the
same database session.

Instants are microseconds. The audit trail, which no handler reads and which
swallows its own errors, is left out, and so are redirects and cookies.
-/
namespace MailserverUi.L4.Requests

open Py L2.Errors L2.Database L3 Auth UserService Oidc

/-- The libraries and settings a request depends on. -/
structure Env (τ : Type) where
  jose : Jose τ
  digest : Str → Str
  verifyPassword : Str → Str → Bool
  accessTokenExpireMinutes : Int
  patsEnabled : Bool

/-- The session cookie, when there is one and it is not empty, and the bearer
credential. -/
structure Credentials (τ : Type) where
  cookie : Option τ
  bearer : Option Str

/-! ## Who is asking -/

section
variable {τ : Type} (env : Env τ) (now : Int) (cred : Credentials τ)

/-- The principal of an account, when it is active. -/
def principal : Option UserRow → Query (Option SessionUser)
  | none => .pure none
  | some account =>
    if account.isActive then do
      return some (← toSessionUser account)
    else .pure none

/-- The bearer credential, where tokens are enabled and it looks like one. -/
def presentedPat : Option Str :=
  if env.patsEnabled then
    cred.bearer.filter fun b => PatService.tokenPrefix.isPrefixOf b
  else none

/-- mirrors backend/app/depends.py:51-89 -/
def currentUserOptional : Query (Option SessionUser) :=
  match cred.cookie.bind (decodeSessionToken env.jose (now / 1000000)) with
  | some user => do
    principal (← getByUsername user.username)
  | none =>
    match presentedPat env cred with
    | none => .pure none
    | some raw => do
      principal (← PatService.authenticate env.digest now raw)

/-- mirrors backend/app/depends.py:92-98 -/
def requireUser : Query SessionUser := do
  Prog.ofOption (unauthorized "Not authenticated") (← currentUserOptional env now cred)

/-- The cookie is decoded a second time, `elapsed` later.
mirrors backend/app/depends.py:101-115 -/
def requireSessionLogin (elapsed : Nat) : Query SessionUser := do
  let _ ← requireUser env now cred
  Prog.ofOption (forbidden
      [lit "This operation requires an interactive session, not a personal access token"])
    (cred.cookie.bind (decodeSessionToken env.jose ((now + elapsed) / 1000000)))

/-- mirrors backend/app/depends.py:127-133 -/
def requireAdmin : Query SessionUser := do
  let user ← requireUser env now cred
  Prog.raiseIf (roleGrants user.role .admin = false)
    (forbidden [lit "Administrator privileges required"])
  return user

end

/-! ## Accounts -/

def idText (n : Int) : Str := (toString n).toList

/-- `hash` is what `hash_password` comes out as.
mirrors backend/app/routers/users.py:45-69 -/
def createUser (payload : UserCreate) (hash : Option Str) : Query UserPublic := do
  let user ← createLocalUser payload.username payload.displayName hash
  toPublic user

/-- mirrors backend/app/routers/users.py:183-214 -/
def deleteUser (admin : SessionUser) (userId : Int) : Query Unit := do
  let user ← getUser userId
  let user ← Prog.ofOption (notFound "User" (idText userId)) user
  Prog.raiseIf (user.username = admin.username)
    (conflict [lit "You cannot delete your own account"])
  let last ← isLastAdmin user
  Prog.raiseIf (last = true)
    (conflict [lit "The last active administrator account cannot be deleted"])
  UserService.deleteUser user

/-- mirrors backend/app/routers/users.py:217-248 -/
def setUserStatus (admin : SessionUser) (userId : Int) (isActive : Bool) : Query UserPublic := do
  let user ← getUser userId
  let user ← Prog.ofOption (notFound "User" (idText userId)) user
  Prog.raiseIf (isActive = false ∧ user.username = admin.username)
    (conflict [lit "You cannot deactivate your own account"])
  let updated ← setActive user isActive
  toPublic updated

/-! ## Groups -/

/-- mirrors backend/app/models/group_models.py:58-67 -/
structure GroupWrite where
  name : Str
  description : Str
  role : Role
  name_length : 1 ≤ name.length ∧ name.length ≤ 255
  description_length : description.length ≤ 1024

/-- `group = await get_group(...)`, or 404. -/
def requireGroup (groupId : Int) : Query GroupRow := do
  Prog.ofOption (notFound "Group" (idText groupId)) (← GroupService.getGroup groupId)

/-- `user = await get_user(...)`, or 404. -/
def requireAccount (userId : Int) : Query UserRow := do
  Prog.ofOption (notFound "User" (idText userId)) (← getUser userId)

/-- mirrors backend/app/routers/groups.py:55-65 -/
def createGroup (payload : GroupWrite) : Query GroupRow :=
  GroupService.createGroup payload.name payload.description payload.role.str

/-- mirrors backend/app/routers/groups.py:68-82 -/
def updateGroup (groupId : Int) (payload : GroupWrite) : Query GroupRow := do
  let group ← requireGroup groupId
  GroupService.updateGroup group (some payload.name) (some payload.description)
    (some payload.role.str)

/-- mirrors backend/app/routers/groups.py:85-95 -/
def deleteGroup (groupId : Int) : Query Unit := do
  let group ← requireGroup groupId
  GroupService.deleteGroup group

/-- The loop that looks every account up. -/
def requireAccounts : List Int → Query Unit
  | [] => .pure ()
  | userId :: userIds => do
    let _ ← requireAccount userId
    requireAccounts userIds

/-- mirrors backend/app/routers/groups.py:114-128 -/
def addUsersToGroup (groupId : Int) (userIds : List Int) : Query Unit := do
  let _ ← requireGroup groupId
  requireAccounts userIds
  GroupService.addUsersToGroup groupId userIds

/-- mirrors backend/app/routers/groups.py:131-145 -/
def addUserToGroup (groupId userId : Int) : Query Unit := do
  let _ ← requireGroup groupId
  let _ ← requireAccount userId
  GroupService.addUserToGroup groupId userId

/-- mirrors backend/app/routers/groups.py:148-159 -/
def removeUserFromGroup (groupId userId : Int) : Query Unit := do
  let _ ← requireGroup groupId
  GroupService.removeUserFromGroup groupId userId

/-! ## Tokens -/

/-- mirrors backend/app/routers/users.py:76-81 -/
def ownAccount (user : SessionUser) : Query UserRow := do
  Prog.ofOption (notFound "User" user.username) (← getByUsername user.username)

/-- mirrors backend/app/routers/users.py:125-153 -/
def createOwnPat (digest : Str → Str) (patMaxPerUser now : Int) (secret : PatService.Secret)
    (user : SessionUser) (payload : PatService.PatCreate) : Query (PatRow × Str) := do
  let account ← ownAccount user
  PatService.create digest patMaxPerUser now secret account payload.name payload.expiresInDays

/-- mirrors backend/app/routers/users.py:156-180 -/
def revokeOwnPat (user : SessionUser) (patId : Int) : Query Unit := do
  let account ← ownAccount user
  let pat ← PatService.getForUser patId account.id
  let pat ← Prog.ofOption (notFound "Personal access token" (idText patId)) pat
  PatService.deletePat pat

/-! ## Requests -/

inductive Request where
  | createUser (payload : UserCreate) (hash : Option Str)
  | deleteUser (userId : Int)
  | setUserStatus (userId : Int) (isActive : Bool)
  | createGroup (payload : GroupWrite)
  | updateGroup (groupId : Int) (payload : GroupWrite)
  | deleteGroup (groupId : Int)
  | addUsersToGroup (groupId : Int) (userIds : List Int)
  | addUserToGroup (groupId userId : Int)
  | removeUserFromGroup (groupId userId : Int)

/-- The answer of a request does not matter here, only whether there is one. -/
def void {α : Type} (q : Query α) : Query Unit := do
  let _ ← q
  return ()

def Request.handle (admin : SessionUser) : Request → Query Unit
  | .createUser payload hash => void (Requests.createUser payload hash)
  | .deleteUser userId => Requests.deleteUser admin userId
  | .setUserStatus userId isActive => void (Requests.setUserStatus admin userId isActive)
  | .createGroup payload => void (Requests.createGroup payload)
  | .updateGroup groupId payload => void (Requests.updateGroup groupId payload)
  | .deleteGroup groupId => Requests.deleteGroup groupId
  | .addUsersToGroup groupId userIds => Requests.addUsersToGroup groupId userIds
  | .addUserToGroup groupId userId => Requests.addUserToGroup groupId userId
  | .removeUserFromGroup groupId userId => Requests.removeUserFromGroup groupId userId

section
variable {τ : Type} (env : Env τ) (now : Int)

def Request.serve (cred : Credentials τ) (req : Request) : Query Unit := do
  let admin ← requireAdmin env now cred
  req.handle admin

/-! ## Sign-ins -/

/-- mirrors backend/app/routers/auth.py:89-128 -/
def login (config : OidcSettings) (username password : Str) : Query SessionUser := do
  Prog.raiseIf (config.oidcOnly = true) (forbidden [lit "Local login is disabled"])
  let user ← authenticateLocal env.verifyPassword username password
  Prog.ofOption (unauthorized "Invalid username or password") user

/-- From the claims on; where `upsert_oidc_user` refuses, so does this, and the
browser is sent back to the login page.
mirrors backend/app/routers/auth.py:238-275 -/
def oidcCallback (config : OidcSettings) (claims : Claims) : Query (Option SessionUser) := do
  Prog.raiseIf (config.enabled = false) (notFound "OIDC endpoint" "callback".toList)
  match mapClaimsToUser config claims with
  | none => return none
  | some principal => return some (← upsertOidcUser principal)

/-- The token in the cookie that a sign-in sets. -/
def sessionToken (user : SessionUser) : τ :=
  createSessionToken env.jose env.accessTokenExpireMinutes (now / 1000000) user

end

end MailserverUi.L4.Requests
