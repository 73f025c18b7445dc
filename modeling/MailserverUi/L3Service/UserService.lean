import MailserverUi.L3Service.Auth
import MailserverUi.L3Service.GroupService
import MailserverUi.L3Service.PatService

/-!
# Accounts (`user_service.py`)

A row that the session has loaded keeps the attributes it was loaded with: a
later query that selects it again returns the same object (`asLoaded`), and an
`UPDATE` sets the columns that differ from it.

`bcrypt` is a parameter: `verifyPassword`, and the hash that `hash_password`
comes out as, `none` where it raises. Log lines are left out.
-/
namespace MailserverUi.L3.UserService

open Py L2.Errors L2.Database Auth GroupService

/-- mirrors backend/app/models/user_models.py:55-63 -/
structure UserPublic where
  id : Int
  username : Str
  displayName : Str
  role : Role
  provider : Str
  isActive : Bool
  effectiveRole : Role
  deriving DecidableEq, Repr

/-- mirrors backend/app/models/user_models.py:66-75 -/
structure UserCreate where
  username : Str
  displayName : Str
  password : Str
  username_length : 1 ≤ username.length ∧ username.length ≤ 255
  displayName_length : displayName.length ≤ 255
  password_length : 8 ≤ password.length ∧ password.length ≤ 1024

/-! ## Role resolution -/

/-- `[u.id for u in users if u.id]`. -/
def savedIds (users : List UserRow) : List Int := (users.map UserRow.id).filter (· ≠ 0)

/-- mirrors backend/app/services/user_service.py:43-53 -/
def resolveRole (user : UserRow) : Query Role := do
  let granted ← getGrantedRoles (savedIds [user])
  return highestRole (user.role :: rolesOf granted user.id)

/-- mirrors backend/app/services/user_service.py:56-63 -/
def toSessionUser (user : UserRow) : Query SessionUser := do
  let role ← resolveRole user
  return ⟨user.username, if user.displayName ≠ [] then user.displayName else user.username, role,
    if user.provider = "oidc".toList then .oidc else .local⟩

def UserPublic.ofRow (user : UserRow) (effectiveRole : Role) : UserPublic :=
  ⟨user.id, user.username, user.displayName, normalizeRole user.role, user.provider,
    user.isActive, effectiveRole⟩

/-- `UserPublic(...)`, which validates the lengths again.
mirrors backend/app/services/user_service.py:66-70 -/
def publicOf (user : UserRow) (effectiveRole : Role) : Option UserPublic :=
  if 1 ≤ user.username.length ∧ user.username.length ≤ 255 ∧ user.displayName.length ≤ 255 then
    some (.ofRow user effectiveRole)
  else none

/-- mirrors backend/app/services/user_service.py:73-75 -/
def toPublic (user : UserRow) : Query UserPublic := do
  Prog.ofOption .internal (publicOf user (← resolveRole user))

/-- mirrors backend/app/services/user_service.py:78-86 -/
def toPublicMany (users : List UserRow) : Query (List UserPublic) := do
  let granted ← getGrantedRoles (savedIds users)
  Prog.ofOption .internal (users.mapM fun user =>
    publicOf user (highestRole (user.role :: rolesOf granted user.id)))

/-! ## Queries -/

/-- mirrors backend/app/services/user_service.py:92-95 -/
def listUsers : Query (List UserRow) := execute .users

/-- mirrors backend/app/services/user_service.py:98-100 -/
def getUser (userId : Int) : Query (Option UserRow) := execute (.userById userId)

/-- mirrors backend/app/services/user_service.py:103-106 -/
def getByUsername (username : Str) : Query (Option UserRow) := execute (.userByName username)

/-- The rows of a later query in a session that has loaded `user`. -/
def asLoaded (user : UserRow) (rows : List UserRow) : List UserRow :=
  rows.map fun r => if r.id = user.id then user else r

/-- `session.refresh(user)`. -/
def refresh (id : Int) : Query UserRow := do
  Prog.ofOption .internal (← execute (.userById id))

/-- `session.add(user)` and `session.commit()` with the columns that changed; an
`UPDATE` that finds no row is an error. -/
def save (id : Int) (set : UserSet) : Query Unit := do
  let found ← execute (.updateUser id set)
  Prog.raiseIf (found = false) .internal
  commit

/-- The same for a new account, and `session.refresh(user)`. -/
def saveNew (username displayName role provider : Str) (passwordHash : Option Str) :
    Query UserRow := do
  let user ← execute (.insertUser username displayName role provider passwordHash)
  let user ← Prog.ofOption .internal user
  commit
  refresh user.id

/-! ## Authentication -/

/-- mirrors backend/app/services/user_service.py:353-357 -/
def touchLogin (user : UserRow) : Query Unit := save user.id {}

/-- mirrors backend/app/services/user_service.py:112-131 -/
def authenticateLocal (verifyPassword : Str → Str → Bool) (username password : Str) :
    Query (Option SessionUser) := do
  match ← getByUsername username with
  | none => return none
  | some user =>
    if user.provider ≠ "local".toList ∨ user.passwordHash.getD [] = [] then return none
    else if verifyPassword password (user.passwordHash.getD []) = false then return none
    else if user.isActive = false then return none
    else
      touchLogin user
      return some (← toSessionUser user)

/-- mirrors backend/app/services/user_service.py:134-175 -/
def upsertOidcUser (principal : SessionUser) : Query SessionUser := do
  match ← getByUsername principal.username with
  | none =>
    let user ← saveNew principal.username principal.displayName principal.role.str "oidc".toList
      none
    toSessionUser user
  | some user =>
    Prog.raiseIf (user.provider ≠ "oidc".toList) (conflict [lit "A local account named ",
      .text principal.username, lit " already exists; an OIDC identity cannot take it over"])
    Prog.raiseIf (user.isActive = false)
      (forbidden [lit "The account ", .text principal.username, lit " is deactivated"])
    save user.id { displayName := some principal.displayName, role := some principal.role.str }
    toSessionUser (← refresh user.id)

/-! ## Mutations -/

/-- mirrors backend/app/services/user_service.py:181-209 -/
def createLocalUser (username displayName : Str) (hash : Option Str) : Query UserRow := do
  let username := strip username
  Prog.raiseIf (username = []) (badRequest [lit "A username is required"])
  let existing ← getByUsername username
  Prog.raiseIf (existing ≠ none) (conflict [lit "User ", .text username, lit " already exists"])
  let hash ← Prog.ofOption .internal hash
  saveNew username (strip displayName) "guest".toList "local".toList (some hash)

/-- mirrors backend/app/services/user_service.py:212-228 -/
def isLastAdmin (user : UserRow) : Query Bool :=
  if user.isActive = false then .pure false
  else do
    let role ← resolveRole user
    if role ≠ .admin then return false
    else
      let users ← listUsers
      let publics ← toPublicMany (asLoaded user users)
      let activeAdmins := publics.filter fun p => p.effectiveRole = .admin ∧ p.isActive = true
      return activeAdmins.length ≤ 1

/-- `not is_active and await is_last_admin(session, user)`. -/
def locksOut (user : UserRow) (isActive : Bool) : Query Bool :=
  if isActive then .pure false else isLastAdmin user

/-- mirrors backend/app/services/user_service.py:231-250 -/
def setActive (user : UserRow) (isActive : Bool) : Query UserRow := do
  let last ← locksOut user isActive
  Prog.raiseIf (last = true)
    (conflict [lit "The last active administrator account cannot be deactivated"])
  save user.id { isActive := if user.isActive = isActive then none else some isActive }
  refresh user.id

/-- mirrors backend/app/services/user_service.py:253-261 -/
def deleteUser (user : UserRow) : Query Unit := do
  removeUserMemberships user.id
  PatService.deleteForUser user.id
  execute (.deleteUser user.id)
  commit

/-- mirrors backend/app/services/user_service.py:289-297 -/
def setPassword (user : UserRow) (hash : Option Str) : Query UserRow := do
  let hash ← Prog.ofOption .internal hash
  save user.id { passwordHash := some hash }
  refresh user.id

/-- mirrors backend/app/services/user_service.py:264-286 -/
def changeOwnPassword (verifyPassword : Str → Str → Bool)
    (username currentPassword newPassword : Str) (hash : Option Str) : Query UserRow := do
  let user ← Prog.ofOption (notFound "User" username) (← getByUsername username)
  Prog.raiseIf (user.provider ≠ "local".toList ∨ user.passwordHash.getD [] = [])
    (conflict [lit "Password is managed by the identity provider for OIDC users"])
  Prog.raiseIf (verifyPassword currentPassword (user.passwordHash.getD []) = false)
    (badRequest [lit "The current password is incorrect"])
  Prog.raiseIf (currentPassword = newPassword)
    (badRequest [lit "The new password must differ from the current one"])
  setPassword user hash

/-- mirrors backend/app/services/user_service.py:300-329 -/
def ensureDefaultAdmin (adminUsername : Str) (hash : Option Str) : Query Unit := do
  match ← execute (.userByRole "admin".toList "local".toList) with
  | some _ => return ()
  | none =>
    let hash ← Prog.ofOption .internal hash
    match ← execute (.insertUser adminUsername adminUsername "admin".toList "local".toList
      (some hash)) with
    | none => return ()
    | some _ => commit

end MailserverUi.L3.UserService
