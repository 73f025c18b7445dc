import MailserverUi.L2Store.Database

/-!
# Groups and memberships (`group_service.py`)

Log lines are left out, and so are the queries of the group pages.
-/
namespace MailserverUi.L3.GroupService

open Py L2.Errors L2.Database

/-- The pairs of a user id and a role one of its groups grants.
mirrors backend/app/services/group_service.py:30-49 -/
def getGrantedRoles (userIds : List Int) : Query (List (Int × Str)) :=
  if userIds = [] then .pure [] else execute (.grantedRoles userIds)

/-- `granted.get(user_id, [])`. -/
def rolesOf (granted : List (Int × Str)) (userId : Int) : List Str :=
  (granted.filter fun p => p.1 = userId).map Prod.snd

/-- mirrors backend/app/services/group_service.py:52-54 -/
def getGroup (groupId : Int) : Query (Option GroupRow) := execute (.groupById groupId)

/-- `session.refresh(group)`. -/
def refreshGroup (id : Int) : Query GroupRow := do
  Prog.ofOption .internal (← execute (.groupById id))

/-- mirrors backend/app/services/group_service.py:81-90 -/
def createGroup (name description role : Str) : Query GroupRow := do
  let group ← execute (.insertGroup name description role)
  let group ← Prog.ofOption .internal group
  commit
  refreshGroup group.id

/-- mirrors backend/app/services/group_service.py:93-112 -/
def updateGroup (group : GroupRow) (name description role : Option Str) : Query GroupRow := do
  let saved ← execute (.updateGroup group.id (name.getD group.name)
    (description.getD group.description) (role.getD group.role))
  Prog.raiseIf (saved = false) .internal
  commit
  refreshGroup group.id

/-- The session has loaded the group, so `session.get` does not look again.
mirrors backend/app/services/group_service.py:115-126 -/
def deleteGroup (group : GroupRow) : Query Unit := do
  execute (.deleteMembers group.id)
  execute (.deleteGroup group.id)
  commit

/-- mirrors backend/app/services/group_service.py:129-139 -/
def addUserToGroup (groupId userId : Int) : Query Unit := do
  execute (.insertLink userId groupId)
  commit

/-- mirrors backend/app/services/group_service.py:142-152 -/
def removeUserFromGroup (groupId userId : Int) : Query Unit := do
  execute (.deleteLink userId groupId)
  commit

/-- mirrors backend/app/services/group_service.py:155-165 -/
def removeUserMemberships (userId : Int) : Query Unit := execute (.deleteMemberships userId)

/-- The loop of `add_users_to_group`. -/
def insertLinks (groupId : Int) : List Int → Query Unit
  | [] => .pure ()
  | userId :: userIds => do
    execute (.insertLink userId groupId)
    insertLinks groupId userIds

/-- mirrors backend/app/services/group_service.py:168-181 -/
def addUsersToGroup (groupId : Int) (userIds : List Int) : Query Unit := do
  insertLinks groupId userIds
  commit

end MailserverUi.L3.GroupService
