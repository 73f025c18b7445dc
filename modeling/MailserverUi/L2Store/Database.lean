import MailserverUi.Core.Table
import MailserverUi.Core.Transaction
import MailserverUi.L2Store.Errors

/-!
# The account database

The tables of accounts, groups, memberships and personal access tokens, and
the SQL statements the services issue on them. The constraints of the schema
are fields of the types; foreign keys are not enforced by SQLite here.

`Sql` is one statement, atomic. `sqlite` runs the statements of one session, and
`session` a whole one: what it has not committed at its end is lost.

An account row has a ghost number, `born`, that no other row ever has, so that
an account can be told from a later one with its id or its name. Timestamps of
accounts and groups are left out.
-/
namespace MailserverUi.L2.Database

open Py Errors

/-! ## Rows -/

/-- mirrors backend/app/models/user_models.py:22-49 -/
structure UserRow where
  id : Int
  username : Str
  displayName : Str
  role : Str
  provider : Str
  isActive : Bool
  passwordHash : Option Str
  /-- ghost: how many accounts were inserted before this one -/
  born : Nat
  deriving DecidableEq, Repr

/-- mirrors backend/app/models/group_models.py:36-51 -/
structure GroupRow where
  id : Int
  name : Str
  description : Str
  role : Str
  deriving DecidableEq, Repr

/-- Instants are microseconds.
mirrors backend/app/models/pat_models.py:37-53 -/
structure PatRow where
  id : Int
  userId : Int
  name : Str
  tokenHint : Str
  tokenHash : Str
  createdAt : Int
  expiresAt : Option Int
  lastUsedAt : Option Int
  deriving DecidableEq, Repr

abbrev Users := Table UserRow Str UserRow.id UserRow.username

abbrev Groups := Table GroupRow Str GroupRow.id GroupRow.name

abbrev Pats := Table PatRow Str PatRow.id PatRow.tokenHash

/-- `links` holds `(user_id, group_id)`. -/
structure Db where
  users : Users
  groups : Groups
  links : List (Int × Int)
  pats : Pats
  /-- ghost: how many accounts were ever inserted -/
  born : Nat
  links_nodup : links.Nodup
  born_lt : ∀ u ∈ users, u.born < born
  born_inj : ∀ u ∈ users, ∀ v ∈ users, u.born = v.born → u = v

def noRows : Db where
  users := .empty
  groups := .empty
  links := []
  pats := .empty
  born := 0
  links_nodup := List.nodup_nil
  born_lt := by simp [← Table.mem_rows, Table.empty]
  born_inj := by simp [← Table.mem_rows, Table.empty]

/-- The columns an `UPDATE` of an account sets. -/
structure UserSet where
  displayName : Option Str := none
  role : Option Str := none
  passwordHash : Option Str := none
  isActive : Option Bool := none
  deriving DecidableEq, Repr

def UserSet.on (set : UserSet) (u : UserRow) : UserRow :=
  { u with displayName := set.displayName.getD u.displayName
           role := set.role.getD u.role
           passwordHash := set.passwordHash.or u.passwordHash
           isActive := set.isActive.getD u.isActive }

namespace Db

variable (d : Db)

/-! ## Statements -/

/-- `SELECT user_group.user_id, group.role ... JOIN group ... WHERE user_id IN`. -/
def grantedRoles (userIds : List Int) : List (Int × Str) :=
  (d.links.filter fun l => l.1 ∈ userIds).flatMap fun l =>
    (d.groups.rows.filter fun g => g.id = l.2).map fun g => (l.1, g.role)

def newUser (username displayName role provider : Str) (passwordHash : Option Str) : UserRow :=
  ⟨d.users.nextId, username, displayName, role, provider, true, passwordHash, d.born⟩

theorem born_newUser {u : UserRow} (hu : u.born = d.born) {t : Users}
    (h : d.users.insert u = some t) :
    (∀ v ∈ t, v.born < d.born + 1) ∧ ∀ v ∈ t, ∀ w ∈ t, v.born = w.born → v = w := by
  refine ⟨fun v hv => ?_, fun v hv w hw e => ?_⟩
  · rcases (Table.mem_insert h).mp hv with hv | rfl
    · have := d.born_lt v hv
      omega
    · omega
  · rcases (Table.mem_insert h).mp hv with hv | rfl
    · rcases (Table.mem_insert h).mp hw with hw | rfl
      · exact d.born_inj v hv w hw e
      · have := d.born_lt v hv
        omega
    · rcases (Table.mem_insert h).mp hw with hw | rfl
      · have := d.born_lt w hw
        omega
      · rfl

/-- `INSERT INTO user`; `none` when the username is taken. -/
def insertUser (username displayName role provider : Str) (passwordHash : Option Str) :
    Option (UserRow × Db) :=
  let u := d.newUser username displayName role provider passwordHash
  match h : d.users.insert u with
  | none => none
  | some t => some (u, { d with
      users := t
      born := d.born + 1
      born_lt := (d.born_newUser rfl h).1
      born_inj := (d.born_newUser rfl h).2 })

def setUsers (id : Int) (set : UserSet) : Users :=
  d.users.update id set.on (fun _ => rfl) (fun _ => rfl)

theorem mem_setUsers {id : Int} {set : UserSet} {v : UserRow} :
    v ∈ d.setUsers id set ↔ ∃ u ∈ d.users, v = if u.id = id then set.on u else u :=
  Table.mem_update

theorem born_set {u : UserRow} {id : Int} {set : UserSet} :
    (if u.id = id then set.on u else u).born = u.born := by
  split <;> rfl

/-- `UPDATE user SET ... WHERE id = ?`. -/
def updateUser (id : Int) (set : UserSet) : Db :=
  { d with
    users := d.setUsers id set
    born_lt := by
      intro v hv
      obtain ⟨u, hu, rfl⟩ := d.mem_setUsers.mp hv
      rw [born_set]
      exact d.born_lt u hu
    born_inj := by
      intro v hv w hw e
      obtain ⟨u, hu, rfl⟩ := d.mem_setUsers.mp hv
      obtain ⟨u', hu', rfl⟩ := d.mem_setUsers.mp hw
      rw [born_set, born_set] at e
      rw [d.born_inj u hu u' hu' e] }

/-- `DELETE FROM user WHERE id = ?`. -/
def deleteUser (id : Int) : Db :=
  { d with
    users := d.users.filter fun u => u.id ≠ id
    born_lt := fun u hu => d.born_lt u (Table.mem_filter.mp hu).1
    born_inj := fun u hu v hv =>
      d.born_inj u (Table.mem_filter.mp hu).1 v (Table.mem_filter.mp hv).1 }

/-- `DELETE FROM user_group`, the links that `p` selects. -/
def deleteLinks (p : Int × Int → Bool) : Db :=
  { d with
    links := d.links.filter fun l => !p l
    links_nodup := d.links_nodup.filter _ }

/-- `INSERT INTO user_group ... ON CONFLICT DO NOTHING`. -/
def insertLink (userId groupId : Int) : Db :=
  if h : (userId, groupId) ∈ d.links then d
  else { d with
    links := d.links ++ [(userId, groupId)]
    links_nodup := by
      rw [← List.concat_eq_append, List.nodup_concat]
      exact ⟨h, d.links_nodup⟩ }

/-- `INSERT INTO group`; `none` when the name is taken. -/
def insertGroup (name description role : Str) : Option (GroupRow × Db) :=
  let g : GroupRow := ⟨d.groups.nextId, name, description, role⟩
  (d.groups.insert g).map fun t => (g, { d with groups := t })

/-- `UPDATE group SET ... WHERE id = ?`; `none` when the name is taken. -/
def updateGroup (id : Int) (name description role : Str) : Option Db :=
  (d.groups.modify id (fun g => { g with name := name, description := description, role := role })
    fun _ => rfl).map fun t => { d with groups := t }

/-- `DELETE FROM group WHERE id = ?`. -/
def deleteGroup (id : Int) : Db := { d with groups := d.groups.filter fun g => g.id ≠ id }

/-- `SELECT ... FROM pat WHERE user_id = ? ORDER BY created_at DESC`. -/
def patsOfUser (userId : Int) : List PatRow :=
  (d.pats.rows.filter fun p => p.userId = userId).insertionSort fun p q => q.createdAt ≤ p.createdAt

/-- `INSERT INTO pat`; `none` when the digest is taken. -/
def insertPat (userId : Int) (name tokenHint tokenHash : Str) (createdAt : Int)
    (expiresAt : Option Int) : Option (PatRow × Db) :=
  let p : PatRow :=
    ⟨d.pats.nextId, userId, name, tokenHint, tokenHash, createdAt, expiresAt, none⟩
  (d.pats.insert p).map fun t => (p, { d with pats := t })

/-- `DELETE FROM pat WHERE id = ?`. -/
def deletePat (id : Int) : Db := { d with pats := d.pats.filter fun p => p.id ≠ id }

/-- `DELETE FROM pat WHERE user_id = ?`. -/
def deletePats (userId : Int) : Db := { d with pats := d.pats.filter fun p => p.userId ≠ userId }

/-- `UPDATE pat SET last_used_at = ? WHERE id = ?`. -/
def touchPat (id lastUsedAt : Int) : Db :=
  let used (p : PatRow) : PatRow := { p with lastUsedAt := some lastUsedAt }
  { d with pats := d.pats.update id used (fun _ => rfl) (fun _ => rfl) }

end Db

inductive Sql where
  | userById (id : Int)
  | userByName (username : Str)
  | users
  | userByRole (role provider : Str)
  | grantedRoles (userIds : List Int)
  | groupById (id : Int)
  | patByHash (tokenHash : Str)
  | patById (id : Int)
  | patsOfUser (userId : Int)
  | insertUser (username displayName role provider : Str) (passwordHash : Option Str)
  | updateUser (id : Int) (set : UserSet)
  | deleteUser (id : Int)
  | deleteMemberships (userId : Int)
  | insertGroup (name description role : Str)
  | updateGroup (id : Int) (name description role : Str)
  | deleteGroup (id : Int)
  | deleteMembers (groupId : Int)
  | insertLink (userId groupId : Int)
  | deleteLink (userId groupId : Int)
  | insertPat (userId : Int) (name tokenHint tokenHash : Str) (createdAt : Int)
    (expiresAt : Option Int)
  | deletePat (id : Int)
  | deletePats (userId : Int)
  | touchPat (id lastUsedAt : Int)
  | commit
  deriving DecidableEq, Repr

/-- A look-up answers with the row, an insert with the row or `none` for an
`IntegrityError`, an update with whether it could set a row. -/
abbrev Reply : Sql → Type
  | .userById _ | .userByName _ | .userByRole .. | .insertUser .. => Option UserRow
  | .users => List UserRow
  | .grantedRoles _ => List (Int × Str)
  | .groupById _ | .insertGroup .. => Option GroupRow
  | .patByHash _ | .patById _ | .insertPat .. => Option PatRow
  | .patsOfUser _ => List PatRow
  | .updateUser .. | .updateGroup .. => Bool
  | _ => Unit

abbrev Query := Prog Sql Reply ApiError

/-- `session.exec(statement)`. -/
def execute (c : Sql) : Query (Reply c) := Prog.request c

/-- `session.commit()`. -/
def commit : Query Unit := execute .commit

/-- One statement on the rows it sees. -/
def Sql.exec : (c : Sql) → Db → Reply c × Db
  | .userById id, d => (d.users.find id, d)
  | .userByName username, d => (d.users.findKey username, d)
  | .users, d => (d.users.rows.insertionSort fun u v => u.username ≤ v.username, d)
  | .userByRole role provider, d =>
    (d.users.rows.find? fun u => u.role = role ∧ u.provider = provider, d)
  | .grantedRoles userIds, d => (d.grantedRoles userIds, d)
  | .groupById id, d => (d.groups.find id, d)
  | .patByHash tokenHash, d => (d.pats.findKey tokenHash, d)
  | .patById id, d => (d.pats.find id, d)
  | .patsOfUser userId, d => (d.patsOfUser userId, d)
  | .insertUser username displayName role provider passwordHash, d =>
    match d.insertUser username displayName role provider passwordHash with
    | some (u, d') => (some u, d')
    | none => (none, d)
  | .updateUser id set, d => ((d.users.find id).isSome, d.updateUser id set)
  | .deleteUser id, d => ((), d.deleteUser id)
  | .deleteMemberships userId, d => ((), d.deleteLinks fun l => l.1 = userId)
  | .insertGroup name description role, d =>
    match d.insertGroup name description role with
    | some (g, d') => (some g, d')
    | none => (none, d)
  | .updateGroup id name description role, d =>
    match d.updateGroup id name description role with
    | some d' => ((d.groups.find id).isSome, d')
    | none => (false, d)
  | .deleteGroup id, d => ((), d.deleteGroup id)
  | .deleteMembers groupId, d => ((), d.deleteLinks fun l => l.2 = groupId)
  | .insertLink userId groupId, d => ((), d.insertLink userId groupId)
  | .deleteLink userId groupId, d => ((), d.deleteLinks fun l => l = (userId, groupId))
  | .insertPat userId name tokenHint tokenHash createdAt expiresAt, d =>
    match d.insertPat userId name tokenHint tokenHash createdAt expiresAt with
    | some (p, d') => (some p, d')
    | none => (none, d)
  | .deletePat id, d => ((), d.deletePat id)
  | .deletePats userId, d => ((), d.deletePats userId)
  | .touchPat id lastUsedAt, d => ((), d.touchPat id lastUsedAt)
  | .commit, d => ((), d)

def Sql.kind : Sql → Kind
  | .userById _ | .userByName _ | .users | .userByRole .. | .grantedRoles _ | .groupById _
  | .patByHash _ | .patById _ | .patsOfUser _ => .read
  | .commit => .commit
  | _ => .write

/-! ## Sessions -/

/-- A statement on the rows that the session sees. -/
def statements : Machine Sql Reply Db := ⟨Sql.exec⟩

/-- mirrors backend/app/depends.py:38-48 -/
def sqlite : Machine Sql Reply (Tx Db) := statements.inTx Sql.kind

/-- A session from its start to its end. -/
def session {α : Type} (q : Query α) (d : Db) : Except ApiError α × Db :=
  let r := q.run sqlite ⟨d, none⟩
  (r.1, r.2.committed)

end MailserverUi.L2.Database
