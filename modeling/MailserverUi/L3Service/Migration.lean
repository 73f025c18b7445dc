import MailserverUi.Core.Resume
import MailserverUi.Core.Session
import MailserverUi.L2Store.Schema

/-!
# The schema at start-up

`create_db_and_tables` creates the tables that are missing and then brings those
that are there up to the models: columns that are missing are added, values are
carried from a renamed column to its successor, an obsolete table is dropped. What
there is to do is decided from the columns that the inspector finds first.

The `on` of an addition and of a renaming is what it makes of a table, and
`upgraded` what the whole makes of the tables of a file.
-/
namespace MailserverUi.L3.Migration

open Py L2.Schema

/-! ## The models -/

def unique (column : String) : Index := ⟨column.toList, true⟩

def plain (column : String) : Index := ⟨column.toList, false⟩

/-- Columns that are all `NOT NULL`, and those that are not. -/
def declared (name : String) (columns : List String) (nullable : List String)
    (primaryKey : List String) (indexes : List Index) : TableDecl where
  name := name.toList
  columns := columns.map fun c => (c.toList, c ∉ nullable)
  primaryKey := primaryKey.map String.toList
  indexes := indexes

/-- `SQLModel.metadata`, the tables that others refer to first.
mirrors backend/app/models/audit_models.py:28-54, group_models.py:22-51,
mail_models.py:24-54, settings_models.py:26-59, pending_action_models.py:24-42,
user_models.py:22-49 and pat_models.py:31-52 -/
def metadata : List TableDecl :=
  [declared "auditlog" ["actor", "category", "action", "target", "status", "detail", "ip", "id",
      "created_at"] [] ["id"] [plain "actor", plain "category", plain "action", plain "created_at"],
    declared "group" ["name", "description", "role", "id", "created_at", "updated_at"] [] ["id"]
      [unique "name"],
    declared "mailsettings" ["enabled", "host", "port", "username", "use_tls", "use_ssl",
      "from_address", "recipients", "notify_auth_events", "notify_audit_events", "id", "password",
      "updated_at"] [] ["id"] [],
    declared "oidcsettings" ["enabled", "issuer", "client_id", "redirect_uri",
      "post_logout_redirect_uri", "response_type", "scope", "oidc_only", "admin_group_claim",
      "admin_group", "manager_group_claim", "manager_group", "restrict_to_groups", "id",
      "client_secret", "updated_at"] [] ["id"] [],
    declared "pendingaction" ["key", "title", "detail", "id", "created_at", "updated_at"] [] ["id"]
      [unique "key"],
    declared "user" ["username", "display_name", "role", "provider", "is_active", "id",
      "password_hash", "created_at", "updated_at", "last_login_at"]
      ["password_hash", "last_login_at"] ["id"] [unique "username"],
    declared "pat" ["name", "id", "user_id", "token_hint", "token_hash", "created_at",
      "expires_at", "last_used_at"] ["expires_at", "last_used_at"] ["id"]
      [plain "user_id", unique "token_hash"],
    declared "user_group" ["user_id", "group_id"] [] ["user_id", "group_id"] []]

/-! ## What changed between versions -/

structure Added where
  table : Str
  name : Str
  ddl : Ddl

structure Renamed where
  table : Str
  old : Str
  new : Str
  deriving DecidableEq

def textDefault (s : String) : Ddl := ⟨.text s.toList, by simp⟩

/-- `_ADDED_COLUMNS`, column by column.
mirrors backend/app/database.py:28-36 -/
def addedColumns : List Added :=
  [⟨"group".toList, "role".toList, textDefault "guest"⟩,
    ⟨"oidcsettings".toList, "manager_group_claim".toList, textDefault ""⟩,
    ⟨"oidcsettings".toList, "manager_group".toList, textDefault ""⟩,
    ⟨"user".toList, "is_active".toList, ⟨.integer 1, by simp⟩⟩]

/-- `_RENAMED_COLUMNS`.
mirrors backend/app/database.py:42-45 -/
def renamedColumns : List Renamed :=
  [⟨"oidcsettings".toList, "user_group_claim".toList, "manager_group_claim".toList⟩,
    ⟨"oidcsettings".toList, "user_group".toList, "manager_group".toList⟩]

/-- `_DROPPED_TABLES`.
mirrors backend/app/database.py:51 -/
def droppedTables : List Str := ["api_key".toList]

/-! ## `create_db_and_tables` -/

/-- The tables that are not there yet. -/
def missingTables : List TableDecl → Work (List TableDecl)
  | [] => .pure []
  | decl :: l => .call (.hasTable decl.name) fun there => do
    let rest ← missingTables l
    return if there then rest else decl :: rest

/-- A table is created before its indexes are. -/
def creation (decl : TableDecl) : List Change :=
  .createTable decl :: decl.indexes.map (.createIndex decl.name)

/-- `SQLModel.metadata.create_all`. -/
def createAll : Work Unit := do
  let missing ← missingTables metadata
  (missing.flatMap creation).forM execute

/-- `columns[table]`, for every table. -/
abbrev Columns := Dict Str (List Str)

/-- `inspector.get_columns(table)`. -/
def getColumns (table : Str) : Work (List Str) :=
  .call (.columnNames table) fun
    | .ok names => .pure names
    | .error e => .raise e

/-- mirrors backend/app/database.py:74-78 -/
def inspectColumns : Work Columns :=
  .call .tableNames fun tables =>
    tables.foldlM (fun columns table => do return columns.set table (← getColumns table)) Dict.empty

/-- mirrors backend/app/database.py:80-90 -/
def addColumn (a : Added) (columns : Columns) : Work Columns :=
  match columns.get? a.table with
  | none => .pure columns
  | some names =>
    if a.name ∈ names then .pure columns
    else do
      execute (.addColumn a.table a.name a.ddl)
      return columns.set a.table (names ++ [a.name])

/-- mirrors backend/app/database.py:92-98 -/
def renameColumn (r : Renamed) (columns : Columns) : Work Columns :=
  match columns.get? r.table with
  | none => .pure columns
  | some names =>
    if r.old ∉ names then .pure columns
    else do
      execute (.copyColumn r.table r.new r.old)
      execute (.dropColumn r.table r.old)
      return columns.set r.table (names.filter fun name => name ≠ r.old)

/-- mirrors backend/app/database.py:100-108 -/
def dropTable (columns : Columns) (table : Str) : Work Unit :=
  match columns.get? table with
  | none => .pure ()
  | some _ => execute (.dropTable table)

/-- mirrors backend/app/database.py:68-108 -/
def migrateSchema : Work Unit := do
  let columns ← inspectColumns
  let columns ← addedColumns.foldlM (fun columns a => addColumn a columns) columns
  let columns ← renamedColumns.foldlM (fun columns r => renameColumn r columns) columns
  droppedTables.forM (dropTable columns)

/-- The two transactions.
mirrors backend/app/database.py:111-136 -/
def createDbAndTables : Work Unit := do
  match ← (createAll >>= fun _ => commit).attempt with
  | .ok () => migrateSchema >>= fun _ => commit
  | .error e => if e.alreadyExists then migrateSchema >>= fun _ => commit else .raise e

/-! ## What it makes of the tables -/

/-- The table with its indexes. -/
def complete (decl : TableDecl) : SqlTable := { SqlTable.created decl with indexes := decl.indexes }

def Added.on (a : Added) (t : SqlTable) : SqlTable := (t.addColumn a.name a.ddl).toOption.getD t

def Renamed.on (r : Renamed) (t : SqlTable) : SqlTable :=
  ((t.copyColumn r.new r.old).bind fun t => t.dropColumn r.old).toOption.getD t

/-- One table changed, if it is there. -/
def onTable (table : Str) (f : SqlTable → SqlTable) (d : Tables) : Tables :=
  match d.get? table with
  | none => d
  | some t => d.set table (f t)

def missing (d : Tables) : List TableDecl := metadata.filter fun decl => decl.name ∉ d.keys

def withTables (d : Tables) : Tables :=
  (missing d).foldl (fun d decl => d.set decl.name (complete decl)) d

def withColumns (d : Tables) : Tables :=
  addedColumns.foldl (fun d a => onTable a.table a.on d) d

def withNames (d : Tables) : Tables :=
  renamedColumns.foldl (fun d r => onTable r.table r.on d) d

def withoutTables (d : Tables) : Tables := droppedTables.foldl Dict.erase d

def upgraded (d : Tables) : Tables := withoutTables (withNames (withColumns (withTables d)))

end MailserverUi.L3.Migration
