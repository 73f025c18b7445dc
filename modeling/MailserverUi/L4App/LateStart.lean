import MailserverUi.L3Service.Seeding
import MailserverUi.L4App.SchemaUpgrade

/-!
# A start that a sibling overtakes

`create_db_and_tables` finds tables that another worker has created since it looked
for them, and a schema that another worker has upgraded. `Timely` says of a statement
of the migration that the table and the column are as the inspector found them.

Results:
* `settled_creates`: what the creation of the tables comes to where they are there.
* `settled_listed`: what the migration comes to where there is nothing to migrate.
* `exists_userTable`: the accounts in a file that is up to date.
-/
namespace MailserverUi.L4.LateStart

open Py L2.Schema L3.Migration L3.MigrationSpec L3.CreationSpec L3.Seeding SchemaUpgrade

/-- The inspector asks for a table that is still there, the column to add is not there
yet, and the column to rename and the table to drop still are. -/
def Timely : Stmt → Tables → Prop
  | .columnNames table, d => table ∈ d.keys
  | .change (.addColumn table name _), d => ∀ t ∈ d.get? table, name ∉ t.columns.keys
  | .change (.copyColumn table _ old), d => ∃ t ∈ d.get? table, old ∈ t.columns.keys
  | .change (.dropColumn table name), d => ∃ t ∈ d.get? table, name ∈ t.columns.keys
  | .change (.dropTable table), d => table ∈ d.keys
  | _, _ => True

instance (c : Stmt) (d : Tables) : Decidable (Timely c d) := by
  cases c with
  | columnNames table => exact inferInstanceAs (Decidable (table ∈ d.keys))
  | change c =>
    cases c with
    | addColumn table name ddl =>
      exact inferInstanceAs (Decidable (∀ t ∈ d.get? table, name ∉ t.columns.keys))
    | copyColumn table new old =>
      exact inferInstanceAs (Decidable (∃ t ∈ d.get? table, old ∈ t.columns.keys))
    | dropColumn table name =>
      exact inferInstanceAs (Decidable (∃ t ∈ d.get? table, name ∈ t.columns.keys))
    | dropTable table => exact inferInstanceAs (Decidable (table ∈ d.keys))
    | createTable | createIndex | insert => exact isTrue trivial
  | tableNames | hasTable | hasRow | commit => exact isTrue trivial

/-! ## The creation of the tables -/

/-- What `create_all` issues as long as no table is created. -/
def Creates : Stmt → Prop
  | .hasTable _ => True
  | .change (.createTable decl) => decl ∈ metadata
  | _ => False

/-- What another worker has created is there. -/
def TooLate : (c : Stmt) → Reply c → Prop
  | .change _, reply => ∃ table, reply = .error (.tableExists table)
  | _, _ => True

section
variable {α : Type} {P : Stmt → Prop} {Rep : (c : Stmt) → Reply c → Prop} {Err : SqlError → Prop}

theorem copes_missingTables {l : List TableDecl} {f : List TableDecl → Work α}
    (hP : ∀ table, P (.hasTable table))
    (hf : ∀ l', (∀ decl ∈ l', decl ∈ l) → (f l').Copes P Rep Err) :
    (missingTables l >>= f).Copes P Rep Err := by
  induction l generalizing f with
  | nil => exact hf [] fun _ => id
  | cons decl l ih =>
    refine ⟨hP _, fun there _ => ?_⟩
    change ((missingTables l >>= fun rest => Pure.pure (if there then rest else decl :: rest)) >>=
      f).Copes P Rep Err
    rw [Prog.bind_assoc]
    refine ih fun l' hl => hf _ fun x hx => ?_
    cases there with
    | true => exact List.mem_cons_of_mem decl (hl x hx)
    | false =>
      rcases List.mem_cons.mp hx with rfl | hx
      · exact List.mem_cons_self
      · exact List.mem_cons_of_mem decl (hl x hx)

end

/-- It goes no further than the first table. -/
theorem copes_createAll :
    createAll.Copes Creates TooLate fun e => e.alreadyExists = true := by
  refine copes_missingTables (fun _ => trivial) fun l hl => ?_
  cases l with
  | nil => trivial
  | cons decl l =>
    refine ⟨hl decl List.mem_cons_self, ?_⟩
    rintro _ ⟨table, rfl⟩
    rfl

theorem issues_createAll : createAll.Issues fun c => c.kind ≠ .commit := by
  refine Prog.issues_bind ((issues_missingTables metadata).mono fun c hc => ?_) fun l =>
    Prog.issues_forM fun c _ => ⟨Kind.noConfusion, fun reply => ?_⟩
  · rw [hc]
    exact Kind.noConfusion
  · cases reply <;> trivial

theorem Creates.kind_ne {c : Stmt} (h : Creates c) : c.kind ≠ .commit := by
  cases c with
  | commit => exact h.elim
  | _ => exact Kind.noConfusion

section
variable {c : Stmt} {d : Tables}

theorem exec_creates (hc : Creates c) (hd : HasTables d) :
    (c.exec d).2 = d ∧ TooLate c (c.exec d).1 := by
  cases c with
  | hasTable table => exact ⟨rfl, trivial⟩
  | change c =>
    cases c with
    | createTable decl =>
      have happly : (Change.createTable decl).apply d = .error (.tableExists decl.name) :=
        if_pos (hd decl hc)
      have hexec : (Stmt.change (.createTable decl)).exec d =
          (.error (.tableExists decl.name), d) := by simp only [Stmt.exec, happly]
      rw [hexec]
      exact ⟨rfl, decl.name, rfl⟩
    | _ => exact hc.elim
  | _ => exact hc.elim

/-- Where the tables are there, none is created. -/
theorem settled_creates (le : Tables → Tables → Prop) (Later : Tables → Prop)
    (hup : ∀ v v', Later v → le v v' → Later v') (hl : ∀ v, Later v → HasTables v)
    (G : Stmt → Tables → Prop) :
    Settled sqliteFile Stmt.kind le G Creates TooLate Later where
  up := hup
  commit _ := Creates.kind_ne
  same _ v hc hv _ := (exec_creates hc (hl v hv)).1
  reply _ v hc hv _ := (exec_creates hc (hl v hv)).2

end

/-! ## The migration -/

/-- A file with nothing to migrate. -/
structure Current (d : Tables) : Prop where
  tables : HasTables d
  added : ∀ a ∈ addedColumns, ∀ t ∈ d.get? a.table, a.name ∈ t.columns.keys
  renamed : ∀ r ∈ renamedColumns, ∀ t ∈ d.get? r.table, r.old ∉ t.columns.keys
  dropped : ∀ n ∈ droppedTables, n ∉ d.keys

/-- No error. -/
def Fine : (c : Stmt) → Reply c → Prop
  | .change _, reply => reply = .ok ()
  | .columnNames _, reply => ∃ names, reply = .ok names
  | _, _ => True

theorem copes_migrating : migrateSchema.Copes Listed Fine fun _ => False := by
  refine copes_migrateSchema ⟨fun c e h => ?_, fun table e h => ?_⟩
  · cases h
  · obtain ⟨names, h⟩ := h
    cases h

section
variable {c : Stmt} {d : Tables}

theorem fine_read (hc : c.kind = .read) (ht : Timely c d) : Fine c (c.exec d).1 := by
  cases c with
  | columnNames table =>
    obtain ⟨t, hg⟩ := Dict.mem_keys.mp ht
    simp only [Stmt.exec, hg]
    exact ⟨_, rfl⟩
  | change | commit => cases hc
  | tableNames | hasTable | hasRow => trivial

/-- Every change comes too late. -/
theorem Current.read (h : Current d) (hc : Listed c) (ht : Timely c d) : c.kind = .read := by
  cases c with
  | change c =>
    cases c with
    | addColumn table name ddl =>
      obtain ⟨a, ha, rfl, rfl⟩ := hc
      obtain ⟨decl, hm, hname⟩ := exists_decl a ha
      obtain ⟨t, hg⟩ := Dict.mem_keys.mp (hname ▸ h.tables decl hm)
      exact absurd (h.added a ha t hg) (ht t hg)
    | copyColumn | dropColumn =>
      obtain ⟨r, hr, rfl, rfl⟩ := hc
      obtain ⟨t, hg, hk⟩ := ht
      exact absurd hk (h.renamed r hr t hg)
    | dropTable table => exact absurd ht (h.dropped table hc)
    | createTable | createIndex | insert => exact hc.elim
  | tableNames | columnNames => rfl
  | hasTable | hasRow | commit => exact hc.elim

/-- Where there is nothing to migrate, timely statements only look. -/
theorem settled_listed (le : Tables → Tables → Prop) (Later : Tables → Prop)
    (hup : ∀ v v', Later v → le v v' → Later v') (hl : ∀ v, Later v → Current v) :
    Settled sqliteFile Stmt.kind le Timely Listed Fine Later where
  up := hup
  commit _ := Listed.kind_ne
  same _ v hc hv hg := exec_read ((hl v hv).read hc hg) v
  reply _ v hc hv hg := fine_read ((hl v hv).read hc hg) hg

theorem current_upgraded (hd : OldSchema d) : Current (upgraded d) where
  tables := by
    have hend := (always_migrateSchema hd).run
    rw [run_migrateSchema hd] at hend
    exact hend.2
  added a ha t ht := by
    obtain ⟨t', ht', hk⟩ := (upgraded_spec hd).added a ha
    cases ht.symm.trans ht'
    exact hk
  renamed := (upgraded_spec hd).renamed
  dropped := (upgraded_spec hd).dropped

/-- Rows do not matter. -/
theorem Current.set (h : Current d) {n : Str} {t t' : SqlTable} (hg : d.get? n = some t)
    (hk : ∀ x, x ∈ t'.columns.keys ↔ x ∈ t.columns.keys) : Current (d.set n t') := by
  have hkeys : (d.set n t').keys = d.keys := by
    rw [Dict.keys_set, if_pos (Dict.mem_keys_of_get? hg)]
  have hcols {m : Str} {u' : SqlTable} (hu : (d.set n t').get? m = some u') :
      ∃ u, d.get? m = some u ∧ ∀ x, x ∈ u'.columns.keys ↔ x ∈ u.columns.keys := by
    rw [Dict.get?_set] at hu
    split at hu
    · rename_i hm
      cases hu
      exact ⟨t, hm ▸ hg, hk⟩
    · exact ⟨u', hu, fun _ => Iff.rfl⟩
  refine ⟨fun decl hm => hkeys ▸ h.tables decl hm, fun a ha u' hu => ?_, fun r hr u' hu => ?_,
    fun n hn => hkeys ▸ h.dropped n hn⟩
  · obtain ⟨u, hget, hiff⟩ := hcols hu
    exact (hiff _).mpr (h.added a ha u hget)
  · obtain ⟨u, hget, hiff⟩ := hcols hu
    exact fun ho => h.renamed r hr u hget ((hiff _).mp ho)

end

/-! ## The accounts before and after -/

/-- The table with or without `is_active`. -/
structure WasUserTable (t : SqlTable) : Prop where
  keys : ∀ x, x ∈ userColumns ↔ x ∈ t.columns.keys ∨ x = "is_active".toList
  lastLogin : ∀ c ∈ t.columns.get? "last_login_at".toList, c.notNull = false
  primaryKey : t.primaryKey = ["id".toList]
  indexes : t.indexes = [unique "username"]

/-- How many local administrators there are. -/
def admins (d : Tables) : Nat := ((d.get? userTable).map fun t => rowCount t localAdmin).getD 0

def NameTaken (d : Tables) (username : Str) : Prop := ∃ t ∈ d.get? userTable, Named t username

theorem added_user : ∀ a ∈ addedColumns, a.table = userTable → a.name = "is_active".toList := by
  decide

theorem exists_added_user :
    ∃ a ∈ addedColumns, a.table = userTable ∧ a.name = "is_active".toList := by
  decide

theorem renamed_user : ∀ r ∈ renamedColumns, r.table ≠ userTable := by decide

theorem name_userDecl : userDecl.name = userTable := rfl

theorem userTable_kept : userTable ∉ droppedTables := by decide

theorem lastLogin_complete :
    ∀ c ∈ (complete userDecl).columns.get? "last_login_at".toList, c.notNull = false := by
  decide

theorem isUserTable_complete : IsUserTable (complete userDecl) where
  keys x := by
    change x ∈ (Dict.ofPairs _).keys ↔ _
    rw [Dict.mem_keys_ofPairs, List.map_map]
    exact Iff.rfl
  lastLogin := lastLogin_complete
  primaryKey := rfl
  indexes := rfl

theorem not_named_complete (decl : TableDecl) (username : Str) :
    ¬ Named (complete decl) username := by
  rintro ⟨c, hc, hm⟩
  have hempty : c.cells = [] := List.length_eq_zero_iff.mp (length_cells hc)
  rw [hempty] at hm
  cases hm

section
variable {d : Tables} {t : SqlTable} {username : Str}

theorem WasUserTable.isUserTable (h : WasUserTable t) {t' : SqlTable} (hk : Kept userTable t t')
    (hadded : "is_active".toList ∈ t'.columns.keys) : IsUserTable t' := by
  have hcol {x : Str} (hx : x ∈ t.columns.keys) : t'.columns.get? x = t.columns.get? x :=
    hk.columns x hx fun r hr e => absurd e (renamed_user r hr)
  refine ⟨fun x => ⟨fun hx => (h.keys x).mpr ?_, fun hx => ?_⟩, ?_, ?_, ?_⟩
  · exact (hk.listed x hx).imp_right fun ⟨a, ha, htable, hname⟩ =>
      hname ▸ added_user a ha htable
  · rcases (h.keys x).mp hx with hx | rfl
    · obtain ⟨c, hc⟩ := Dict.mem_keys.mp hx
      exact Dict.mem_keys_of_get? ((hcol hx).trans hc)
    · exact hadded
  · intro c hc
    have hx : "last_login_at".toList ∈ t.columns.keys :=
      ((h.keys _).mp (by decide)).resolve_right (by decide)
    exact h.lastLogin c ((hcol hx).symm.trans hc)
  · exact hk.rows.primaryKey.trans h.primaryKey
  · exact hk.rows.indexes.trans h.indexes

/-- What the upgrade makes of the accounts. -/
theorem exists_userTable (hd : OldSchema d) (hu : ∀ t ∈ d.get? userTable, WasUserTable t) :
    ∃ t, (upgraded d).get? userTable = some t ∧ IsUserTable t ∧
      rowCount t localAdmin = admins d ∧ ∀ username, Named t username ↔ NameTaken d username := by
  cases hg : d.get? userTable with
  | none =>
    have hm : userDecl ∈ missing d := by
      refine List.mem_filter.mpr ⟨userDecl_mem, ?_⟩
      rw [name_userDecl]
      exact decide_eq_true (Dict.get?_eq_none.mp hg)
    have hget := get?_upgraded_missing hm
    rw [name_userDecl] at hget
    refine ⟨_, hget, isUserTable_complete, ?_, fun username => ?_⟩
    · rw [admins, hg]
      rfl
    · refine iff_of_false (not_named_complete _ _) ?_
      rintro ⟨t, ht, -⟩
      rw [hg] at ht
      cases ht
  | some t =>
    have hwas := hu t hg
    have hk := kept_upgradedTable hd hg
    have hcol {x : Str} (hx : x ∈ t.columns.keys) :
        (withRenamed userTable (withAdded userTable t)).columns.get? x = t.columns.get? x :=
      hk.columns x hx fun r hr e => absurd e (renamed_user r hr)
    have hkey {x : Str} (hx : x ∈ userColumns) (hne : x ≠ "is_active".toList) :
        x ∈ t.columns.keys := ((hwas.keys x).mp hx).resolve_right hne
    obtain ⟨a, ha, htable, hname⟩ := exists_added_user
    have hadded : "is_active".toList ∈
        (withRenamed userTable (withAdded userTable t)).columns.keys :=
      (mem_keys_upgradedTable hd hg).mpr
        ⟨.inr ⟨a, ha, htable, hname⟩, fun r hr e => absurd e (renamed_user r hr)⟩
    refine ⟨_, get?_upgraded_of_get? hg userTable_kept, hwas.isUserTable hk hadded, ?_,
      fun username => ?_⟩
    · have hrow (i : Nat) : RowIs (withRenamed userTable (withAdded userTable t)) localAdmin i ↔
          RowIs t localAdmin i := by
        refine forall₂_congr fun v hv => ?_
        have hx : v.1 ∈ userColumns ∧ v.1 ≠ "is_active".toList := by
          revert v
          decide
        rw [hcol (hkey hx.1 hx.2)]
      rw [admins, hg, Option.map_some, Option.getD_some, rowCount, rowCount, hk.rows.height]
      simp only [hrow]
    · rw [Named, hcol (hkey (by decide) (by decide)), NameTaken, hg]
      simp only [Option.mem_some_iff, exists_eq_left', Named]

end

end MailserverUi.L4.LateStart
