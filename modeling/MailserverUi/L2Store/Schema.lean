import MailserverUi.Core.Dict
import MailserverUi.Core.Interrupt
import MailserverUi.Core.Text
import MailserverUi.Core.Transaction

/-!
# The tables of the SQLite file

A table has columns, each with one value for every row, a primary key and
indexes. `Change` is one statement that changes the file, with the errors SQLite
refuses it with: a table that is there already or is not there, a column that is
there twice, not there, or cannot be dropped, a constraint. `Stmt` adds the
statements that only look.

Left out are the types of the columns (those that are copied into one another are
`VARCHAR` both, so that a copy converts nothing), foreign keys, which are not
enforced here, and the names of indexes: that of an index is made of the names of
its table and its column.
-/
namespace MailserverUi.L2.Schema

open Py

/-! ## Tables -/

inductive Value where
  | null
  | integer (n : Int)
  | real (bits : BitVec 64)
  | text (s : Str)
  | blob (bytes : List UInt8)
  deriving DecidableEq

/-- `cells` holds the value of each row. -/
structure Column where
  notNull : Bool
  cells : List Value
  no_null : notNull = true → Value.null ∉ cells

structure Index where
  column : Str
  unique : Bool
  deriving DecidableEq

structure SqlTable where
  height : Nat
  columns : Dict Str Column
  primaryKey : List Str
  indexes : List Index
  filled : ∀ p ∈ columns.items, p.2.cells.length = height

abbrev Tables := Dict Str SqlTable

/-- `NOT NULL DEFAULT ...`, as `ADD COLUMN` has it. -/
structure Ddl where
  default : Value
  not_null : default ≠ .null

/-- A table of the models, with the columns, whether each is `NOT NULL`, and the
indexes that are created after it. -/
structure TableDecl where
  name : Str
  columns : List (Str × Bool)
  primaryKey : List Str
  indexes : List Index
  deriving DecidableEq

/-! ## Errors -/

inductive SqlError where
  | tableExists (table : Str)
  | indexExists (table column : Str)
  | noSuchTable (table : Str)
  | noSuchColumn (column : Str)
  | duplicateColumn (column : Str)
  | cannotDrop (column : Str)
  | notNullFailed (column : Str)
  | uniqueFailed (column : Str)
  deriving DecidableEq

/-- An `OperationalError` whose text has `already exists` in it. -/
def SqlError.alreadyExists : SqlError → Bool
  | .tableExists _ | .indexExists .. => true
  | _ => false

/-- An `IntegrityError`. -/
def SqlError.integrity : SqlError → Bool
  | .notNullFailed _ | .uniqueFailed _ => true
  | _ => false

/-! ## Changes -/

def Column.empty (notNull : Bool) : Column := ⟨notNull, [], fun _ => List.not_mem_nil⟩

def Column.filled (ddl : Ddl) (height : Nat) : Column where
  notNull := true
  cells := List.replicate height ddl.default
  no_null _ h := ddl.not_null (List.eq_of_mem_replicate h).symm

/-- No two rows have the same value, `NULL` apart. -/
def Distinct (cells : List Value) : Prop := (cells.filter fun v => v ≠ .null).Nodup

instance (cells : List Value) : Decidable (Distinct cells) :=
  inferInstanceAs (Decidable (List.Nodup _))

def Value.number : Value → Int
  | .integer n => n
  | _ => 0

/-- One more than any number in an integer primary key. -/
def nextId (cells : List Value) : Int := (cells.map Value.number).foldl max 0 + 1

namespace SqlTable

/-- The table as `CREATE TABLE` leaves it. -/
def created (decl : TableDecl) : SqlTable where
  height := 0
  columns := .ofPairs (decl.columns.map fun c => (c.1, .empty c.2))
  primaryKey := decl.primaryKey
  indexes := []
  filled p hp := by
    obtain ⟨c, -, rfl⟩ := List.mem_map.mp (Dict.mem_of_mem_ofPairs hp)
    rfl

theorem filled_set (t : SqlTable) {name : Str} {c : Column} (h : c.cells.length = t.height) :
    ∀ p ∈ (t.columns.set name c).items, p.2.cells.length = t.height := by
  intro p hp
  have hget := Dict.mem_items.mp hp
  rw [Dict.get?_set] at hget
  split at hget
  · cases hget
    exact h
  · exact t.filled p (Dict.mem_items.mpr hget)

theorem filled_erase (t : SqlTable) (name : Str) :
    ∀ p ∈ (t.columns.erase name).items, p.2.cells.length = t.height :=
  fun p hp => t.filled p (List.mem_filter.mp hp).1

/-- The table with one column as given. -/
def put (t : SqlTable) (name : Str) (c : Column) (h : c.cells.length = t.height) : SqlTable :=
  { t with columns := t.columns.set name c, filled := t.filled_set h }

def without (t : SqlTable) (name : Str) : SqlTable :=
  { t with columns := t.columns.erase name, filled := t.filled_erase name }

/-- The values of a column must not repeat. -/
def Unique (t : SqlTable) (column : Str) : Prop :=
  t.primaryKey = [column] ∨ ∃ i ∈ t.indexes, i.column = column ∧ i.unique = true

/-- A key or an index is made of the column. -/
def Keyed (t : SqlTable) (column : Str) : Prop :=
  column ∈ t.primaryKey ∨ ∃ i ∈ t.indexes, i.column = column

instance (t : SqlTable) (column : Str) : Decidable (t.Unique column) :=
  inferInstanceAs (Decidable (_ ∨ _))

instance (t : SqlTable) (column : Str) : Decidable (t.Keyed column) :=
  inferInstanceAs (Decidable (_ ∨ _))

/-- `CREATE INDEX`. -/
def createIndex (t : SqlTable) (name : Str) (i : Index) : Except SqlError SqlTable :=
  if ∃ j ∈ t.indexes, j.column = i.column then .error (.indexExists name i.column)
  else
    match t.columns.get? i.column with
    | none => .error (.noSuchColumn i.column)
    | some c =>
      if i.unique = true ∧ ¬ Distinct c.cells then .error (.uniqueFailed i.column)
      else .ok { t with indexes := t.indexes ++ [i] }

/-- `ALTER TABLE ... ADD COLUMN ... NOT NULL DEFAULT ...`. -/
def addColumn (t : SqlTable) (name : Str) (ddl : Ddl) : Except SqlError SqlTable :=
  if name ∈ t.columns.keys then .error (.duplicateColumn name)
  else .ok (t.put name (.filled ddl t.height) List.length_replicate)

/-- `UPDATE ... SET new = old`. -/
def copyColumn (t : SqlTable) (new old : Str) : Except SqlError SqlTable :=
  match ho : t.columns.get? old with
  | none => .error (.noSuchColumn old)
  | some source =>
    match t.columns.get? new with
    | none => .error (.noSuchColumn new)
    | some target =>
      if h : target.notNull = true ∧ Value.null ∈ source.cells then .error (.notNullFailed new)
      else if t.Unique new ∧ ¬ Distinct source.cells then .error (.uniqueFailed new)
      else
        .ok (t.put new ⟨target.notNull, source.cells, fun hn hmem => h ⟨hn, hmem⟩⟩
          (t.filled (old, source) (Dict.mem_items.mpr ho)))

/-- `ALTER TABLE ... DROP COLUMN`. -/
def dropColumn (t : SqlTable) (name : Str) : Except SqlError SqlTable :=
  if name ∉ t.columns.keys then .error (.noSuchColumn name)
  else if t.Keyed name ∨ t.columns.keys = [name] then .error (.cannotDrop name)
  else .ok (t.without name)

/-- What an `INSERT` stores in a column; an integer primary key is numbered. -/
def valueOf (t : SqlTable) (values : List (Str × Value)) (name : Str) : Value :=
  if t.primaryKey = [name] then .integer (nextId (((t.columns.get? name).map Column.cells).getD []))
  else ((values.find? fun v => v.1 = name).map Prod.snd).getD .null

/-- A value that a unique column has already. -/
def Taken (t : SqlTable) (name : Str) (v : Value) : Prop :=
  t.Unique name ∧ v ≠ .null ∧ ∃ c ∈ t.columns.get? name, v ∈ c.cells

instance (t : SqlTable) (name : Str) (v : Value) : Decidable (t.Taken name v) :=
  inferInstanceAs (Decidable (_ ∧ _ ∧ ∃ c ∈ t.columns.get? name, v ∈ c.cells))

/-- One more row. -/
def extend (t : SqlTable) (value : Str → Value)
    (h : ∀ p ∈ t.columns.items, p.2.notNull = true → value p.1 ≠ .null) : SqlTable where
  height := t.height + 1
  columns :=
    ⟨t.columns.items.attach.map fun p => (p.1.1,
        { notNull := p.1.2.notNull
          cells := p.1.2.cells ++ [value p.1.1]
          no_null := fun hn hmem => (List.mem_append.mp hmem).elim (p.1.2.no_null hn)
            fun he => h p.1 p.2 hn (List.mem_singleton.mp he).symm }), by
      rw [List.map_map, Function.comp_def, List.attach_map_val (f := Prod.fst)]
      exact t.columns.nodup⟩
  primaryKey := t.primaryKey
  indexes := t.indexes
  filled p hp := by
    obtain ⟨⟨q, hq⟩, -, rfl⟩ := List.mem_map.mp hp
    rw [List.length_append, t.filled q hq, List.length_singleton]

/-- `INSERT INTO ...`. -/
def insert (t : SqlTable) (values : List (Str × Value)) : Except SqlError SqlTable :=
  match values.find? fun v => v.1 ∉ t.columns.keys with
  | some v => .error (.noSuchColumn v.1)
  | none =>
    match t.columns.keys.find? fun name => t.Taken name (t.valueOf values name) with
    | some name => .error (.uniqueFailed name)
    | none =>
      match h : t.columns.items.find? fun p =>
          p.2.notNull = true ∧ t.valueOf values p.1 = .null with
      | some p => .error (.notNullFailed p.1)
      | none => .ok (t.extend (t.valueOf values) fun p hp hn hv =>
          List.find?_eq_none.mp h p hp (decide_eq_true ⟨hn, hv⟩))

/-- Some row has these values. -/
def HasRow (t : SqlTable) (values : List (Str × Value)) : Prop :=
  ∃ i < t.height, ∀ v ∈ values, ∃ c ∈ t.columns.get? v.1, c.cells[i]? = some v.2

instance (t : SqlTable) (values : List (Str × Value)) : Decidable (t.HasRow values) :=
  inferInstanceAs (Decidable (∃ i < t.height, ∀ v ∈ values, ∃ c ∈ t.columns.get? v.1, _))

end SqlTable

/-- `insert` is `INSERT INTO table (names) VALUES (...)`. -/
inductive Change where
  | createTable (decl : TableDecl)
  | createIndex (table : Str) (i : Index)
  | addColumn (table name : Str) (ddl : Ddl)
  | copyColumn (table new old : Str)
  | dropColumn (table name : Str)
  | dropTable (table : Str)
  | insert (table : Str) (values : List (Str × Value))

/-- A change of one table. -/
def Tables.alter (d : Tables) (table : Str) (f : SqlTable → Except SqlError SqlTable) :
    Except SqlError Tables :=
  match d.get? table with
  | none => .error (.noSuchTable table)
  | some t => (f t).map (d.set table)

/-- One statement on the tables it sees. -/
def Change.apply : Change → Tables → Except SqlError Tables
  | .createTable decl, d =>
    if decl.name ∈ d.keys then .error (.tableExists decl.name)
    else .ok (d.set decl.name (.created decl))
  | .createIndex table i, d => d.alter table fun t => t.createIndex table i
  | .addColumn table name ddl, d => d.alter table fun t => t.addColumn name ddl
  | .copyColumn table new old, d => d.alter table fun t => t.copyColumn new old
  | .dropColumn table name, d => d.alter table fun t => t.dropColumn name
  | .dropTable table, d =>
    if table ∈ d.keys then .ok (d.erase table) else .error (.noSuchTable table)
  | .insert table values, d => d.alter table fun t => t.insert values

/-! ## Statements -/

/-- `SELECT columns FROM table WHERE ...`: whether there is a row with these
values. -/
def Tables.hasRow (d : Tables) (table : Str) (columns : List Str) (values : List (Str × Value)) :
    Except SqlError Bool :=
  match d.get? table with
  | none => .error (.noSuchTable table)
  | some t =>
    match columns.find? fun name => name ∉ t.columns.keys with
    | some name => .error (.noSuchColumn name)
    | none => .ok (decide (t.HasRow values))

/-- `tableNames`, `hasTable` and `columnNames` are the questions of SQLAlchemy's
inspector. -/
inductive Stmt where
  | tableNames
  | hasTable (table : Str)
  | columnNames (table : Str)
  | hasRow (table : Str) (columns : List Str) (values : List (Str × Value))
  | change (c : Change)
  | commit

abbrev Reply : Stmt → Type
  | .tableNames => List Str
  | .hasTable _ => Bool
  | .columnNames _ => Except SqlError (List Str)
  | .hasRow .. => Except SqlError Bool
  | .change _ => Except SqlError Unit
  | .commit => Unit

def Stmt.exec : (c : Stmt) → Tables → Reply c × Tables
  | .tableNames, d => (d.keys, d)
  | .hasTable table, d => (decide (table ∈ d.keys), d)
  | .columnNames table, d =>
    match d.get? table with
    | none => (.error (.noSuchTable table), d)
    | some t => (.ok t.columns.keys, d)
  | .hasRow table columns values, d => (d.hasRow table columns values, d)
  | .change c, d =>
    match c.apply d with
    | .error e => (.error e, d)
    | .ok d' => (.ok (), d')
  | .commit, d => ((), d)

def Stmt.kind : Stmt → Kind
  | .change _ => .write
  | .commit => .commit
  | _ => .read

/-- The statements on one file, each of them kept as it is done. -/
def sqliteFile : Machine Stmt Reply Tables := ⟨Stmt.exec⟩

abbrev Work (α : Type) := Prog Stmt Reply SqlError α

/-- `connection.execute(...)`. -/
def execute (c : Change) : Work Unit :=
  .call (.change c) fun
    | .ok () => .pure ()
    | .error e => .raise e

def commit : Work Unit := .call .commit .pure

/-! ## What a statement leaves -/

theorem run_execute {c : Change} {d d' : Tables} (h : c.apply d = .ok d') :
    (execute c).run sqliteFile d = (.ok (), d') := by
  simp only [execute, Prog.run, sqliteFile, Stmt.exec, h]

theorem steps_execute {c : Change} {d d' : Tables} (h : c.apply d = .ok d') :
    (execute c).steps sqliteFile d = 1 := by
  simp only [execute, Prog.steps, sqliteFile, Stmt.exec, h]

theorem always_execute {c : Change} {d d' : Tables} {I : Tables → Prop} (h : c.apply d = .ok d')
    (hd : I d) (hd' : I d') : (execute c).Always sqliteFile I d := by
  refine ⟨hd, ?_⟩
  simp only [sqliteFile, Stmt.exec, h]
  exact hd'

theorem exec_read {c : Stmt} (h : c.kind = .read) (d : Tables) : (c.exec d).2 = d := by
  cases c with
  | tableNames => rfl
  | hasTable table => rfl
  | columnNames table =>
    simp only [Stmt.exec]
    split <;> rfl
  | hasRow table columns values => rfl
  | change c => cases h
  | commit => rfl

/-- A program that only looks. -/
theorem always_of_reads {α : Type} {p : Work α} (h : p.Issues fun c => c.kind = .read)
    (d : Tables) : p.Always sqliteFile (· = d) d := by
  refine h.always (fun c t hc ht => ?_) rfl
  rw [← ht]
  exact exec_read hc t

end MailserverUi.L2.Schema
