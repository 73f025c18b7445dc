import MailserverUi.Core.Rely
import MailserverUi.L3Service.MigrationSpec

/-!
# What `create_all` does to a file

A table that is missing is created by one statement, and each of its indexes by one
more. `Between d` says of a file on the way from `d`, with the statement that comes
next, that it leads where `d` does, or that an index comes next; then a table that
was created on the way lacks it (`Short d`).

Results:
* `run_createDbAndTables`: the two transactions, on a file of the old schema.
* `points_createDbAndTables`: every file on the way is taken to the same end, save
  those from which an index is created next.
* `upgraded_fixed`: there is nothing to do on a file that is up to date.
-/
namespace MailserverUi.L3.CreationSpec

open Py L2.Schema Migration MigrationSpec

/-! ## The tables of the models -/

theorem nodup_metadata : (metadata.map TableDecl.name).Nodup := by decide

/-- An index is of a declared column, and there is one of each at most. -/
def Sound (decl : TableDecl) : Prop :=
  (decl.indexes.map Index.column).Nodup ∧ ∀ i ∈ decl.indexes, i.column ∈ decl.columns.map Prod.fst

instance (decl : TableDecl) : Decidable (Sound decl) := inferInstanceAs (Decidable (_ ∧ _))

theorem sound_metadata : ∀ decl ∈ metadata, Sound decl := by decide

/-- The table with some of its indexes. -/
def createdWith (decl : TableDecl) (indexes : List Index) : SqlTable :=
  { SqlTable.created decl with indexes := indexes }

instance (t : SqlTable) (name : Str) : Decidable (Plain t name) :=
  inferInstanceAs (Decidable (_ ∧ ∀ c ∈ t.columns.get? name, c.notNull = true))

theorem plain_metadata : ∀ decl ∈ metadata, ∀ r ∈ renamedColumns, decl.name = r.table →
    Plain (complete decl) r.old ∧ Plain (complete decl) r.new := by decide

theorem Plain.createdWith {decl : TableDecl} {indexes : List Index} {name : Str}
    (h : Plain (complete decl) name) (hi : ∀ i ∈ indexes, i ∈ decl.indexes) :
    Plain (createdWith decl indexes) name := by
  refine ⟨fun hk => h.1 ?_, h.2⟩
  exact hk.imp_right fun ⟨i, hm, hc⟩ => ⟨i, hi i hm, hc⟩

/-! ## The statements that create a table -/

section
variable {d : Tables} {decl : TableDecl}

theorem apply_createTable (h : decl.name ∉ d.keys) :
    (Change.createTable decl).apply d = .ok (d.set decl.name (createdWith decl [])) := if_neg h

theorem createIndex_ok {indexes : List Index} {i : Index} {name : Str}
    (hi : ∀ j ∈ indexes, j.column ≠ i.column) (hc : i.column ∈ decl.columns.map Prod.fst) :
    (createdWith decl indexes).createIndex name i = .ok (createdWith decl (indexes ++ [i])) := by
  have hnone : ¬ ∃ j ∈ (createdWith decl indexes).indexes, j.column = i.column :=
    fun ⟨j, hj, he⟩ => hi j hj he
  have hkey : i.column ∈ (createdWith decl indexes).columns.keys := by
    refine Dict.mem_keys_ofPairs.mpr ?_
    rw [List.map_map]
    exact hc
  obtain ⟨c, hg⟩ := Dict.mem_keys.mp hkey
  have hempty : c.cells = [] := by
    have := (createdWith decl indexes).filled _ (Dict.mem_items.mpr hg)
    exact List.length_eq_zero_iff.mp this
  have hdist : ¬ (i.unique = true ∧ ¬ Distinct c.cells) := by
    rintro ⟨-, hd⟩
    rw [hempty] at hd
    exact hd List.nodup_nil
  rw [SqlTable.createIndex, if_neg hnone, hg]
  dsimp only
  rw [if_neg hdist]
  rfl

theorem apply_createIndex {indexes : List Index} {i : Index}
    (hi : ∀ j ∈ indexes, j.column ≠ i.column) (hc : i.column ∈ decl.columns.map Prod.fst) :
    (Change.createIndex decl.name i).apply (d.set decl.name (createdWith decl indexes)) =
      .ok (d.set decl.name (createdWith decl (indexes ++ [i]))) := by
  have hg : (d.set decl.name (createdWith decl indexes)).get? decl.name =
      some (createdWith decl indexes) := by rw [Dict.get?_set, if_pos rfl]
  simp only [Change.apply, Tables.alter, hg, createIndex_ok hi hc, Except.map, Dict.set_set]

end

/-! ## Lists of changes -/

/-- The changes succeed one after the other and end in `d'`; `J` holds wherever one
of them comes next. -/
inductive Does (J : Tables → Option Stmt → Prop) : List Change → Tables → Tables → Prop where
  | nil (d : Tables) : Does J [] d d
  | cons {c : Change} {l : List Change} {d d' d'' : Tables} (hc : c.apply d = .ok d')
      (hJ : J d (some (.change c))) (h : Does J l d' d'') : Does J (c :: l) d d''

section
variable {J : Tables → Option Stmt → Prop} {d d' d'' : Tables} {l l' : List Change}

theorem Does.append (h : Does J l d d') (h' : Does J l' d' d'') : Does J (l ++ l') d d'' := by
  induction h with
  | nil d => exact h'
  | cons hc hJ _ ih => exact .cons hc hJ (ih h')

theorem Does.run (h : Does J l d d') : (l.forM execute).run sqliteFile d = (.ok (), d') := by
  induction h with
  | nil d => rfl
  | @cons c l d d' d'' hc hJ _ ih =>
    change (execute c >>= fun _ => l.forM execute).run sqliteFile d = _
    rw [Prog.run_bind, run_execute hc]
    exact ih

theorem Does.points (h : Does J l d d') :
    (l.forM execute).Points sqliteFile (fun t c => ∀ x, c = some x → J t c) d := by
  induction h with
  | nil d => exact fun x hx => by cases hx
  | @cons c l d d' d'' hc hJ _ ih =>
    refine Prog.points_bind ⟨fun _ _ _ _ => hJ, ?_⟩ (run_execute hc) ih
    simp only [sqliteFile, Stmt.exec, hc]
    exact fun x hx => by cases hx

theorem Does.steps (h : Does J l d d') : (l.forM execute).steps sqliteFile d = l.length := by
  induction h with
  | nil d => rfl
  | @cons c l d d' d'' hc _ _ ih =>
    change (execute c >>= fun _ => l.forM execute).steps sqliteFile d = _
    rw [Prog.steps_bind (run_execute hc), steps_execute hc, ih, List.length_cons, Nat.add_comm]

theorem Does.nextAt (h : Does J l d d') (m : Nat) :
    (l.forM execute).nextAt sqliteFile m d = l[m]?.map .change := by
  induction h generalizing m with
  | nil d => cases m <;> rfl
  | @cons c l d d' d'' hc _ _ ih =>
    change (execute c >>= fun _ => l.forM execute).nextAt sqliteFile m d = _
    cases m with
    | zero => rfl
    | succ m =>
      have hnext := Prog.nextAt_bind_add (f := fun _ => l.forM execute) (run_execute hc) m
      rw [steps_execute hc, Nat.add_comm] at hnext
      exact hnext.trans (ih m)

variable {decl : TableDecl}

/-- The indexes of a table, from where some of them are there. -/
theorem does_indexes (hs : Sound decl) {pre post : List Index} (hl : decl.indexes = pre ++ post)
    (hJ : ∀ l₁ i l₂, decl.indexes = l₁ ++ i :: l₂ →
      J (d.set decl.name (createdWith decl l₁)) (some (.change (.createIndex decl.name i)))) :
    Does J (post.map (.createIndex decl.name)) (d.set decl.name (createdWith decl pre))
      (d.set decl.name (complete decl)) := by
  induction post generalizing pre with
  | nil =>
    rw [List.append_nil] at hl
    rw [← hl]
    exact .nil _
  | cons i post ih =>
    have hne : ∀ j ∈ pre, j.column ≠ i.column := by
      have hnd := hs.1
      rw [hl, List.map_append, List.nodup_append] at hnd
      exact fun j hj => hnd.2.2 _ (List.mem_map_of_mem hj) _ List.mem_cons_self
    have hmem : i ∈ decl.indexes := hl ▸ List.mem_append_right pre List.mem_cons_self
    refine .cons (apply_createIndex hne (hs.2 i hmem)) (hJ pre i post hl) (ih ?_)
    rw [hl, List.append_assoc, List.singleton_append]

theorem does_creation (hs : Sound decl) (hn : decl.name ∉ d.keys)
    (hJ : J d (some (.change (.createTable decl))))
    (hJ' : ∀ l₁ i l₂, decl.indexes = l₁ ++ i :: l₂ →
      J (d.set decl.name (createdWith decl l₁)) (some (.change (.createIndex decl.name i)))) :
    Does J (creation decl) d (d.set decl.name (complete decl)) :=
  .cons (apply_createTable hn) hJ (does_indexes hs (List.nil_append _).symm hJ')

end

/-! ## The missing tables -/

/-- The file with some tables more. -/
def withDecls (d : Tables) (l : List TableDecl) : Tables :=
  l.foldl (fun d decl => d.set decl.name (complete decl)) d

section
variable {d : Tables}

theorem withDecls_append (l l' : List TableDecl) :
    withDecls d (l ++ l') = withDecls (withDecls d l) l' := List.foldl_append

theorem mem_keys_withDecls {l : List TableDecl} {n : Str} :
    n ∈ (withDecls d l).keys ↔ n ∈ d.keys ∨ n ∈ l.map TableDecl.name := by
  induction l generalizing d with
  | nil => simp [withDecls]
  | cons decl l ih =>
    rw [List.map_cons, List.mem_cons, ← or_assoc]
    refine ih.trans (or_congr_left ?_)
    rw [Dict.mem_keys_set, or_comm]

/-- Creating tables of the models that are not there. -/
theorem does_creations {J : Tables → Option Stmt → Prop} {l : List TableDecl}
    (hn : (l.map TableDecl.name).Nodup) (hd : ∀ decl ∈ l, decl.name ∉ d.keys ∧ Sound decl)
    (hJ : ∀ l₁ decl l₂, l = l₁ ++ decl :: l₂ →
      J (withDecls d l₁) (some (.change (.createTable decl))))
    (hJ' : ∀ l₁ decl l₂ pre i post, l = l₁ ++ decl :: l₂ → decl.indexes = pre ++ i :: post →
      J ((withDecls d l₁).set decl.name (createdWith decl pre))
        (some (.change (.createIndex decl.name i)))) :
    Does J (l.flatMap creation) d (withDecls d l) := by
  induction l generalizing d with
  | nil => exact .nil d
  | cons decl l ih =>
    rw [List.map_cons, List.nodup_cons] at hn
    obtain ⟨hname, hs⟩ := hd decl List.mem_cons_self
    have hfirst := does_creation (d := d) hs hname (hJ [] decl l rfl)
      fun pre i post hi => hJ' [] decl l pre i post rfl hi
    refine hfirst.append (ih hn.2 (fun x hx => ⟨fun hk => ?_, (hd x (List.mem_cons_of_mem _ hx)).2⟩)
      (fun l₁ x l₂ e => hJ (decl :: l₁) x l₂ (congrArg _ e))
      fun l₁ x l₂ pre i post e hi => hJ' (decl :: l₁) x l₂ pre i post (congrArg _ e) hi)
    rcases Dict.mem_keys_set.mp hk with e | hk
    · exact hn.1 (e ▸ List.mem_map_of_mem hx)
    · exact (hd x (List.mem_cons_of_mem _ hx)).1 hk

end

/-! ## `create_all` -/

theorem run_missingTables (l : List TableDecl) (d : Tables) :
    (missingTables l).run sqliteFile d = (.ok (l.filter fun decl => decl.name ∉ d.keys), d) := by
  induction l with
  | nil => rfl
  | cons decl l ih =>
    change (missingTables l >>= _).run sqliteFile d = _
    rw [Prog.run_bind, ih]
    by_cases h : decl.name ∈ d.keys
    · rw [List.filter_cons_of_neg (by simpa using h)]
      simp only [sqliteFile, Stmt.exec, h, decide_true]
      rfl
    · rw [List.filter_cons_of_pos (by simpa using h)]
      simp only [sqliteFile, Stmt.exec, h, decide_false]
      rfl

theorem steps_missingTables (l : List TableDecl) (d : Tables) :
    (missingTables l).steps sqliteFile d = l.length := by
  induction l with
  | nil => rfl
  | cons decl l ih =>
    refine congrArg (· + 1) (Eq.trans ?_ ih)
    exact (Prog.steps_bind (run_missingTables l d)).trans (Nat.add_zero _)

theorem issues_missingTables (l : List TableDecl) :
    (missingTables l).Issues fun c => c.kind = .read := by
  induction l with
  | nil => trivial
  | cons decl l ih => exact ⟨rfl, fun there => Prog.issues_bind ih fun rest => trivial⟩

/-- The tables of the models are there. -/
def HasTables (d : Tables) : Prop := ∀ decl ∈ metadata, decl.name ∈ d.keys

section
variable {d t : Tables} {decl : TableDecl} {l l₁ l₂ : List TableDecl}

theorem missing_withDecls (h : missing d = l₁ ++ l₂) : missing (withDecls d l₁) = l₂ := by
  have hfilter : missing (withDecls d l₁) =
      (missing d).filter fun decl => decl.name ∉ l₁.map TableDecl.name := by
    rw [missing, missing, List.filter_filter]
    refine List.filter_congr fun decl _ => ?_
    simp only [mem_keys_withDecls, not_or, Bool.decide_and, Bool.and_comm]
  have hnodup : ((missing d).map TableDecl.name).Nodup :=
    nodup_metadata.sublist (List.filter_sublist.map _)
  rw [h, List.map_append, List.nodup_append] at hnodup
  have hnone : (l₁.filter fun decl => decl.name ∉ l₁.map TableDecl.name) = [] :=
    List.filter_eq_nil_iff.mpr fun decl hm => by
      simpa using ⟨decl, hm, rfl⟩
  have hall : (l₂.filter fun decl => decl.name ∉ l₁.map TableDecl.name) = l₂ :=
    List.filter_eq_self.mpr fun decl hm => decide_eq_true fun hn =>
      hnodup.2.2 _ hn _ (List.mem_map_of_mem hm) rfl
  rw [hfilter, h, List.filter_append, hnone, hall, List.nil_append]

theorem withTables_eq (d : Tables) : withTables d = withDecls d (missing d) := rfl

/-- Tables created before are not created again. -/
theorem withTables_withDecls (h : missing d = l₁ ++ l₂) :
    withTables (withDecls d l₁) = withTables d := by
  rw [withTables_eq, withTables_eq, missing_withDecls h, h, withDecls_append]

theorem missing_eq_nil : missing d = [] ↔ HasTables d := by
  rw [missing, List.filter_eq_nil_iff]
  exact forall₂_congr fun decl _ => by rw [decide_eq_true_eq, not_not]

theorem withTables_of_hasTables (h : HasTables d) : withTables d = d := by
  rw [withTables_eq, missing_eq_nil.mpr h]
  rfl

theorem hasTables_withTables (d : Tables) : HasTables (withTables d) :=
  missing_eq_nil.mp (missing_withDecls (List.append_nil _).symm)

theorem mem_metadata (h : decl ∈ missing d) : decl ∈ metadata ∧ decl.name ∉ d.keys :=
  ⟨(List.mem_filter.mp h).1, of_decide_eq_true (List.mem_filter.mp h).2⟩

theorem oldSchema_set (hd : OldSchema d) (hm : decl ∈ metadata) (indexes : List Index)
    (hi : ∀ i ∈ indexes, i ∈ decl.indexes) :
    OldSchema (d.set decl.name (createdWith decl indexes)) := by
  intro r hr t ht
  rw [Dict.get?_set] at ht
  split at ht
  · rename_i hn
    cases ht
    obtain ⟨ho, hnew⟩ := plain_metadata decl hm r hr hn.symm
    exact ⟨Plain.createdWith ho hi, Plain.createdWith hnew hi⟩
  · exact hd r hr t ht

theorem oldSchema_withDecls (hd : OldSchema d) (hl : ∀ decl ∈ l, decl ∈ metadata) :
    OldSchema (withDecls d l) := by
  induction l generalizing d with
  | nil => exact hd
  | cons decl l ih =>
    exact ih (oldSchema_set hd (hl decl List.mem_cons_self) decl.indexes fun _ => id)
      fun x hx => hl x (List.mem_cons_of_mem _ hx)

end

/-! ## Where a run is cut -/

/-- A table that was missing is there without all of its indexes. -/
def Short (d t : Tables) : Prop :=
  ∃ decl ∈ missing d, ∃ u ∈ t.get? decl.name, u.indexes ≠ decl.indexes

def CreatesIndex : Option Stmt → Prop
  | some (.change (.createIndex ..)) => True
  | _ => False

/-- On the way from `d`, with the statement that comes next. -/
structure Between (d t : Tables) (c : Option Stmt) : Prop where
  old : OldSchema t
  short : CreatesIndex c → Short d t
  whole : ¬ CreatesIndex c → upgraded t = upgraded d

section
variable {d : Tables}

theorem upgraded_eq (d : Tables) : upgraded d = migrated (withTables d) := rfl

theorem does_createAll (hd : OldSchema d) :
    Does (Between d) ((missing d).flatMap creation) d (withTables d) := by
  have hnodup : ((missing d).map TableDecl.name).Nodup :=
    nodup_metadata.sublist (List.filter_sublist.map _)
  have hold {l₁ l₂ : List TableDecl} (h : missing d = l₁ ++ l₂) : OldSchema (withDecls d l₁) :=
    oldSchema_withDecls hd fun decl hm =>
      (mem_metadata (d := d) (h ▸ List.mem_append_left l₂ hm)).1
  refine does_creations hnodup (fun decl hm => ?_) (fun l₁ decl l₂ h => ?_)
    fun l₁ decl l₂ pre i post h hi => ?_
  · exact ⟨(mem_metadata hm).2, sound_metadata decl (mem_metadata hm).1⟩
  · refine ⟨hold h, fun hc => hc.elim, fun _ => ?_⟩
    rw [upgraded_eq, withTables_withDecls h, upgraded_eq]
  · have hm : decl ∈ missing d := h ▸ List.mem_append_right l₁ List.mem_cons_self
    refine ⟨oldSchema_set (hold h) (mem_metadata hm).1 pre fun x hx => ?_, fun _ => ?_,
      fun hc => absurd trivial hc⟩
    · rw [hi]
      exact List.mem_append_left _ hx
    · refine ⟨decl, hm, createdWith decl pre, by rw [Dict.get?_set, if_pos rfl]; rfl, ?_⟩
      rw [hi]
      exact fun e => List.cons_ne_nil i post (List.self_eq_append_right.mp e)

theorem run_createAll (hd : OldSchema d) :
    createAll.run sqliteFile d = (.ok (), withTables d) := by
  rw [createAll, Prog.run_bind, run_missingTables]
  exact (does_createAll hd).run

theorem points_createAll (hd : OldSchema d) :
    createAll.Points sqliteFile (fun t c => ∀ x, c = some x → Between d t c) d := by
  have hreads := (always_of_reads (issues_missingTables metadata) d).points
    (issues_missingTables metadata)
  refine Prog.points_bind (hreads.mono ?_) (run_missingTables metadata d) (does_createAll hd).points
  rintro t c ⟨rfl, hc⟩ x hx y hy
  cases hx
  refine ⟨hd, fun hi => ?_, fun _ => rfl⟩
  have hkind := hc x rfl
  cases x with
  | change => cases hkind
  | _ => exact hi.elim

end

/-! ## What the migration issues -/

def Migrates : Stmt → Prop
  | .change (.createTable _) | .change (.createIndex ..) | .change (.insert ..) => False
  | .change (.dropTable table) => table ∈ droppedTables
  | _ => True

theorem not_createsIndex {c : Option Stmt} (h : ∀ x ∈ c, Migrates x) : ¬ CreatesIndex c := by
  intro hc
  cases c with
  | none => exact hc
  | some x =>
    have hx := h x rfl
    cases x with
    | change c =>
      cases c with
      | createIndex => exact hx
      | _ => exact hc
    | _ => exact hc

/-- The tables and the columns of the lists. -/
def Listed : Stmt → Prop
  | .tableNames | .columnNames _ => True
  | .change (.addColumn table name _) => ∃ a ∈ addedColumns, a.table = table ∧ a.name = name
  | .change (.copyColumn table _ old) | .change (.dropColumn table old) =>
    ∃ r ∈ renamedColumns, r.table = table ∧ r.old = old
  | .change (.dropTable table) => table ∈ droppedTables
  | _ => False

theorem Listed.migrates {c : Stmt} (h : Listed c) : Migrates c := by
  cases c with
  | change c =>
    cases c with
    | createTable | createIndex | insert => exact h
    | dropTable => exact h
    | addColumn | copyColumn | dropColumn => trivial
  | tableNames | columnNames => trivial
  | hasTable | hasRow | commit => exact h.elim

theorem Listed.kind_ne {c : Stmt} (h : Listed c) : c.kind ≠ .commit := by
  cases c with
  | commit => exact h.elim
  | _ => exact Kind.noConfusion

section
variable {α : Type} {P : Stmt → Prop} {Rep : (c : Stmt) → Reply c → Prop} {Err : SqlError → Prop}

theorem copes_execute {c : Change} (h : P (.change c))
    (hr : ∀ e, Rep (.change c) (.error e) → Err e) : (execute c).Copes P Rep Err := by
  refine ⟨h, fun reply hreply => ?_⟩
  cases reply with
  | ok => trivial
  | error e => exact hr e hreply

/-- The errors among the replies. -/
structure Raised (Rep : (c : Stmt) → Reply c → Prop) (Err : SqlError → Prop) : Prop where
  change : ∀ c e, Rep (.change c) (.error e) → Err e
  columnNames : ∀ table e, Rep (.columnNames table) (.error e) → Err e

theorem copes_inspectColumns (hr : Raised Rep Err) : inspectColumns.Copes Listed Rep Err := by
  refine ⟨trivial, fun tables _ => Prog.copes_foldlM (fun table _ columns => ?_) Dict.empty⟩
  refine Prog.copes_bind ⟨trivial, fun reply hreply => ?_⟩ fun _ => trivial
  cases reply with
  | ok names => trivial
  | error e => exact hr.columnNames table e hreply

theorem copes_addColumn (hr : Raised Rep Err) {a : Added} (ha : a ∈ addedColumns) (k : Columns) :
    (addColumn a k).Copes Listed Rep Err := by
  unfold addColumn
  split
  · trivial
  · split
    · trivial
    · exact Prog.copes_bind (copes_execute ⟨a, ha, rfl, rfl⟩ (hr.change _)) fun _ => trivial

theorem copes_renameColumn (hr : Raised Rep Err) {r : Renamed} (hm : r ∈ renamedColumns)
    (k : Columns) : (renameColumn r k).Copes Listed Rep Err := by
  unfold renameColumn
  split
  · trivial
  · split
    · trivial
    · exact Prog.copes_bind (copes_execute ⟨r, hm, rfl, rfl⟩ (hr.change _)) fun _ =>
        Prog.copes_bind (copes_execute ⟨r, hm, rfl, rfl⟩ (hr.change _)) fun _ => trivial

/-- It raises what it is answered. -/
theorem copes_migrateSchema (hr : Raised Rep Err) : migrateSchema.Copes Listed Rep Err := by
  refine Prog.copes_bind (copes_inspectColumns hr) fun k => ?_
  refine Prog.copes_bind (Prog.copes_foldlM (fun a ha => copes_addColumn hr ha) k) fun k => ?_
  refine Prog.copes_bind (Prog.copes_foldlM (fun r hm => copes_renameColumn hr hm) k) fun k => ?_
  refine Prog.copes_forM fun table hm => ?_
  unfold dropTable
  split
  · trivial
  · exact copes_execute hm (hr.change _)

end

theorem issues_listed : migrateSchema.Issues Listed := by
  have h : migrateSchema.Copes Listed (fun _ _ => True) fun _ => True :=
    copes_migrateSchema ⟨fun _ _ _ => trivial, fun _ _ _ => trivial⟩
  exact h.issues

theorem issues_migrateSchema : migrateSchema.Issues Migrates :=
  issues_listed.mono fun _ => Listed.migrates

section
variable {d : Tables}

theorem keys_alter {table : Str} {f : SqlTable → Except SqlError SqlTable} {d' : Tables}
    (h : d.alter table f = .ok d') : d'.keys = d.keys := by
  unfold Tables.alter at h
  split at h
  · cases h
  · rename_i t hg
    cases hf : f t with
    | error e =>
      rw [hf] at h
      cases h
    | ok t' =>
      rw [hf] at h
      cases h
      rw [Dict.keys_set, if_pos (Dict.mem_keys_of_get? hg)]

theorem hasTables_apply {c : Change} {d' : Tables} (hc : Migrates (.change c)) (h : HasTables d)
    (hd : c.apply d = .ok d') : HasTables d' := by
  cases c with
  | createTable => exact hc.elim
  | createIndex => exact hc.elim
  | insert => exact hc.elim
  | dropTable table =>
    have hkept : ∀ decl ∈ metadata, ∀ n ∈ droppedTables, decl.name ≠ n := by decide
    simp only [Change.apply] at hd
    split at hd
    · cases hd
      exact fun decl hm => Dict.mem_keys_erase.mpr ⟨hkept decl hm table hc, h decl hm⟩
    · cases hd
  | addColumn | copyColumn | dropColumn =>
    intro decl hm
    rw [keys_alter hd]
    exact h decl hm

theorem hasTables_exec {c : Stmt} (hc : Migrates c) (h : HasTables d) :
    HasTables (c.exec d).2 := by
  cases c with
  | change c =>
    simp only [Stmt.exec]
    split
    · exact h
    · exact hasTables_apply hc h ‹_›
  | commit => exact h
  | tableNames | hasTable | columnNames | hasRow =>
    rw [exec_read rfl]
    exact h

/-! ## The two transactions -/

/-- What the migration passes through. -/
theorem always_migrateSchema (hd : OldSchema d) : migrateSchema.Always sqliteFile
    (fun t => Prog.OnWay OldSchema migrated (withTables d) t ∧ HasTables t) (withTables d) := by
  have hold : OldSchema (withTables d) :=
    oldSchema_withDecls hd fun decl hm => (mem_metadata hm).1
  refine (mends_migrateSchema.always () _ hold trivial).and ?_
  exact issues_migrateSchema.always (fun _ _ hc ht => hasTables_exec hc ht) (hasTables_withTables d)

theorem run_migrateSchema (hd : OldSchema d) :
    migrateSchema.run sqliteFile (withTables d) = (.ok (), upgraded d) := by
  obtain ⟨u, hrun, -⟩ := mends_migrateSchema.run () _
    (oldSchema_withDecls hd fun decl hm => (mem_metadata hm).1) trivial
  exact hrun

theorem run_creating (hd : OldSchema d) :
    (createAll >>= fun _ => commit).run sqliteFile d = (.ok (), withTables d) := by
  rw [Prog.run_bind, run_createAll hd]
  rfl

theorem run_createDbAndTables (hd : OldSchema d) :
    createDbAndTables.run sqliteFile d = (.ok (), upgraded d) := by
  rw [createDbAndTables, Prog.run_bind, Prog.run_attempt, run_creating hd]
  change (migrateSchema >>= fun _ => commit).run sqliteFile (withTables d) = _
  rw [Prog.run_bind, run_migrateSchema hd]
  rfl

theorem between_of_onWay {t : Tables} {c : Option Stmt}
    (h : Prog.OnWay OldSchema migrated (withTables d) t ∧ HasTables t) (hc : ¬ CreatesIndex c) :
    Between d t c := by
  refine ⟨h.1.1, fun hi => absurd hi hc, fun _ => ?_⟩
  rw [upgraded_eq, withTables_of_hasTables h.2, h.1.2, upgraded_eq]

/-- Every file on the way leads where `d` does, but for those that wait for an
index. -/
theorem points_createDbAndTables (hd : OldSchema d) :
    createDbAndTables.Points sqliteFile (Between d) d := by
  have halways := always_migrateSchema hd
  have hend := halways.run
  rw [run_migrateSchema hd] at hend
  have hfirst : (createAll >>= fun _ => commit).Points sqliteFile
      (fun t c => ∀ x, c = some x → Between d t c) d := by
    refine Prog.points_bind ((points_createAll hd).mono fun t c h x hx y hy => h y hy)
      (run_createAll hd) ⟨fun x hx => ?_, fun x hx => by cases hx⟩
    exact between_of_onWay halways.here id
  have hrun : (createAll >>= fun _ => commit).attempt.run sqliteFile d =
      (.ok (.ok ()), withTables d) := by rw [Prog.run_attempt, run_creating hd]
  refine Prog.points_bind hfirst.attempt hrun ?_
  refine Prog.points_bind ((halways.points issues_migrateSchema).mono fun t c h x hx => ?_)
    (run_migrateSchema hd) ⟨between_of_onWay hend id, between_of_onWay hend id⟩
  exact between_of_onWay h.1 (not_createsIndex h.2)

theorem upgraded_fixed (hd : OldSchema d) :
    OldSchema (upgraded d) ∧ upgraded (upgraded d) = upgraded d := by
  have hend := (always_migrateSchema hd).run
  rw [run_migrateSchema hd] at hend
  have hb := between_of_onWay (c := none) hend id
  exact ⟨hb.old, hb.whole id⟩

end

end MailserverUi.L3.CreationSpec
