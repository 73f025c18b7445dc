import MailserverUi.L3Service.Migration

/-!
# What the migration does to a file

`OldSchema` says of a file that a column to be renamed, and its successor where it
is there, are `NOT NULL` and in no index. On such a file each step of the migration
is a repair (`Prog.Mends`) that spares those before it.

Results:
* `addColumn_cases`, `renameColumn_cases`: what one of them does.
* `mends_migrateSchema`: the migration of a file.
-/
namespace MailserverUi.L3.MigrationSpec

open Py L2.Schema Migration

/-! ## One table -/

/-- In no index, and `NOT NULL` if it is there. -/
def Plain (t : SqlTable) (name : Str) : Prop :=
  ¬ t.Keyed name ∧ ∀ c ∈ t.columns.get? name, c.notNull = true

/-- What a change of columns leaves. -/
structure SameRows (t t' : SqlTable) : Prop where
  height : t'.height = t.height
  primaryKey : t'.primaryKey = t.primaryKey
  indexes : t'.indexes = t.indexes

theorem SameRows.refl (t : SqlTable) : SameRows t t := ⟨rfl, rfl, rfl⟩

theorem SameRows.trans {t u v : SqlTable} (h : SameRows t u) (h' : SameRows u v) : SameRows t v :=
  ⟨h'.height.trans h.height, h'.primaryKey.trans h.primaryKey, h'.indexes.trans h.indexes⟩

theorem SameRows.keyed {t t' : SqlTable} (h : SameRows t t') {name : Str} :
    t'.Keyed name ↔ t.Keyed name := by
  unfold SqlTable.Keyed
  rw [h.primaryKey, h.indexes]

/-- The columns are all that is left to compare. -/
theorem SameRows.eq {t t' : SqlTable} (h : SameRows t t') (hc : t'.columns = t.columns) :
    t' = t := by
  obtain ⟨height, columns, primaryKey, indexes, filled⟩ := t
  obtain ⟨height', columns', primaryKey', indexes', filled'⟩ := t'
  obtain ⟨rfl, rfl, rfl⟩ := h
  cases hc
  rfl

/-- A column in no index can hold a value twice. -/
theorem not_unique {t : SqlTable} {name : Str} (h : ¬ t.Keyed name) : ¬ t.Unique name := by
  rintro (hp | ⟨i, hi, hc, -⟩)
  · refine h (.inl ?_)
    rw [hp]
    exact List.mem_singleton_self name
  · exact h (.inr ⟨i, hi, hc⟩)

section
variable {a : Added} {t : SqlTable}

/-- SQLite refuses to add a column only where it is there already. -/
theorem addColumn_of_not_mem (h : a.name ∉ t.columns.keys) :
    t.addColumn a.name a.ddl = .ok (a.on t) := by
  rw [Added.on, SqlTable.addColumn, if_neg h]
  rfl

/-- Then nothing is added. -/
theorem added_of_mem (h : a.name ∈ t.columns.keys) : a.on t = t := by
  rw [Added.on, SqlTable.addColumn, if_pos h]
  rfl

/-- The new column stands next to the old ones, filled with its default. -/
theorem get?_added (name : Str) : (a.on t).columns.get? name = (t.columns.get? name).or
    (if name = a.name then some (.filled a.ddl t.height) else none) := by
  by_cases h : a.name ∈ t.columns.keys
  · rw [added_of_mem h]
    split
    · rename_i hn
      obtain ⟨c, hc⟩ := Dict.mem_keys.mp h
      rw [hn, hc, Option.some_or]
    · rw [Option.or_none]
  · rw [Added.on, SqlTable.addColumn, if_neg h]
    refine (Dict.get?_set ..).trans ?_
    split
    · rename_i hn
      rw [hn, Dict.get?_eq_none.mpr h, Option.none_or]
    · rw [Option.or_none]

theorem sameRows_added : SameRows t (a.on t) := by
  by_cases h : a.name ∈ t.columns.keys
  · rw [added_of_mem h]
    exact .refl t
  · rw [Added.on, SqlTable.addColumn, if_neg h]
    exact ⟨rfl, rfl, rfl⟩

/-- After an addition the column is there, whether it was before or not. -/
theorem mem_keys_added {name : Str} :
    name ∈ (a.on t).columns.keys ↔ name ∈ t.columns.keys ∨ name = a.name := by
  rw [← not_iff_not, ← Dict.get?_eq_none, get?_added, Option.or_eq_none_iff, Dict.get?_eq_none,
    not_or]
  simp only [ite_eq_right_iff, reduceCtorEq]

/-- An added column is `NOT NULL`, and in no index. -/
theorem Plain.added {name : Str} (h : Plain t name) : Plain (a.on t) name := by
  refine ⟨fun hk => h.1 (sameRows_added.keyed.mp hk), fun c hc => ?_⟩
  rw [get?_added] at hc
  rcases Option.or_eq_some_iff.mp hc with hc | ⟨-, hc⟩
  · exact h.2 c hc
  · split at hc
    · cases hc
      rfl
    · cases hc

end

/-- The successor with the values of the old column. -/
def carried (source target : Column) (h : source.notNull = true) : Column :=
  ⟨target.notNull, source.cells, fun _ => source.no_null h⟩

section
variable {r : Renamed} {t : SqlTable}

/-- Without the old column the statement fails. -/
theorem copyColumn_of_not_mem (h : r.old ∉ t.columns.keys) :
    t.copyColumn r.new r.old = .error (.noSuchColumn r.old) := by
  unfold SqlTable.copyColumn
  split
  · rfl
  · rename_i ho
    exact absurd (Dict.mem_keys_of_get? ho) h

/-- A renaming that was finished is not made again. -/
theorem renamed_of_not_mem (h : r.old ∉ t.columns.keys) : r.on t = t := by
  rw [Renamed.on, copyColumn_of_not_mem h]
  rfl

variable {source target : Column}

/-- The values fit: no `NULL` in the old column, and no index on the new one. -/
theorem copyColumn_ok (ho : t.columns.get? r.old = some source)
    (hn : t.columns.get? r.new = some target) (hs : source.notNull = true)
    (hk : ¬ t.Keyed r.new) :
    ∃ t', t.copyColumn r.new r.old = .ok t' ∧ SameRows t t' ∧
      t'.columns = t.columns.set r.new (carried source target hs) := by
  unfold SqlTable.copyColumn
  split
  · rename_i h
    cases ho.symm.trans h
  · rename_i source' ho'
    cases ho.symm.trans ho'
    rw [hn]
    dsimp only
    rw [dif_neg fun h => source.no_null hs h.2, if_neg fun h => not_unique hk h.1]
    exact ⟨_, rfl, ⟨rfl, rfl, rfl⟩, rfl⟩

/-- A column can go that is in no index and is not the only one. -/
theorem dropColumn_ok {name : Str} (h : name ∈ t.columns.keys) (hk : ¬ t.Keyed name)
    (hl : ∃ x ∈ t.columns.keys, x ≠ name) :
    t.dropColumn name = .ok (t.without name) := by
  have hlast : t.columns.keys ≠ [name] := by
    intro e
    obtain ⟨x, hx, hne⟩ := hl
    rw [e] at hx
    exact hne (List.mem_singleton.mp hx)
  rw [SqlTable.dropColumn, if_neg (not_not.mpr h), if_neg (not_or.mpr ⟨hk, hlast⟩)]

/-- The two statements of a renaming. -/
theorem rename_steps (hne : r.old ≠ r.new) (ho : t.columns.get? r.old = some source)
    (hn : t.columns.get? r.new = some target) (hp : Plain t r.old) (hk : ¬ t.Keyed r.new) :
    ∃ t', t.copyColumn r.new r.old = .ok t' ∧ t'.dropColumn r.old = .ok (r.on t) ∧
      SameRows t t' ∧ t'.columns = t.columns.set r.new (carried source target (hp.2 _ ho)) ∧
      SameRows t (r.on t) ∧ (r.on t).columns = t'.columns.erase r.old ∧ r.on t' = r.on t := by
  obtain ⟨t', hcopy, hsame, hcols⟩ := copyColumn_ok ho hn (hp.2 _ ho) hk
  have hget (x : Str) : t'.columns.get? x =
      if x = r.new then some (carried source target (hp.2 _ ho)) else t.columns.get? x := by
    rw [hcols, Dict.get?_set]
  have hold : t'.columns.get? r.old = some source := by rw [hget, if_neg hne, ho]
  have hnew : t'.columns.get? r.new = some (carried source target (hp.2 _ ho)) := by
    rw [hget, if_pos rfl]
  have hdrop : t'.dropColumn r.old = .ok (t'.without r.old) :=
    dropColumn_ok (Dict.mem_keys_of_get? hold) (mt hsame.keyed.mp hp.1)
      ⟨r.new, Dict.mem_keys_of_get? hnew, hne.symm⟩
  have hon : r.on t = t'.without r.old := by
    simp only [Renamed.on, hcopy, Except.bind, hdrop, Except.toOption, Option.getD]
  have hagain : r.on t' = t'.without r.old := by
    obtain ⟨t'', hcopy', hsame', hcols'⟩ :=
      copyColumn_ok hold hnew (hp.2 _ ho) (mt hsame.keyed.mp hk)
    have heq : t'' = t' := by
      refine hsame'.eq (hcols'.trans (Dict.set_of_get? ?_))
      exact hnew
    rw [heq] at hcopy'
    simp only [Renamed.on, hcopy', Except.bind, hdrop, Except.toOption, Option.getD]
  refine ⟨t', hcopy, hdrop.trans (congrArg _ hon.symm), hsame, hcols, ?_, ?_, hagain.trans hon.symm⟩
  · rw [hon]
    exact hsame.trans ⟨rfl, rfl, rfl⟩
  · rw [hon]
    rfl

/-- What a renaming relies on. -/
structure Fit (r : Renamed) (t : SqlTable) : Prop where
  ne : r.old ≠ r.new
  old : Plain t r.old
  new : Plain t r.new
  successor : r.new ∈ t.columns.keys

/-- The old column is gone, or its values go over to the successor and it goes. -/
theorem Fit.cases (h : Fit r t) : r.old ∉ t.columns.keys ∧ r.on t = t ∨
    ∃ source target c, t.columns.get? r.old = some source ∧
      t.columns.get? r.new = some target ∧ c.notNull = target.notNull ∧
      c.cells = source.cells ∧ SameRows t (r.on t) ∧
      (r.on t).columns = (t.columns.set r.new c).erase r.old := by
  by_cases ho : r.old ∈ t.columns.keys
  · obtain ⟨source, ho⟩ := Dict.mem_keys.mp ho
    obtain ⟨target, hn⟩ := Dict.mem_keys.mp h.successor
    obtain ⟨t', -, -, -, hcols, hsame, hcols', -⟩ := rename_steps h.ne ho hn h.old h.new.1
    rw [hcols] at hcols'
    exact .inr ⟨source, target, carried source target (h.old.2 _ ho), ho, hn, rfl, rfl, hsame,
      hcols'⟩
  · exact .inl ⟨ho, renamed_of_not_mem ho⟩

theorem Fit.sameRows (h : Fit r t) : SameRows t (r.on t) := by
  rcases h.cases with ⟨-, e⟩ | ⟨_, _, _, -, -, -, -, hsame, -⟩
  · rw [e]
    exact .refl t
  · exact hsame

/-- A renaming takes the old name away and adds none. -/
theorem Fit.mem_keys (h : Fit r t) {name : Str} :
    name ∈ (r.on t).columns.keys ↔ name ≠ r.old ∧ name ∈ t.columns.keys := by
  rcases h.cases with ⟨ho, e⟩ | ⟨_, _, _, -, -, -, -, -, hcols⟩
  · rw [e]
    refine (and_iff_right_of_imp fun hx e => ?_).symm
    exact ho (e ▸ hx)
  · rw [hcols, Dict.mem_keys_erase, Dict.mem_keys_set]
    refine and_congr_right fun _ => or_iff_right_of_imp fun e => ?_
    rw [e]
    exact h.successor

/-- The successor keeps its own `NOT NULL`, so that plain columns stay plain. -/
theorem Fit.plain (h : Fit r t) {name : Str} (hp : Plain t name) : Plain (r.on t) name := by
  refine ⟨fun hk => hp.1 (h.sameRows.keyed.mp hk), fun c hc => ?_⟩
  rcases h.cases with ⟨-, e⟩ | ⟨_, target, c', -, hn, hnull, -, -, hcols⟩
  · rw [e] at hc
    exact hp.2 c hc
  · rw [hcols, Dict.get?_erase] at hc
    split at hc
    · cases hc
    · rw [Dict.get?_set] at hc
      split at hc
      · cases hc
        rw [hnull]
        exact h.new.2 target hn
      · exact hp.2 c hc

end

/-! ## One file -/

section
variable {d : Tables} {n : Str} {f : SqlTable → SqlTable} {t t' : SqlTable}

theorem onTable_of_get? (h : d.get? n = some t) : onTable n f d = d.set n (f t) := by
  simp only [onTable, h]

theorem onTable_of_none (h : d.get? n = none) : onTable n f d = d := by
  simp only [onTable, h]

/-- One table is changed, if it is there. -/
theorem get?_onTable (m : Str) :
    (onTable n f d).get? m = if m = n then (d.get? n).map f else d.get? m := by
  cases h : d.get? n with
  | none =>
    rw [onTable_of_none h]
    split
    · rename_i hm
      rw [hm, h, Option.map_none]
    · rfl
  | some t => rw [onTable_of_get? h, Dict.get?_set, Option.map_some]

/-- A file is left alone when its table is. -/
theorem onTable_eq_self : onTable n f d = d ↔ ∀ t ∈ d.get? n, f t = t := by
  constructor
  · intro h t ht
    have := congrArg (fun e => Dict.get? e n) h
    rw [get?_onTable, if_pos rfl, ht, Option.map_some] at this
    exact Option.some.inj this
  · intro h
    cases hg : d.get? n with
    | none => exact onTable_of_none hg
    | some t => rw [onTable_of_get? hg, h t hg, Dict.set_of_get? hg]

/-- A column to be renamed, and its successor, are plain. -/
def OldSchema (d : Tables) : Prop :=
  ∀ r ∈ renamedColumns, ∀ t ∈ d.get? r.table, Plain t r.old ∧ Plain t r.new

/-- The columns are as the inspector found them. -/
def Knows (k : Columns) (d : Tables) : Prop :=
  ∀ m, Option.Rel (fun names t => ∀ x, x ∈ names ↔ x ∈ t.columns.keys) (k.get? m) (d.get? m)

/-- A change of a table that keeps its plain columns plain. -/
theorem OldSchema.set (h : OldSchema d) (hg : d.get? n = some t)
    (hp : ∀ x, Plain t x → Plain t' x) : OldSchema (d.set n t') := by
  intro r hr u hu
  rw [Dict.get?_set] at hu
  split at hu
  · rename_i hn
    cases hu
    obtain ⟨ho, hnew⟩ := h r hr t (hn ▸ hg)
    exact ⟨hp _ ho, hp _ hnew⟩
  · exact h r hr u hu

/-- What is known is kept up with each statement. -/
theorem Knows.set {k : Columns} (h : Knows k d) {names : List Str}
    (hn : ∀ x, x ∈ names ↔ x ∈ t'.columns.keys) : Knows (k.set n names) (d.set n t') := by
  intro m
  rw [Dict.get?_set, Dict.get?_set]
  split
  · exact .some hn
  · exact h m

/-- A table is known if it is there, with its own columns. -/
theorem Knows.cases {k : Columns} (h : Knows k d) (n : Str) :
    k.get? n = none ∧ d.get? n = none ∨ ∃ names t, k.get? n = some names ∧ d.get? n = some t ∧
      ∀ x, x ∈ names ↔ x ∈ t.columns.keys := by
  have hrel := h n
  cases hk : k.get? n with
  | none =>
    cases hd : d.get? n with
    | none => exact .inl ⟨rfl, rfl⟩
    | some t =>
      rw [hk, hd] at hrel
      cases hrel
  | some names =>
    cases hd : d.get? n with
    | none =>
      rw [hk, hd] at hrel
      cases hrel
    | some t =>
      rw [hk, hd] at hrel
      cases hrel with
      | some hx => exact .inr ⟨names, t, rfl, rfl, hx⟩

end

/-! ## An addition -/

section
variable {a : Added} {k : Columns} {d : Tables}

/-- An addition is done once the column is there. -/
theorem fixed_added :
    onTable a.table a.on d = d ↔ ∀ t ∈ d.get? a.table, a.name ∈ t.columns.keys := by
  rw [onTable_eq_self]
  refine forall₂_congr fun t _ => ⟨fun h => ?_, added_of_mem⟩
  rw [← h]
  exact mem_keys_added.mpr (.inr rfl)

/-- Made twice, an addition is made once. -/
theorem fixed_added_on : onTable a.table a.on (onTable a.table a.on d) = onTable a.table a.on d := by
  refine fixed_added.mpr fun t ht => ?_
  rw [get?_onTable, if_pos rfl] at ht
  obtain ⟨u, -, rfl⟩ := Option.map_eq_some_iff.mp ht
  exact mem_keys_added.mpr (.inr rfl)

/-- There is nothing to add, or one statement adds it. -/
theorem addColumn_cases (hk : Knows k d) :
    addColumn a k = .pure k ∧ onTable a.table a.on d = d ∨
      ∃ c k', addColumn a k = (execute c >>= fun _ => .pure k') ∧
        c.apply d = .ok (onTable a.table a.on d) ∧ Knows k' (onTable a.table a.on d) := by
  unfold addColumn
  rcases hk.cases a.table with ⟨hkn, hg⟩ | ⟨names, t, hkn, hg, hnames⟩
  · rw [hkn]
    exact .inl ⟨rfl, onTable_of_none hg⟩
  · rw [hkn]
    dsimp only
    by_cases hmem : a.name ∈ names
    · rw [if_pos hmem]
      refine .inl ⟨rfl, fixed_added.mpr fun u hu => ?_⟩
      cases hg.symm.trans hu
      exact (hnames _).mp hmem
    · rw [if_neg hmem, onTable_of_get? hg]
      have happly : (Change.addColumn a.table a.name a.ddl).apply d =
          .ok (d.set a.table (a.on t)) := by
        have := addColumn_of_not_mem (mt (hnames _).mpr hmem)
        simp only [Change.apply, Tables.alter, hg, this, Except.map]
      refine .inr ⟨_, _, rfl, happly, hk.set fun x => ?_⟩
      rw [List.mem_append, List.mem_singleton, mem_keys_added, hnames]

/-- An addition passes through the file before it and the file after it. -/
theorem always_addColumn {J : Tables → Prop} (hk : Knows k d) (h : J d)
    (h' : J (onTable a.table a.on d)) : (addColumn a k).Always sqliteFile J d := by
  rcases addColumn_cases (a := a) hk with ⟨hp, -⟩ | ⟨c, k', hp, happly, -⟩
  · rw [hp]
    exact h
  · rw [hp]
    refine Prog.always_bind (always_execute happly h h') fun u e hr => ?_
    rw [run_execute happly] at hr
    cases hr
    exact h'

theorem OldSchema.added (hd : OldSchema d) : OldSchema (onTable a.table a.on d) := by
  cases hg : d.get? a.table with
  | none => rwa [onTable_of_none hg]
  | some t =>
    rw [onTable_of_get? hg]
    exact hd.set hg fun x hx => hx.added

/-- An addition is a repair: stopped anywhere, it can be made again. -/
theorem mends_addColumn :
    Prog.Mends sqliteFile OldSchema Knows Knows (addColumn a) (onTable a.table a.on) where
  run k d _ hk := by
    rcases addColumn_cases (a := a) hk with ⟨hp, hself⟩ | ⟨c, k', hp, happly, hk'⟩
    · rw [hp, hself]
      exact ⟨k, rfl, hk⟩
    · rw [hp, Prog.run_bind, run_execute happly]
      exact ⟨k', rfl, hk'⟩
  always k d hd hk := always_addColumn hk ⟨hd, rfl⟩ ⟨hd.added, fixed_added_on⟩

end

/-! ## A renaming -/

/-- Where a column is to be renamed, its successor is there. -/
def HasSuccessors (d : Tables) : Prop :=
  ∀ r ∈ renamedColumns, ∀ t ∈ d.get? r.table, r.new ∈ t.columns.keys

/-- No column that is renamed takes the old name of another one. -/
theorem old_ne_new : ∀ r ∈ renamedColumns, ∀ r' ∈ renamedColumns, r.old ≠ r'.new := by decide

/-- No column is added that a renaming takes away. -/
theorem added_ne_old : ∀ a ∈ addedColumns, ∀ r ∈ renamedColumns, a.name ≠ r.old := by decide

/-- The successor of each renaming is one of the columns that are added. -/
theorem exists_added : ∀ r ∈ renamedColumns, ∃ a ∈ addedColumns,
    a.table = r.table ∧ a.name = r.new := by decide

section
variable {r : Renamed} {k : Columns} {d : Tables}

/-- What the first statement of a renaming leaves: the successor has the values of
the old column. -/
structure Copied (r : Renamed) (d d' : Tables) : Prop where
  table : ∃ t t' c, d.get? r.table = some t ∧ d' = d.set r.table t' ∧ SameRows t t' ∧
    t'.columns = t.columns.set r.new c ∧ r.new ∈ t.columns.keys ∧ (Plain t r.new → c.notNull = true)
  again : onTable r.table r.on d' = onTable r.table r.on d

/-- There is nothing to rename, or two statements do it, with a file between them from
which the renaming goes on to the same end. -/
theorem renameColumn_cases (hr : r ∈ renamedColumns) (hd : OldSchema d) (hs : HasSuccessors d)
    (hk : Knows k d) :
    renameColumn r k = .pure k ∧ onTable r.table r.on d = d ∨
      ∃ c c' d' k', renameColumn r k = (do execute c; execute c'; .pure k') ∧
        c.apply d = .ok d' ∧ c'.apply d' = .ok (onTable r.table r.on d) ∧ Copied r d d' ∧
        Knows k' (onTable r.table r.on d) := by
  unfold renameColumn
  rcases hk.cases r.table with ⟨hkn, hg⟩ | ⟨names, t, hkn, hg, hnames⟩
  · rw [hkn]
    exact .inl ⟨rfl, onTable_of_none hg⟩
  rw [hkn]
  dsimp only
  by_cases hmem : r.old ∈ names
  · rw [if_neg (not_not.mpr hmem)]
    obtain ⟨source, ho⟩ := Dict.mem_keys.mp ((hnames _).mp hmem)
    obtain ⟨target, hn⟩ := Dict.mem_keys.mp (hs r hr t hg)
    obtain ⟨hp, hpn⟩ := hd r hr t hg
    obtain ⟨t', hcopy, hdrop, hsame, hcols, -, hcols', hon⟩ :=
      rename_steps (old_ne_new r hr r hr) ho hn hp hpn.1
    have hfirst : (Change.copyColumn r.table r.new r.old).apply d = .ok (d.set r.table t') := by
      simp only [Change.apply, Tables.alter, hg, hcopy, Except.map]
    have hget : (d.set r.table t').get? r.table = some t' := by rw [Dict.get?_set, if_pos rfl]
    have hsecond : (Change.dropColumn r.table r.old).apply (d.set r.table t') =
        .ok ((d.set r.table t').set r.table (r.on t)) := by
      simp only [Change.apply, Tables.alter, hget, hdrop, Except.map]
    rw [Dict.set_set] at hsecond
    have hfinal : onTable r.table r.on d = d.set r.table (r.on t) := onTable_of_get? hg
    refine .inr ⟨_, _, d.set r.table t', _, rfl, hfirst, hfinal ▸ hsecond, ?_, ?_⟩
    · refine ⟨⟨t, t', _, hg, rfl, hsame, hcols, Dict.mem_keys_of_get? hn,
        fun hpn => hpn.2 target hn⟩, ?_⟩
      rw [onTable_of_get? hget, Dict.set_set, hon, hfinal]
    · rw [hfinal]
      refine hk.set fun x => ?_
      rw [hcols', hcols, Dict.mem_keys_erase, Dict.mem_keys_set, List.mem_filter,
        decide_eq_true_eq, hnames, and_comm]
      refine and_congr_right fun _ => (or_iff_right_of_imp fun e => ?_).symm
      rw [e]
      exact Dict.mem_keys_of_get? hn
  · rw [if_pos hmem]
    refine .inl ⟨rfl, onTable_eq_self.mpr fun u hu => ?_⟩
    cases hg.symm.trans hu
    exact renamed_of_not_mem (mt (hnames _).mpr hmem)

/-- In a file with the successors, every renaming fits its table. -/
theorem fits (hr : r ∈ renamedColumns) (hd : OldSchema d) (hs : HasSuccessors d) {t : SqlTable}
    (ht : t ∈ d.get? r.table) : Fit r t :=
  ⟨old_ne_new r hr r hr, (hd r hr t ht).1, (hd r hr t ht).2, hs r hr t ht⟩

/-- A renaming is done once the old column is gone. -/
theorem fixed_renamed (hr : r ∈ renamedColumns) (hd : OldSchema d) (hs : HasSuccessors d) :
    onTable r.table r.on d = d ↔ ∀ t ∈ d.get? r.table, r.old ∉ t.columns.keys := by
  rw [onTable_eq_self]
  refine forall₂_congr fun t ht => ⟨fun h => ?_, renamed_of_not_mem⟩
  rw [← h]
  exact fun ho => ((fits hr hd hs ht).mem_keys.mp ho).1 rfl

end

/-- The same tables; their columns are as plain as before, and `r.old` at most has
gone. -/
structure Step (r : Renamed) (d d' : Tables) : Prop where
  keys : d'.keys = d.keys
  table : ∀ n, ∀ t' ∈ d'.get? n, ∃ t ∈ d.get? n, (∀ x, Plain t x → Plain t' x) ∧
    (∀ x, x ∈ t'.columns.keys → x ∈ t.columns.keys) ∧
    ∀ x, x ≠ r.old → x ∈ t.columns.keys → x ∈ t'.columns.keys

section
variable {r : Renamed} {k : Columns} {d d' : Tables}

theorem Step.refl (d : Tables) : Step r d d :=
  ⟨rfl, fun _ t ht => ⟨t, ht, fun _ => id, fun _ => id, fun _ _ => id⟩⟩

/-- One table changes, in its columns. -/
theorem Step.set {n : Str} {t t' : SqlTable} (hg : d.get? n = some t)
    (hp : ∀ x, Plain t x → Plain t' x)
    (hk : ∀ x, x ∈ t'.columns.keys → x ∈ t.columns.keys)
    (hk' : ∀ x, x ≠ r.old → x ∈ t.columns.keys → x ∈ t'.columns.keys) :
    Step r d (d.set n t') := by
  refine ⟨by rw [Dict.keys_set, if_pos (Dict.mem_keys_of_get? hg)], fun m u hu => ?_⟩
  rw [Dict.get?_set] at hu
  split at hu
  · rename_i hm
    cases hu
    exact ⟨t, hm ▸ hg, hp, hk, hk'⟩
  · exact ⟨u, hu, fun _ => id, fun _ => id, fun _ _ => id⟩

/-- A whole renaming is such a step. -/
theorem step_on (hr : r ∈ renamedColumns) (hd : OldSchema d) (hs : HasSuccessors d) :
    Step r d (onTable r.table r.on d) := by
  cases hg : d.get? r.table with
  | none =>
    rw [onTable_of_none hg]
    exact .refl d
  | some t =>
    have hfit := fits hr hd hs hg
    rw [onTable_of_get? hg]
    exact .set hg (fun x => hfit.plain) (fun x hx => (hfit.mem_keys.mp hx).2)
      fun x hne hx => hfit.mem_keys.mpr ⟨hne, hx⟩

/-- So is its first half. -/
theorem step_copied (hd : OldSchema d) (hr : r ∈ renamedColumns) (h : Copied r d d') :
    Step r d d' := by
  obtain ⟨t, t', c, hg, rfl, hsame, hcols, hmem, hnull⟩ := h.table
  have hkeys : ∀ x, x ∈ t'.columns.keys ↔ x ∈ t.columns.keys := by
    intro x
    rw [hcols, Dict.mem_keys_set]
    refine or_iff_right_of_imp fun e => ?_
    rw [e]
    exact hmem
  refine .set hg (fun x hp => ?_) (fun x => (hkeys x).mp) fun x _ => (hkeys x).mpr
  refine ⟨fun hk => hp.1 (hsame.keyed.mp hk), fun u hu => ?_⟩
  rw [hcols, Dict.get?_set] at hu
  split at hu
  · cases hu
    exact hnull (hd r hr t hg).2
  · exact hp.2 u hu

/-- A step keeps the schema fit for migration. -/
theorem Step.oldSchema (h : Step r d d') (hd : OldSchema d) : OldSchema d' := by
  intro r' hr' t' ht'
  obtain ⟨t, ht, hp, -⟩ := h.table _ t' ht'
  exact ⟨hp _ (hd r' hr' t ht).1, hp _ (hd r' hr' t ht).2⟩

/-- And the successors, which no renaming takes away. -/
theorem Step.hasSuccessors (hr : r ∈ renamedColumns) (h : Step r d d') (hs : HasSuccessors d) :
    HasSuccessors d' := by
  intro r' hr' t' ht'
  obtain ⟨t, ht, -, -, hk⟩ := h.table _ t' ht'
  exact hk _ (old_ne_new r hr r' hr').symm (hs r' hr' t ht)

/-- Made twice, a renaming is made once. -/
theorem fixed_renamed_on (hr : r ∈ renamedColumns) (hd : OldSchema d) (hs : HasSuccessors d) :
    onTable r.table r.on (onTable r.table r.on d) = onTable r.table r.on d := by
  have hstep := step_on hr hd hs
  refine (fixed_renamed hr (hstep.oldSchema hd) (hstep.hasSuccessors hr hs)).mpr fun t ht => ?_
  rw [get?_onTable, if_pos rfl] at ht
  obtain ⟨u, hu, rfl⟩ := Option.map_eq_some_iff.mp ht
  exact fun ho => ((fits hr hd hs hu).mem_keys.mp ho).1 rfl

/-- What a renaming passes through. -/
theorem always_renameColumn (hr : r ∈ renamedColumns) (hd : OldSchema d) (hs : HasSuccessors d)
    (hk : Knows k d) :
    (renameColumn r k).Always sqliteFile
      (fun d' => Step r d d' ∧ onTable r.table r.on d' = onTable r.table r.on d) d := by
  have hend := And.intro (step_on hr hd hs) (fixed_renamed_on hr hd hs)
  rcases renameColumn_cases hr hd hs hk with ⟨hp, -⟩ | ⟨c, c', d', k', hp, hfirst, hsecond, hcop, -⟩
  · rw [hp]
    exact ⟨.refl d, rfl⟩
  · have hmid := And.intro (step_copied hd hr hcop) hcop.again
    rw [hp]
    refine Prog.always_bind (always_execute hfirst ⟨.refl d, rfl⟩ hmid) fun u e hrun => ?_
    rw [run_execute hfirst] at hrun
    cases hrun
    refine Prog.always_bind (always_execute hsecond hmid hend) fun u e hrun => ?_
    rw [run_execute hsecond] at hrun
    cases hrun
    exact hend

/-- What is known once all columns are there. -/
def KnowsAll (k : Columns) (d : Tables) : Prop := Knows k d ∧ HasSuccessors d

/-- A renaming is a repair, also between its two statements. -/
theorem mends_renameColumn (hr : r ∈ renamedColumns) :
    Prog.Mends sqliteFile OldSchema KnowsAll KnowsAll (renameColumn r)
      (onTable r.table r.on) where
  run k d hd hk := by
    obtain ⟨hk, hs⟩ := hk
    have hs' := (step_on hr hd hs).hasSuccessors hr hs
    rcases renameColumn_cases hr hd hs hk with
      ⟨hp, hself⟩ | ⟨c, c', d', k', hp, hfirst, hsecond, -, hk'⟩
    · rw [hp, hself]
      exact ⟨k, rfl, hk, hs⟩
    · rw [hp, Prog.run_bind, run_execute hfirst]
      dsimp only
      rw [Prog.run_bind, run_execute hsecond]
      exact ⟨k', rfl, hk', hs'⟩
  always k d hd hk := (always_renameColumn hr hd hk.2 hk.1).mono fun _ h =>
    ⟨h.1.oldSchema hd, h.2⟩

end

/-! ## The inspector -/

section
variable {d : Tables}

theorem run_getColumns {n : Str} {t : SqlTable} (h : d.get? n = some t) :
    (getColumns n).run sqliteFile d = (.ok t.columns.keys, d) := by
  simp only [getColumns, Prog.run, sqliteFile, Stmt.exec, h]

theorem issues_getColumns (n : Str) : (getColumns n).Issues fun c => c.kind = .read := by
  refine ⟨rfl, fun reply => ?_⟩
  cases reply <;> trivial

/-- The inspector reads the columns of every table it is asked for. -/
theorem run_inspect (l : List Str) (hl : ∀ n ∈ l, n ∈ d.keys) (acc : Columns) :
    ∃ k, (l.foldlM (fun columns table => do return columns.set table (← getColumns table))
        acc : Work Columns).run sqliteFile d = (.ok k, d) ∧
      ∀ m, k.get? m = if m ∈ l then (d.get? m).map fun t => t.columns.keys else acc.get? m := by
  induction l generalizing acc with
  | nil => exact ⟨acc, rfl, fun m => (if_neg List.not_mem_nil).symm⟩
  | cons n l ih =>
    obtain ⟨t, ht⟩ := Dict.mem_keys.mp (hl n List.mem_cons_self)
    obtain ⟨k, hrun, hk⟩ :=
      ih (fun m hm => hl m (List.mem_cons_of_mem _ hm)) (acc.set n t.columns.keys)
    refine ⟨k, ?_, fun m => ?_⟩
    · rw [List.foldlM_cons, Prog.bind_assoc, Prog.run_bind, run_getColumns ht]
      exact hrun
    · rw [hk, Dict.get?_set]
      by_cases hm : m ∈ l
      · rw [if_pos hm, if_pos (List.mem_cons_of_mem _ hm)]
      · by_cases hn : m = n
        · rw [if_neg hm, if_pos hn, if_pos (hn ▸ List.mem_cons_self), hn, ht, Option.map_some]
        · rw [if_neg hm, if_neg hn, if_neg fun h => (List.mem_cons.mp h).elim hn hm]

theorem issues_inspect : inspectColumns.Issues fun c => c.kind = .read := by
  refine ⟨rfl, fun tables => ?_⟩
  suffices h : ∀ (l : List Str) (acc : Columns),
      (l.foldlM (fun columns table => do return columns.set table (← getColumns table))
        acc : Work Columns).Issues fun c => c.kind = .read from h tables _
  intro l
  induction l with
  | nil => exact fun acc => trivial
  | cons n l ih =>
    intro acc
    exact Prog.issues_bind (Prog.issues_bind (issues_getColumns n) fun _ => trivial) fun _ => ih _

/-- It changes nothing, and knows the columns afterwards. -/
theorem mends_inspect :
    Prog.Mends sqliteFile OldSchema (fun _ _ => True) Knows (fun _ : Unit => inspectColumns)
      id where
  run _ d _ _ := by
    obtain ⟨k, hrun, hk⟩ := run_inspect d.keys (fun _ => id) Dict.empty
    refine ⟨k, hrun, ?_⟩
    change Knows k d
    intro m
    rw [hk]
    cases hd : d.get? m with
    | none =>
      rw [if_neg (Dict.get?_eq_none.mp hd), Dict.get?_empty]
      exact .none
    | some t =>
      rw [if_pos (Dict.mem_keys_of_get? hd), Option.map_some]
      exact .some fun x => Iff.rfl
  always _ d hd _ := (always_of_reads issues_inspect d).mono fun t ht => by
    subst ht
    exact ⟨hd, rfl⟩

end

/-! ## The obsolete tables -/

section
variable {d : Tables}

/-- Dropping tables one by one is dropping them at once. -/
theorem items_foldl_erase (l : List Str) (d : Tables) :
    (l.foldl Dict.erase d).items = d.items.filter fun p => p.1 ∉ l := by
  induction l generalizing d with
  | nil => simp only [List.foldl_nil, List.not_mem_nil, not_false_eq_true, decide_true,
      List.filter_true]
  | cons n l ih =>
    rw [List.foldl_cons, ih]
    simp only [Dict.erase, List.filter_filter, List.mem_cons, not_or]
    congr 1
    funext p
    rw [Bool.decide_and, Bool.and_comm]

/-- Dropping some tables first makes no difference. -/
theorem foldl_erase_append {l l' : List Str} :
    (l ++ l').foldl Dict.erase (l.foldl Dict.erase d) = (l ++ l').foldl Dict.erase d := by
  refine Dict.ext_items ?_
  rw [items_foldl_erase, items_foldl_erase, items_foldl_erase, List.filter_filter]
  congr 1
  funext p
  simp only [List.mem_append, not_or, Bool.decide_and]
  cases decide (p.1 ∉ l) <;> cases decide (p.1 ∉ l') <;> rfl

/-- A table that is there is dropped, and another one passed over. -/
theorem dropTable_cases {k : Columns} {n : Str} (hk : k.get? n = none ↔ d.get? n = none) :
    dropTable k n = .pure () ∧ d.erase n = d ∨
      ∃ c, dropTable k n = execute c ∧ c.apply d = .ok (d.erase n) := by
  unfold dropTable
  cases hkn : k.get? n with
  | none => exact .inl ⟨rfl, Dict.erase_of_not_mem (Dict.get?_eq_none.mp (hk.mp hkn))⟩
  | some names =>
    have hmem : n ∈ d.keys := by
      by_contra h
      rw [hk.mpr (Dict.get?_eq_none.mpr h)] at hkn
      cases hkn
    exact .inr ⟨_, rfl, if_pos hmem⟩

/-- What dropping the tables passes through. -/
theorem run_drops {k : Columns} {l : List Str} (hn : l.Nodup)
    (hk : ∀ n ∈ l, k.get? n = none ↔ d.get? n = none) :
    (l.forM (dropTable k)).run sqliteFile d = (.ok (), l.foldl Dict.erase d) ∧
      (l.forM (dropTable k)).Always sqliteFile
        (fun t => ∃ l₁ l₂, l = l₁ ++ l₂ ∧ t = l₁.foldl Dict.erase d) d := by
  induction l generalizing d with
  | nil => exact ⟨rfl, [], [], rfl, rfl⟩
  | cons n l ih =>
    obtain ⟨hnl, hn⟩ := List.nodup_cons.mp hn
    have hstep : (dropTable k n).run sqliteFile d = (.ok (), d.erase n) ∧
        (dropTable k n).Always sqliteFile (fun t => t = d ∨ t = d.erase n) d := by
      rcases dropTable_cases (hk n List.mem_cons_self) with ⟨hp, he⟩ | ⟨c, hp, happly⟩
      · rw [hp, he]
        exact ⟨rfl, .inl rfl⟩
      · rw [hp]
        exact ⟨run_execute happly, always_execute happly (.inl rfl) (.inr rfl)⟩
    obtain ⟨hrun, halways⟩ := ih (d := d.erase n) hn fun m hm => by
      have hne : m ≠ n := fun e => hnl (e ▸ hm)
      rw [Dict.get?_erase, if_neg hne]
      exact hk m (List.mem_cons_of_mem _ hm)
    refine ⟨?_, Prog.always_bind (hstep.2.mono ?_) fun u t hr => ?_⟩
    · change (dropTable k n >>= fun _ => l.forM (dropTable k)).run sqliteFile d = _
      rw [Prog.run_bind, hstep.1]
      exact hrun
    · rintro t (rfl | rfl)
      · exact ⟨[], n :: l, rfl, rfl⟩
      · exact ⟨[n], l, rfl, rfl⟩
    · cases hr.symm.trans hstep.1
      refine halways.mono ?_
      rintro t ⟨l₁, l₂, rfl, rfl⟩
      exact ⟨n :: l₁, l₂, rfl, rfl⟩

theorem get?_foldl_erase (l : List Str) (n : Str) :
    (l.foldl Dict.erase d).get? n = if n ∈ l then none else d.get? n := by
  induction l generalizing d with
  | nil => rw [if_neg List.not_mem_nil, List.foldl_nil]
  | cons m l ih =>
    rw [List.foldl_cons, ih, Dict.get?_erase]
    by_cases hm : n = m
    · have hmem : n ∈ m :: l := hm ▸ List.mem_cons_self
      rw [if_pos hm, if_pos hmem, ite_self]
    · simp only [List.mem_cons, hm, false_or, if_false]

theorem mem_of_foldl_erase {l : List Str} {n : Str} {t : SqlTable}
    (h : t ∈ (l.foldl Dict.erase d).get? n) : t ∈ d.get? n := by
  rw [get?_foldl_erase] at h
  split at h
  · cases h
  · exact h

theorem knows_none {k : Columns} (hk : Knows k d) (n : Str) :
    k.get? n = none ↔ d.get? n = none := by
  rcases hk.cases n with ⟨hkn, hd⟩ | ⟨names, t, hkn, hd, -⟩
  · exact iff_of_true hkn hd
  · rw [hkn, hd]
    exact iff_of_false (Option.some_ne_none _) (Option.some_ne_none _)

/-- The loop over `_DROPPED_TABLES`. -/
def dropTables (k : Columns) : Work Unit := droppedTables.forM (dropTable k)

/-- Every table of the list is gone in the end, and those of a first part of it before that. -/
theorem run_dropTables {k : Columns} (hk : Knows k d) :
    (dropTables k).run sqliteFile d = (.ok (), withoutTables d) ∧
      (dropTables k).Always sqliteFile
        (fun t => ∃ l₁ l₂, droppedTables = l₁ ++ l₂ ∧ t = l₁.foldl Dict.erase d) d :=
  run_drops (by decide) fun n _ => knows_none hk n

/-- Dropping the tables is a repair. -/
theorem mends_dropTables : Prog.Mends sqliteFile OldSchema KnowsAll (fun _ _ => True) dropTables
    withoutTables where
  run k d _ hk := ⟨(), (run_dropTables hk.1).1, trivial⟩
  always k d hd hk := (run_dropTables hk.1).2.mono fun t ht => by
    obtain ⟨l₁, l₂, hl, rfl⟩ := ht
    refine ⟨fun r hr t ht => hd r hr t (mem_of_foldl_erase ht), ?_⟩
    unfold withoutTables
    rw [hl]
    exact foldl_erase_append

/-- It spares what does not depend on the tables that go. -/
theorem spares_dropTables {g : Tables → Tables}
    (hg : ∀ (k : Columns) (d : Tables) (l : List Str), OldSchema d → KnowsAll k d → g d = d →
      g (l.foldl Dict.erase d) = l.foldl Dict.erase d) :
    Prog.Spares sqliteFile OldSchema KnowsAll dropTables g :=
  fun k d hd hk hfix => (run_dropTables hk.1).2.mono fun t ht => by
    obtain ⟨l₁, l₂, -, rfl⟩ := ht
    exact hg k d l₁ hd hk hfix

end

/-! ## The whole migration -/

section
variable {a : Added} {r : Renamed}

/-- The loop over `_ADDED_COLUMNS`. -/
def addColumns (k : Columns) : Work Columns := addedColumns.foldlM (fun k a => addColumn a k) k

/-- The loop over `_RENAMED_COLUMNS`. -/
def renameColumns (k : Columns) : Work Columns :=
  renamedColumns.foldlM (fun k r => renameColumn r k) k

/-- One addition never undoes another one. -/
theorem spares_addColumn (a a' : Added) :
    Prog.Spares sqliteFile OldSchema Knows (addColumn a') (onTable a.table a.on) := by
  intro k d hd hk hfix
  refine always_addColumn hk hfix (fixed_added.mpr fun t ht => ?_)
  rw [get?_onTable] at ht
  split at ht
  · rename_i hn
    obtain ⟨u, hu, rfl⟩ := Option.map_eq_some_iff.mp ht
    exact mem_keys_added.mpr (.inl (fixed_added.mp hfix u (hn ▸ hu)))
  · exact fixed_added.mp hfix t ht

/-- The loop of additions is a repair, as each of them is. -/
theorem mends_addColumns :
    Prog.Mends sqliteFile OldSchema Knows Knows addColumns withColumns :=
  Prog.mends_foldlM (fun _ _ => mends_addColumn) (List.pairwise_of_forall spares_addColumn)

/-- Where the loop has nothing to do, no addition has. -/
theorem fixed_withColumns {k : Columns} {d : Tables} (hd : OldSchema d) (hk : Knows k d)
    (h : withColumns d = d) : ∀ a ∈ addedColumns, onTable a.table a.on d = d :=
  Prog.fixed_of_foldl (fun _ _ => mends_addColumn) (List.pairwise_of_forall spares_addColumn) hd
    hk h

/-- Once all columns are there, so are the successors. -/
theorem hasSuccessors_of_fixed {d : Tables} (h : ∀ a ∈ addedColumns, onTable a.table a.on d = d) :
    HasSuccessors d := by
  intro r hr t ht
  obtain ⟨a, ha, htable, hname⟩ := exists_added r hr
  rw [← hname]
  exact fixed_added.mp (h a ha) t (htable ▸ ht)

/-- After it all columns are there, and the renamings find their successors. -/
theorem mends_addColumns_all :
    Prog.Mends sqliteFile OldSchema Knows KnowsAll addColumns withColumns where
  run k d hd hk := by
    obtain ⟨k', hrun, hk'⟩ := mends_addColumns.run k d hd hk
    obtain ⟨hd', hfix⟩ := mends_addColumns.onWay hd hk
    exact ⟨k', hrun, hk', hasSuccessors_of_fixed (fixed_withColumns hd' hk' hfix)⟩
  always := mends_addColumns.always

/-- A renaming takes away no column that was added. -/
theorem spares_renameColumn_added (ha : a ∈ addedColumns) (hr : r ∈ renamedColumns) :
    Prog.Spares sqliteFile OldSchema KnowsAll (renameColumn r) (onTable a.table a.on) := by
  intro k d hd hk hfix
  refine (always_renameColumn hr hd hk.2 hk.1).mono fun d' h => fixed_added.mpr fun t' ht' => ?_
  obtain ⟨t, ht, -, -, hkeys⟩ := h.1.table _ t' ht'
  exact hkeys _ (added_ne_old a ha r hr) (fixed_added.mp hfix t ht)

/-- And brings no column back that another renaming took away. -/
theorem spares_renameColumn {r' : Renamed} (hr : r ∈ renamedColumns) (hr' : r' ∈ renamedColumns) :
    Prog.Spares sqliteFile OldSchema KnowsAll (renameColumn r') (onTable r.table r.on) := by
  intro k d hd hk hfix
  refine (always_renameColumn hr' hd hk.2 hk.1).mono fun d' h => ?_
  refine onTable_eq_self.mpr fun t' ht' => renamed_of_not_mem fun ho => ?_
  obtain ⟨t, ht, -, hkeys, -⟩ := h.1.table _ t' ht'
  exact (fixed_renamed hr hd hk.2).mp hfix t ht (hkeys _ ho)

theorem pairwise_renameColumn : renamedColumns.Pairwise fun r r' =>
    Prog.Spares sqliteFile OldSchema KnowsAll (renameColumn r') (onTable r.table r.on) :=
  List.Pairwise.imp_of_mem (fun hr hr' _ => spares_renameColumn hr hr')
    (List.pairwise_of_forall (R := fun _ _ => True) fun _ _ => trivial)

/-- So the loop of renamings is a repair. -/
theorem mends_renameColumns :
    Prog.Mends sqliteFile OldSchema KnowsAll KnowsAll renameColumns withNames :=
  Prog.mends_foldlM (fun _ hr => mends_renameColumn hr) pairwise_renameColumn

/-- Where it has nothing to do, no renaming has. -/
theorem fixed_withNames {k : Columns} {d : Tables} (hd : OldSchema d) (hk : KnowsAll k d)
    (h : withNames d = d) : ∀ r ∈ renamedColumns, onTable r.table r.on d = d :=
  Prog.fixed_of_foldl (fun _ hr => mends_renameColumn hr) pairwise_renameColumn hd hk h

/-- The renamings leave the additions done. -/
theorem spares_renameColumns_withColumns :
    Prog.Spares sqliteFile OldSchema KnowsAll renameColumns withColumns :=
  Prog.spares_foldl (fun _ ha => Prog.spares_foldlM (fun _ hr => mends_renameColumn hr)
    fun _ hr => spares_renameColumn_added ha hr) fun _ _ hd hk h => fixed_withColumns hd hk.1 h

/-- Dropping tables leaves them done, too. -/
theorem spares_dropTables_withColumns :
    Prog.Spares sqliteFile OldSchema KnowsAll dropTables withColumns := by
  refine Prog.spares_foldl (fun a _ => spares_dropTables fun k d l hd hk hfix => ?_)
    fun _ _ hd hk h => fixed_withColumns hd hk.1 h
  exact fixed_added.mpr fun t ht => fixed_added.mp hfix t (mem_of_foldl_erase ht)

/-- And the renamings. -/
theorem spares_dropTables_withNames :
    Prog.Spares sqliteFile OldSchema KnowsAll dropTables withNames := by
  refine Prog.spares_foldl (fun r hr => spares_dropTables fun k d l hd hk hfix => ?_)
    fun _ _ hd hk h => fixed_withNames hd hk h
  refine onTable_eq_self.mpr fun t ht => renamed_of_not_mem ?_
  exact (fixed_renamed hr hd hk.2).mp hfix t (mem_of_foldl_erase ht)

/-- What the migration alone makes of a file. -/
def migrated (d : Tables) : Tables := withoutTables (withNames (withColumns d))

/-- **The migration is a repair**: stopped anywhere and started again, it makes the
file that one whole run makes. -/
theorem mends_migrateSchema : Prog.Mends sqliteFile OldSchema (fun _ _ => True) (fun _ _ => True)
    (fun _ : Unit => migrateSchema) migrated := by
  have hnames := mends_renameColumns.bind mends_dropTables spares_dropTables_withNames
  have hspare := Prog.Spares.bind mends_renameColumns spares_renameColumns_withColumns
    spares_dropTables_withColumns
  have hcols := mends_addColumns_all.bind hnames hspare
  exact mends_inspect.bind hcols fun k d hd hk _ => (hcols.always k d hd hk).mono fun _ _ => rfl

end

end MailserverUi.L3.MigrationSpec
