import MailserverUi.L3Service.CreationSpec

/-!
# The upgrade of a database at start-up

The migration has no version number. `Upgraded d d'` says what it is for: what
becomes of the columns and the rows of an old database `d`.

Results:
* `get?_upgraded`: what becomes of a table.
* `upgraded_spec`: every database of the old schema is upgraded.
* `meets_iff`: a start that is cut short is made good by the next one exactly when
  the statement it did not get to creates no index.
* `index_lost`: two accounts may have one name then.
-/
namespace MailserverUi.L4.SchemaUpgrade

open Py L2.Schema L3.Migration L3.MigrationSpec L3.CreationSpec

/-! ## What becomes of a table -/

theorem get?_foldl_onTable {ρ : Type} {name : ρ → Str} {on : ρ → SqlTable → SqlTable}
    (l : List ρ) (d : Tables) (n : Str) :
    (l.foldl (fun d r => onTable (name r) (on r) d) d).get? n =
      (d.get? n).map fun t => (l.filter fun r => name r = n).foldl (fun t r => on r t) t := by
  induction l generalizing d with
  | nil => exact Option.map_id'.symm
  | cons r l ih =>
    rw [List.foldl_cons, ih, get?_onTable]
    by_cases h : name r = n
    · rw [List.filter_cons_of_pos (by simpa using h), if_pos h.symm, h, Option.map_map]
      rfl
    · rw [List.filter_cons_of_neg (by simpa using h), if_neg (Ne.symm h)]

/-- A table of this name with all columns that are added. -/
def withAdded (n : Str) (t : SqlTable) : SqlTable :=
  (addedColumns.filter fun a => a.table = n).foldl (fun t a => a.on t) t

def withRenamed (n : Str) (t : SqlTable) : SqlTable :=
  (renamedColumns.filter fun r => r.table = n).foldl (fun t r => r.on t) t

theorem get?_upgraded (d : Tables) (n : Str) :
    (upgraded d).get? n = if n ∈ droppedTables then none
      else ((withTables d).get? n).map fun t => withRenamed n (withAdded n t) := by
  rw [upgraded, withoutTables, get?_foldl_erase]
  refine if_congr Iff.rfl rfl ?_
  rw [withNames, get?_foldl_onTable, withColumns, get?_foldl_onTable, Option.map_map]
  rfl

section
variable {d : Tables} {l : List TableDecl} {n : Str} {t : SqlTable} {decl : TableDecl}

theorem get?_withDecls_of_not_mem (h : n ∉ l.map TableDecl.name) :
    (withDecls d l).get? n = d.get? n := by
  induction l generalizing d with
  | nil => rfl
  | cons decl l ih =>
    rw [List.map_cons, List.mem_cons, not_or] at h
    refine (ih h.2).trans ?_
    rw [Dict.get?_set, if_neg h.1]

theorem get?_withDecls_of_mem (hn : (l.map TableDecl.name).Nodup) (h : decl ∈ l) :
    (withDecls d l).get? decl.name = some (complete decl) := by
  induction l generalizing d with
  | nil => cases h
  | cons x l ih =>
    rw [List.map_cons, List.nodup_cons] at hn
    rcases List.mem_cons.mp h with rfl | h
    · refine (get?_withDecls_of_not_mem hn.1).trans ?_
      rw [Dict.get?_set, if_pos rfl]
    · exact ih hn.2 h

theorem get?_withTables (h : d.get? n = some t) : (withTables d).get? n = some t := by
  refine (get?_withDecls_of_not_mem fun hm => ?_).trans h
  obtain ⟨decl, hdecl, rfl⟩ := List.mem_map.mp hm
  exact (mem_metadata hdecl).2 (Dict.mem_keys_of_get? h)

theorem get?_withTables_missing (h : decl ∈ missing d) :
    (withTables d).get? decl.name = some (complete decl) :=
  get?_withDecls_of_mem (nodup_metadata.sublist (List.filter_sublist.map _)) h

end

/-! ## The columns that are added -/

section
variable {l : List Added} {a : Added} {t : SqlTable} {x : Str}

theorem sameRows_foldl {ρ : Type} {on : ρ → SqlTable → SqlTable}
    (h : ∀ r t, SameRows t (on r t)) (l : List ρ) (t : SqlTable) :
    SameRows t (l.foldl (fun t r => on r t) t) := by
  induction l generalizing t with
  | nil => exact .refl t
  | cons r l ih => exact (h r t).trans (ih (on r t))

theorem mem_keys_foldl_added : x ∈ (l.foldl (fun t a => a.on t) t).columns.keys ↔
    x ∈ t.columns.keys ∨ ∃ a ∈ l, a.name = x := by
  induction l generalizing t with
  | nil => simp
  | cons a l ih =>
    rw [List.foldl_cons, ih, mem_keys_added, or_assoc, List.exists_mem_cons_iff, @eq_comm _ x]

theorem get?_foldl_added_of_mem (h : x ∈ t.columns.keys) :
    (l.foldl (fun t a => a.on t) t).columns.get? x = t.columns.get? x := by
  induction l generalizing t with
  | nil => rfl
  | cons a l ih =>
    rw [List.foldl_cons, ih (mem_keys_added.mpr (.inl h)), get?_added]
    obtain ⟨c, hc⟩ := Dict.mem_keys.mp h
    rw [hc, Option.some_or]

/-- A column that was missing has its default in every row. -/
theorem get?_foldl_added (hn : (l.map Added.name).Nodup) (ha : a ∈ l)
    (hx : a.name ∉ t.columns.keys) :
    (l.foldl (fun t a => a.on t) t).columns.get? a.name = some (.filled a.ddl t.height) := by
  induction l generalizing t with
  | nil => cases ha
  | cons b l ih =>
    rw [List.map_cons, List.nodup_cons] at hn
    rw [List.foldl_cons]
    rcases List.mem_cons.mp ha with rfl | ha
    · rw [get?_foldl_added_of_mem (mem_keys_added.mpr (.inr rfl)), get?_added,
        Dict.get?_eq_none.mpr hx, Option.none_or, if_pos rfl]
    · have hne : a.name ≠ b.name := fun e => hn.1 (e ▸ List.mem_map_of_mem ha)
      rw [ih hn.2 ha fun h => (mem_keys_added.mp h).elim hx hne, sameRows_added.height]

theorem plain_foldl_added (h : Plain t x) : Plain (l.foldl (fun t a => a.on t) t) x := by
  induction l generalizing t with
  | nil => exact h
  | cons a l ih => exact ih h.added

end

/-! ## The columns that are renamed -/

/-- The two renamings have no column in common. -/
structure Apart (r r' : Renamed) : Prop where
  old_old : r.old ≠ r'.old
  old_new : r.old ≠ r'.new
  new_old : r.new ≠ r'.old
  new_new : r.new ≠ r'.new

section
variable {r r' : Renamed} {t : SqlTable} {x : Str} {c : Column}

theorem sameRows_renamed (r : Renamed) (t : SqlTable) : SameRows t (r.on t) := by
  have hcopy {u : SqlTable} (h : t.copyColumn r.new r.old = .ok u) : SameRows t u := by
    unfold SqlTable.copyColumn at h
    split at h
    · cases h
    · split at h
      · cases h
      · split at h
        · cases h
        · split at h
          · cases h
          · cases h
            exact ⟨rfl, rfl, rfl⟩
  have hdrop {u v : SqlTable} (h : u.dropColumn r.old = .ok v) : SameRows u v := by
    unfold SqlTable.dropColumn at h
    split at h
    · cases h
    · split at h
      · cases h
      · cases h
        exact ⟨rfl, rfl, rfl⟩
  unfold Renamed.on
  cases hc : t.copyColumn r.new r.old with
  | error e => exact .refl t
  | ok u =>
    simp only [Except.bind]
    cases hd : u.dropColumn r.old with
    | error e => exact .refl t
    | ok v => exact (hcopy hc).trans (hdrop hd)

theorem fit_on (h : Fit r t) (h' : Fit r' t) (ha : Apart r r') : Fit r' (r.on t) :=
  ⟨h'.ne, h.plain h'.old, h.plain h'.new, h.mem_keys.mpr ⟨ha.old_new.symm, h'.successor⟩⟩

theorem get?_renamed (h : Fit r t) (hx : x = r.old ∨ x = r.new → r.old ∉ t.columns.keys) :
    (r.on t).columns.get? x = t.columns.get? x := by
  rcases h.cases with ⟨-, e⟩ | ⟨_, _, _, ho, -, -, -, -, hcols⟩
  · rw [e]
  · have hne := fun e => hx e (Dict.mem_keys_of_get? ho)
    rw [hcols, Dict.get?_erase, if_neg fun e => hne (.inl e), Dict.get?_set,
      if_neg fun e => hne (.inr e)]

theorem carries_renamed (h : Fit r t) (hc : t.columns.get? r.old = some c) :
    ∃ c', (r.on t).columns.get? r.new = some c' ∧ c'.cells = c.cells := by
  rcases h.cases with ⟨ho, -⟩ | ⟨source, _, c', ho, -, -, hcells, -, hcols⟩
  · exact absurd (Dict.mem_keys_of_get? hc) ho
  · cases hc.symm.trans ho
    refine ⟨c', ?_, hcells⟩
    rw [hcols, Dict.get?_erase, if_neg h.ne.symm, Dict.get?_set, if_pos rfl]

end

section
variable {l : List Renamed} {r : Renamed} {t : SqlTable} {x : Str} {c : Column}

theorem mem_keys_foldl_renamed (hf : ∀ r ∈ l, Fit r t) (ha : l.Pairwise Apart) :
    x ∈ (l.foldl (fun t r => r.on t) t).columns.keys ↔
      x ∈ t.columns.keys ∧ ∀ r ∈ l, x ≠ r.old := by
  induction l generalizing t with
  | nil => simp
  | cons r l ih =>
    obtain ⟨hr, hl⟩ := List.forall_mem_cons.mp hf
    obtain ⟨har, ha⟩ := List.pairwise_cons.mp ha
    rw [List.foldl_cons, ih (fun r' hr' => fit_on hr (hl r' hr') (har r' hr')) ha, hr.mem_keys,
      List.forall_mem_cons]
    tauto

theorem get?_foldl_renamed (hf : ∀ r ∈ l, Fit r t) (ha : l.Pairwise Apart)
    (hx : ∀ r ∈ l, x = r.old ∨ x = r.new → r.old ∉ t.columns.keys) :
    (l.foldl (fun t r => r.on t) t).columns.get? x = t.columns.get? x := by
  induction l generalizing t with
  | nil => rfl
  | cons r l ih =>
    obtain ⟨hr, hl⟩ := List.forall_mem_cons.mp hf
    obtain ⟨har, ha⟩ := List.pairwise_cons.mp ha
    rw [List.foldl_cons, ih (fun r' hr' => fit_on hr (hl r' hr') (har r' hr')) ha
      fun r' hr' e hk => hx r' (List.mem_cons_of_mem r hr') e (hr.mem_keys.mp hk).2]
    exact get?_renamed hr (hx r List.mem_cons_self)

/-- The successor has the values of the old column. -/
theorem carries_foldl_renamed (hf : ∀ r ∈ l, Fit r t) (ha : l.Pairwise Apart) (hr : r ∈ l)
    (hc : t.columns.get? r.old = some c) :
    ∃ c', (l.foldl (fun t r => r.on t) t).columns.get? r.new = some c' ∧ c'.cells = c.cells := by
  induction l generalizing t with
  | nil => cases hr
  | cons s l ih =>
    obtain ⟨hs, hl⟩ := List.forall_mem_cons.mp hf
    obtain ⟨has, hap⟩ := List.pairwise_cons.mp ha
    have hl' : ∀ r' ∈ l, Fit r' (s.on t) := fun r' hr' => fit_on hs (hl r' hr') (has r' hr')
    rw [List.foldl_cons]
    rcases List.mem_cons.mp hr with rfl | hr
    · obtain ⟨c', hc', hcells⟩ := carries_renamed hs hc
      refine ⟨c', (get?_foldl_renamed hl' hap fun r' hr' e => ?_).trans hc', hcells⟩
      exact (e.elim (has r' hr').new_old (has r' hr').new_new).elim
    · refine ih hl' hap hr ((get?_renamed hs fun e => ?_).trans hc)
      exact (e.elim (has r hr).old_old.symm (has r hr).new_old.symm).elim

end

/-! ## What the upgrade is for -/

/-- The table has the same rows, and columns that no renaming has to do with hold
what they held. -/
structure Kept (n : Str) (t t' : SqlTable) : Prop where
  rows : SameRows t t'
  columns : ∀ x ∈ t.columns.keys,
    (∀ r ∈ renamedColumns, r.table = n → x = r.old ∨ x = r.new → r.old ∉ t.columns.keys) →
      t'.columns.get? x = t.columns.get? x
  listed : ∀ x ∈ t'.columns.keys,
    x ∈ t.columns.keys ∨ ∃ a ∈ addedColumns, a.table = n ∧ a.name = x

structure Upgraded (d d' : Tables) : Prop where
  added : ∀ a ∈ addedColumns, ∃ t ∈ d'.get? a.table, a.name ∈ t.columns.keys
  carried : ∀ r ∈ renamedColumns, ∀ t ∈ d.get? r.table, ∀ c ∈ t.columns.get? r.old,
    ∃ t' ∈ d'.get? r.table, ∃ c' ∈ t'.columns.get? r.new, c'.cells = c.cells
  renamed : ∀ r ∈ renamedColumns, ∀ t' ∈ d'.get? r.table, r.old ∉ t'.columns.keys
  /-- a column that has no values carried over to it -/
  defaults : ∀ a ∈ addedColumns, ∀ t ∈ d.get? a.table, a.name ∉ t.columns.keys →
    (∀ r ∈ renamedColumns, r.table = a.table → r.new = a.name → r.old ∉ t.columns.keys) →
    ∃ t' ∈ d'.get? a.table, ∃ c ∈ t'.columns.get? a.name,
      c.cells = List.replicate t.height a.ddl.default
  dropped : ∀ n ∈ droppedTables, n ∉ d'.keys
  kept : ∀ n, n ∉ droppedTables → ∀ t ∈ d.get? n, ∃ t' ∈ d'.get? n, Kept n t t'
  created : ∀ decl ∈ metadata, decl.name ∉ d.keys → d'.get? decl.name = some (complete decl)
  others : ∀ n ∈ d'.keys, n ∈ d.keys ∨ ∃ decl ∈ metadata, decl.name = n

theorem apart_renamedColumns : renamedColumns.Pairwise Apart := by
  refine .cons (fun r hr => ?_) (List.pairwise_singleton _ _)
  obtain rfl := List.mem_singleton.mp hr
  exact ⟨by decide, by decide, by decide, by decide⟩

theorem exists_decl : ∀ a ∈ addedColumns, ∃ decl ∈ metadata, decl.name = a.table := by decide

theorem metadata_kept : ∀ decl ∈ metadata, decl.name ∉ droppedTables := by decide

theorem added_kept : ∀ a ∈ addedColumns, a.table ∉ droppedTables := by decide

theorem renamed_kept : ∀ r ∈ renamedColumns, r.table ∉ droppedTables := by decide

/-- The models are up to date with the lists. -/
theorem complete_uptodate : ∀ decl ∈ metadata,
    (∀ a ∈ addedColumns, a.table = decl.name → a.name ∈ (complete decl).columns.keys) ∧
    ∀ r ∈ renamedColumns, r.table = decl.name → r.old ∉ (complete decl).columns.keys := by
  decide

section
variable {d : Tables} {n x : Str} {t : SqlTable}

theorem mem_renamedOf {r : Renamed} :
    r ∈ (renamedColumns.filter fun r => r.table = n) ↔ r ∈ renamedColumns ∧ r.table = n := by
  rw [List.mem_filter, decide_eq_true_eq]

theorem mem_addedTo {a : Added} :
    a ∈ (addedColumns.filter fun a => a.table = n) ↔ a ∈ addedColumns ∧ a.table = n := by
  rw [List.mem_filter, decide_eq_true_eq]

theorem fits_withAdded (hd : OldSchema d) (ht : d.get? n = some t) :
    ∀ r ∈ (renamedColumns.filter fun r => r.table = n), Fit r (withAdded n t) := by
  intro r hmem
  obtain ⟨hr, rfl⟩ := mem_renamedOf.mp hmem
  obtain ⟨a, ha, htable, hname⟩ := exists_added r hr
  obtain ⟨ho, hnew⟩ := hd r hr t ht
  refine ⟨old_ne_new r hr r hr, plain_foldl_added ho, plain_foldl_added hnew, ?_⟩
  exact mem_keys_foldl_added.mpr (.inr ⟨a, mem_addedTo.mpr ⟨ha, htable⟩, hname⟩)

theorem apart_renamed (n : Str) : (renamedColumns.filter fun r => r.table = n).Pairwise Apart :=
  apart_renamedColumns.filter _

theorem old_withAdded {r : Renamed} (hr : r ∈ renamedColumns)
    (h : r.old ∉ t.columns.keys) : r.old ∉ (withAdded n t).columns.keys := by
  intro hk
  rcases mem_keys_foldl_added.mp hk with hk | ⟨a, ha, he⟩
  · exact h hk
  · exact added_ne_old a (mem_addedTo.mp ha).1 r hr he

theorem mem_keys_upgradedTable (hd : OldSchema d) (ht : d.get? n = some t) :
    x ∈ (withRenamed n (withAdded n t)).columns.keys ↔
      (x ∈ t.columns.keys ∨ ∃ a ∈ addedColumns, a.table = n ∧ a.name = x) ∧
        ∀ r ∈ renamedColumns, r.table = n → x ≠ r.old := by
  refine (mem_keys_foldl_renamed (fits_withAdded hd ht) (apart_renamed n)).trans ?_
  refine and_congr (mem_keys_foldl_added.trans ?_) ?_
  · simp only [mem_addedTo, and_assoc]
  · simp only [mem_renamedOf, and_imp]

theorem get?_upgradedTable (hd : OldSchema d) (ht : d.get? n = some t)
    (hx : ∀ r ∈ renamedColumns, r.table = n → x = r.old ∨ x = r.new → r.old ∉ t.columns.keys) :
    (withRenamed n (withAdded n t)).columns.get? x = (withAdded n t).columns.get? x := by
  refine get?_foldl_renamed (fits_withAdded hd ht) (apart_renamed n) fun r hr e => ?_
  obtain ⟨hr, htable⟩ := mem_renamedOf.mp hr
  exact old_withAdded hr (hx r hr htable e)

theorem kept_upgradedTable (hd : OldSchema d) (ht : d.get? n = some t) :
    Kept n t (withRenamed n (withAdded n t)) where
  rows := (sameRows_foldl (fun _ _ => sameRows_added) _ t).trans
    (sameRows_foldl sameRows_renamed _ _)
  columns _ hk hx := (get?_upgradedTable hd ht hx).trans (get?_foldl_added_of_mem hk)
  listed _ hk := ((mem_keys_upgradedTable hd ht).mp hk).1

theorem get?_upgraded_of_get? (h : d.get? n = some t) (hn : n ∉ droppedTables) :
    (upgraded d).get? n = some (withRenamed n (withAdded n t)) := by
  rw [get?_upgraded, if_neg hn, get?_withTables h, Option.map_some]

theorem get?_upgraded_missing {decl : TableDecl} (h : decl ∈ missing d) :
    (upgraded d).get? decl.name = some (complete decl) := by
  obtain ⟨hm, -⟩ := mem_metadata h
  obtain ⟨hadded, hrenamed⟩ := complete_uptodate decl hm
  have ha : withAdded decl.name (complete decl) = complete decl :=
    Prog.foldl_fixed (g := fun (a : Added) t => a.on t) fun a ha =>
      added_of_mem (hadded a (mem_addedTo.mp ha).1 (mem_addedTo.mp ha).2)
  have hr : withRenamed decl.name (complete decl) = complete decl :=
    Prog.foldl_fixed (g := fun (r : Renamed) t => r.on t) fun r hr =>
      renamed_of_not_mem (hrenamed r (mem_renamedOf.mp hr).1 (mem_renamedOf.mp hr).2)
  rw [get?_upgraded, if_neg (metadata_kept decl hm), get?_withTables_missing h, Option.map_some,
    ha, hr]

/-- **The upgrade.** -/
theorem upgraded_spec (hd : OldSchema d) : Upgraded d (upgraded d) where
  added a ha := by
    obtain ⟨decl, hm, hname⟩ := exists_decl a ha
    obtain ⟨t, ht⟩ := Dict.mem_keys.mp (hasTables_withTables d decl hm)
    rw [hname] at ht
    have hold : OldSchema (withTables d) :=
      oldSchema_withDecls hd fun decl hm => (mem_metadata hm).1
    refine ⟨withRenamed a.table (withAdded a.table t), ?_, ?_⟩
    · rw [get?_upgraded, if_neg (added_kept a ha), ht]
      rfl
    · exact (mem_keys_upgradedTable hold ht).mpr
        ⟨.inr ⟨a, ha, rfl, rfl⟩, fun r hr _ => added_ne_old a ha r hr⟩
  carried r hr t ht c hc := by
    have hadded : (withAdded r.table t).columns.get? r.old = some c :=
      (get?_foldl_added_of_mem (Dict.mem_keys_of_get? hc)).trans hc
    obtain ⟨c', hc', hcells⟩ := carries_foldl_renamed (fits_withAdded hd ht)
      (apart_renamed r.table) (mem_renamedOf.mpr ⟨hr, rfl⟩) hadded
    exact ⟨_, get?_upgraded_of_get? ht (renamed_kept r hr), c', hc', hcells⟩
  renamed r hr t' ht' := by
    have hold : OldSchema (withTables d) :=
      oldSchema_withDecls hd fun decl hm => (mem_metadata hm).1
    rw [get?_upgraded, if_neg (renamed_kept r hr)] at ht'
    obtain ⟨t, ht, rfl⟩ := Option.map_eq_some_iff.mp ht'
    exact fun hk => ((mem_keys_upgradedTable hold ht).mp hk).2 r hr rfl rfl
  defaults a ha t ht hmissing hold := by
    have hnodup : (addedColumns.map Added.name).Nodup := by decide
    refine ⟨_, get?_upgraded_of_get? ht (added_kept a ha), .filled a.ddl t.height, ?_, rfl⟩
    refine (get?_upgradedTable hd ht fun r hr htable e => ?_).trans
      (get?_foldl_added (hnodup.sublist (List.filter_sublist.map _))
        (mem_addedTo.mpr ⟨ha, rfl⟩) hmissing)
    rcases e with e | e
    · exact absurd e (added_ne_old a ha r hr)
    · exact hold r hr htable e.symm
  dropped n hn hk := by
    obtain ⟨t, ht⟩ := Dict.mem_keys.mp hk
    rw [get?_upgraded, if_pos hn] at ht
    cases ht
  kept n hn t ht := ⟨_, get?_upgraded_of_get? ht hn, kept_upgradedTable hd ht⟩
  created decl hm hk := get?_upgraded_missing (List.mem_filter.mpr ⟨hm, decide_eq_true hk⟩)
  others n hk := by
    obtain ⟨t', ht'⟩ := Dict.mem_keys.mp hk
    rw [get?_upgraded] at ht'
    split at ht'
    · cases ht'
    · obtain ⟨t, ht, -⟩ := Option.map_eq_some_iff.mp ht'
      rcases mem_keys_withDecls.mp (Dict.mem_keys_of_get? ht) with hn | hn
      · exact .inl hn
      · obtain ⟨decl, hm, rfl⟩ := List.mem_map.mp hn
        exact .inr ⟨decl, (mem_metadata hm).1, rfl⟩

end

/-! ## A start that is cut short -/

/-- The statements that create what is missing. -/
def creations (d : Tables) : List Change := (missing d).flatMap creation

/-- The first statements ask for each table of the models, those after them create
what is missing. The one after the first `n` creates an index. -/
def BeforeIndex (d : Tables) (n : Nat) : Prop :=
  metadata.length ≤ n ∧
    ∃ table i, (creations d)[n - metadata.length]? = some (.createIndex table i)

/-- What a start leaves. -/
def started (d : Tables) : Tables := (createDbAndTables.run sqliteFile d).2

/-- A start upgrades the database, and another one changes nothing, nor does it
matter if the first ends after `n` statements. -/
structure Meets (d : Tables) (n : Nat) : Prop where
  returns : (createDbAndTables.run sqliteFile d).1 = .ok ()
  upgraded : Upgraded d (started d)
  again : createDbAndTables.run sqliteFile (started d) = (.ok (), started d)
  resumed : createDbAndTables.run sqliteFile (createDbAndTables.cut sqliteFile n d) =
    (.ok (), started d)

theorem createsIndex_change {o : Option Change} :
    CreatesIndex (o.map .change) ↔ ∃ table i, o = some (.createIndex table i) := by
  constructor
  · intro h
    cases o with
    | none => exact h.elim
    | some c =>
      cases c with
      | createIndex table i => exact ⟨table, i, rfl⟩
      | _ => exact h.elim
  · rintro ⟨table, i, rfl⟩
    trivial

section
variable {d : Tables}

theorem steps_createAll (hd : OldSchema d) :
    createAll.steps sqliteFile d = metadata.length + (creations d).length := by
  rw [createAll, Prog.steps_bind (run_missingTables metadata d), steps_missingTables]
  exact congrArg _ (does_createAll hd).steps

theorem createsIndex_createAll (hd : OldSchema d) (n : Nat) :
    CreatesIndex (createAll.nextAt sqliteFile n d) ↔ BeforeIndex d n := by
  by_cases hn : n < metadata.length
  · refine iff_of_false ?_ fun h => absurd h.1 (Nat.not_le_of_lt hn)
    rw [createAll, Prog.nextAt_bind_of_lt (by rwa [steps_missingTables])]
    refine not_createsIndex fun x hx => ?_
    have hkind := Prog.nextAt_of_issues (issues_missingTables metadata) n x hx
    cases x with
    | change => cases hkind
    | _ => trivial
  · obtain ⟨m, rfl⟩ := Nat.exists_eq_add_of_le (Nat.le_of_not_lt hn)
    have hnext := Prog.nextAt_bind_add (f := fun missing => (missing.flatMap creation).forM execute)
      (run_missingTables metadata d) m
    rw [steps_missingTables] at hnext
    rw [createAll, hnext]
    refine Iff.trans ?_ (and_iff_right (Nat.le_add_right _ m)).symm
    rw [Nat.add_sub_cancel_left, ← createsIndex_change]
    exact iff_of_eq (congrArg _ ((does_createAll hd).nextAt m))

theorem migrates_later (hd : OldSchema d) {n : Nat} (hn : createAll.steps sqliteFile d ≤ n) :
    ∀ x ∈ createDbAndTables.nextAt sqliteFile n d, Migrates x := by
  have hcommit : (commit : Work Unit).Issues Migrates := ⟨trivial, fun _ => trivial⟩
  have hsteps : (createAll >>= fun _ => commit).steps sqliteFile d =
      createAll.steps sqliteFile d + 1 := Prog.steps_bind (run_createAll hd)
  obtain ⟨m, rfl⟩ := Nat.exists_eq_add_of_le hn
  rw [createDbAndTables]
  cases m with
  | zero =>
    rw [Prog.nextAt_bind_of_lt (by rw [Prog.steps_attempt, hsteps]; exact Nat.lt_succ_self _),
      Prog.nextAt_attempt, Prog.nextAt_bind_add (run_createAll hd)]
    exact Prog.nextAt_of_issues hcommit 0
  | succ m =>
    have hrun : (createAll >>= fun _ => commit).attempt.run sqliteFile d =
        (.ok (.ok ()), withTables d) := by rw [Prog.run_attempt, run_creating hd]
    rw [Nat.add_comm m 1, ← Nat.add_assoc, ← hsteps, ← Prog.steps_attempt,
      Prog.nextAt_bind_add hrun]
    exact Prog.nextAt_of_issues (Prog.issues_bind issues_migrateSchema fun _ => hcommit) m

/-- The next statement creates an index. -/
theorem createsIndex_iff (hd : OldSchema d) (n : Nat) :
    CreatesIndex (createDbAndTables.nextAt sqliteFile n d) ↔ BeforeIndex d n := by
  by_cases hn : n < createAll.steps sqliteFile d
  · have hlt : n < (createAll >>= fun _ => commit).steps sqliteFile d := by
      rw [Prog.steps_bind (run_createAll hd)]
      exact Nat.lt_add_right _ hn
    rw [createDbAndTables, Prog.nextAt_bind_of_lt (by rwa [Prog.steps_attempt]),
      Prog.nextAt_attempt, Prog.nextAt_bind_of_lt hn]
    exact createsIndex_createAll hd n
  · have hle := Nat.le_of_not_lt hn
    refine iff_of_false (not_createsIndex (migrates_later hd hle)) ?_
    rintro ⟨-, table, i, h⟩
    rw [steps_createAll hd] at hle
    rw [List.getElem?_eq_none (Nat.le_sub_of_add_le' hle)] at h
    cases h

/-- A table without one of its indexes never gets it. -/
theorem upgraded_ne_of_short {t : Tables} (h : Short d t) : upgraded t ≠ upgraded d := by
  obtain ⟨decl, hm, u, hu, hne⟩ := h
  have hkept := metadata_kept decl (mem_metadata hm).1
  intro he
  have hget := get?_upgraded_missing hm
  rw [← he, get?_upgraded_of_get? hu hkept, Option.some.injEq] at hget
  have hrows : SameRows u (withRenamed decl.name (withAdded decl.name u)) :=
    (sameRows_foldl (fun _ _ => sameRows_added) _ u).trans (sameRows_foldl sameRows_renamed _ _)
  rw [hget] at hrows
  exact hne hrows.indexes.symm

theorem started_eq (hd : OldSchema d) : started d = upgraded d :=
  congrArg Prod.snd (run_createDbAndTables hd)

/-- A database of the old schema is upgraded, whatever a start that was cut short has
done to it, exactly when that start was not about to create an index. -/
theorem meets_iff (hd : OldSchema d) (n : Nat) : Meets d n ↔ ¬ BeforeIndex d n := by
  have hb := (points_createDbAndTables hd).here n
  rw [← createsIndex_iff hd n]
  constructor
  · intro h hi
    have hrun := h.resumed
    rw [run_createDbAndTables hb.old, started_eq hd, Prod.mk.injEq] at hrun
    exact upgraded_ne_of_short (hb.short hi) hrun.2
  · intro hi
    obtain ⟨hold, hfix⟩ := upgraded_fixed hd
    refine ⟨congrArg Prod.fst (run_createDbAndTables hd), ?_, ?_, ?_⟩
    · rw [started_eq hd]
      exact upgraded_spec hd
    · rw [started_eq hd, run_createDbAndTables hold, hfix]
    · rw [run_createDbAndTables hb.old, hb.whole hi, started_eq hd]

end

/-! ### A deployment that has mapped a group of its users -/

/-- The table of the old schema. -/
def oldSettings : TableDecl :=
  declared "oidcsettings" ["enabled", "issuer", "client_id", "redirect_uri",
    "post_logout_redirect_uri", "response_type", "scope", "oidc_only", "admin_group_claim",
    "admin_group", "user_group_claim", "user_group", "restrict_to_groups", "id", "client_secret",
    "updated_at"] [] ["id"] []

def oldRow : List (Str × Value) :=
  oldSettings.columns.map fun c =>
    (c.1, .text (if c.1 = "user_group".toList then "staff".toList else []))

def oldFile : Tables :=
  let created := Dict.empty.set oldSettings.name (complete oldSettings)
  ((Change.insert oldSettings.name oldRow).apply created).toOption.getD created

/-- The values of a column. -/
def cellsOf (d : Tables) (table column : String) : Option (List Value) :=
  ((d.get? table.toList).bind fun t => t.columns.get? column.toList).map Column.cells

instance (d : Tables) : Decidable (OldSchema d) :=
  inferInstanceAs (Decidable (∀ r ∈ renamedColumns, ∀ t ∈ d.get? r.table, _ ∧ _))

example : cellsOf (started oldFile) "oidcsettings" "manager_group" =
    some [.text "staff".toList] := by decide

theorem meets_iff_oldFile : Meets oldFile 21 ↔ ¬ BeforeIndex oldFile 21 :=
  meets_iff (by decide +kernel) 21

/-- The indexes of a table. -/
def indexesOf (d : Tables) (table : String) : Option (List Index) :=
  (d.get? table.toList).map SqlTable.indexes

/-- The start is cut short between `user` and the index of its names. -/
theorem index_lost : OldSchema oldFile ∧
    indexesOf (started oldFile) "user" = some [unique "username"] ∧
    indexesOf (started (createDbAndTables.cut sqliteFile 19 oldFile)) "user" = some [] ∧
    ¬ Meets oldFile 19 := by
  have hwhole : indexesOf (started oldFile) "user" = some [unique "username"] := by decide +kernel
  have hshort : indexesOf (started (createDbAndTables.cut sqliteFile 19 oldFile)) "user" =
      some [] := by decide +kernel
  refine ⟨by decide +kernel, hwhole, hshort, fun h => ?_⟩
  have he : started (createDbAndTables.cut sqliteFile 19 oldFile) = started oldFile :=
    congrArg Prod.snd h.resumed
  rw [he, hwhole] at hshort
  cases hshort

end MailserverUi.L4.SchemaUpgrade
