import MailserverUi.L3Service.Migration

/-!
# The default administrator, in the tables (`ensure_default_admin`)

A worker looks for a local administrator and inserts one where there is none. The
hash of the password that it generates and the time of its insert are its own
(`Seed`).

Results:
* `insert_free`, `insert_taken`: the insert, where the name is free and where it is not.
* `rowCount_extended`: it adds one local administrator.
-/
namespace MailserverUi.L3.Seeding

open Py L2.Schema Migration

/-! ## `ensure_default_admin` -/

def userTable : Str := "user".toList

/-- The table of `User`. -/
def userDecl : TableDecl :=
  declared "user" ["username", "display_name", "role", "provider", "is_active", "id",
    "password_hash", "created_at", "updated_at", "last_login_at"]
    ["password_hash", "last_login_at"] ["id"] [unique "username"]

theorem userDecl_mem : userDecl ∈ metadata := by decide

/-- The columns of `select(User)`. -/
def userColumns : List Str := userDecl.columns.map Prod.fst

/-- `User.role == "admin", User.provider == "local"`. -/
def localAdmin : List (Str × Value) :=
  [("role".toList, .text "admin".toList), ("provider".toList, .text "local".toList)]

/-- What is a worker's own in the account that it seeds. -/
structure Seed where
  passwordHash : Str
  now : Str

/-- The row of `admin`; SQLite numbers it. -/
def adminRow (adminUsername : Str) (seed : Seed) : List (Str × Value) :=
  [("username".toList, .text adminUsername), ("display_name".toList, .text adminUsername),
    ("role".toList, .text "admin".toList), ("provider".toList, .text "local".toList),
    ("is_active".toList, .integer 1), ("password_hash".toList, .text seed.passwordHash),
    ("created_at".toList, .text seed.now), ("updated_at".toList, .text seed.now),
    ("last_login_at".toList, .null)]

/-- mirrors backend/app/services/user_service.py:300-329 -/
def ensureDefaultAdmin (adminUsername : Str) (seed : Seed) : Work Unit :=
  .call (.hasRow userTable userColumns localAdmin) fun
    | .error e => .raise e
    | .ok true => .pure ()
    | .ok false => .call (.change (.insert userTable (adminRow adminUsername seed))) fun
      | .ok () => commit
      | .error e => if e.integrity then .pure () else .raise e

/-! ## Rows with given values -/

section
variable (t : SqlTable) (values : List (Str × Value))

/-- The values of row `i`. -/
def RowIs (i : Nat) : Prop := ∀ v ∈ values, ∃ c ∈ t.columns.get? v.1, c.cells[i]? = some v.2

instance : DecidablePred (RowIs t values) := fun i =>
  inferInstanceAs (Decidable (∀ v ∈ values, ∃ c ∈ t.columns.get? v.1, c.cells[i]? = some v.2))

def rowCount : Nat := (List.range t.height).countP fun i => RowIs t values i

theorem hasRow_iff : t.HasRow values ↔ 0 < rowCount t values := by
  rw [rowCount, List.countP_pos_iff]
  refine exists_congr fun i => ?_
  rw [List.mem_range, decide_eq_true_eq]
  exact Iff.rfl

end

/-- `t'` is `t` with one more row. -/
structure Extended (t t' : SqlTable) (value : Str → Value) : Prop where
  height : t'.height = t.height + 1
  primaryKey : t'.primaryKey = t.primaryKey
  indexes : t'.indexes = t.indexes
  column : ∀ x, (t.columns.get? x = none ∧ t'.columns.get? x = none) ∨
    ∃ c c', t.columns.get? x = some c ∧ t'.columns.get? x = some c' ∧
      c'.cells = c.cells ++ [value x] ∧ c'.notNull = c.notNull

section
variable {t t' : SqlTable} {value : Str → Value} {values : List (Str × Value)}

theorem extended_extend
    (h : ∀ p ∈ t.columns.items, p.2.notNull = true → value p.1 ≠ .null) :
    Extended t (t.extend value h) value := by
  refine ⟨rfl, rfl, rfl, fun x => ?_⟩
  have hkeys : (t.extend value h).columns.keys = t.columns.keys := by
    change ((t.columns.items.attach.map _).map Prod.fst) = _
    rw [List.map_map, Function.comp_def, List.attach_map_val (f := Prod.fst)]
    rfl
  cases hx : t.columns.get? x with
  | none =>
    refine .inl ⟨rfl, ?_⟩
    rw [Dict.get?_eq_none, hkeys, ← Dict.get?_eq_none, hx]
  | some c =>
    have hmem : (x, c) ∈ t.columns.items := Dict.mem_items.mpr hx
    refine .inr ⟨c, ⟨c.notNull, c.cells ++ [value x], fun hn hm => ?_⟩, rfl, ?_, rfl, rfl⟩
    · rcases List.mem_append.mp hm with hm | hm
      · exact c.no_null hn hm
      · exact h _ hmem hn (List.mem_singleton.mp hm).symm
    · exact Dict.mem_items.mp
        (List.mem_map.mpr ⟨⟨(x, c), hmem⟩, List.mem_attach _ _, rfl⟩)

theorem length_cells {x : Str} {c : Column} (h : t.columns.get? x = some c) :
    c.cells.length = t.height := t.filled _ (Dict.mem_items.mpr h)

/-- The rows that were there are as they were. -/
theorem Extended.rowIs_of_lt (h : Extended t t' value) {i : Nat} (hi : i < t.height) :
    RowIs t' values i ↔ RowIs t values i := by
  refine forall₂_congr fun v _ => ?_
  rcases h.column v.1 with ⟨hn, hn'⟩ | ⟨c, c', hc, hc', hcells, -⟩
  · rw [hn, hn']
  · rw [hc, hc']
    simp only [Option.mem_some_iff, exists_eq_left']
    rw [hcells, List.getElem?_append_left (by rwa [length_cells hc])]

theorem Extended.rowIs_last (h : Extended t t' value)
    (hv : ∀ v ∈ values, v.1 ∈ t.columns.keys ∧ value v.1 = v.2) :
    RowIs t' values t.height := by
  intro v hmem
  obtain ⟨hk, hval⟩ := hv v hmem
  rcases h.column v.1 with ⟨hn, -⟩ | ⟨c, c', hc, hc', hcells, -⟩
  · exact absurd hk (Dict.get?_eq_none.mp hn)
  · refine ⟨c', hc', ?_⟩
    rw [hcells, ← length_cells hc, List.getElem?_concat_length, hval]

theorem rowCount_extended (h : Extended t t' value)
    (hv : ∀ v ∈ values, v.1 ∈ t.columns.keys ∧ value v.1 = v.2) :
    rowCount t' values = rowCount t values + 1 := by
  have hlast : decide (RowIs t' values t.height) = true := decide_eq_true (h.rowIs_last hv)
  rw [rowCount, h.height, List.range_succ, List.countP_append, List.countP_singleton,
    if_pos hlast, rowCount]
  refine congrArg (· + 1) (List.countP_congr fun i hi => ?_)
  rw [decide_eq_true_eq, decide_eq_true_eq, h.rowIs_of_lt (List.mem_range.mp hi)]

end

/-! ## The table of the accounts -/

/-- The table as the models have it. -/
structure IsUserTable (t : SqlTable) : Prop where
  keys : ∀ x, x ∈ t.columns.keys ↔ x ∈ userColumns
  lastLogin : ∀ c ∈ t.columns.get? "last_login_at".toList, c.notNull = false
  primaryKey : t.primaryKey = ["id".toList]
  indexes : t.indexes = [unique "username"]

/-- An account has the name. -/
def Named (t : SqlTable) (username : Str) : Prop :=
  ∃ c ∈ t.columns.get? "username".toList, Value.text username ∈ c.cells

instance (t : SqlTable) (username : Str) : Decidable (Named t username) :=
  inferInstanceAs (Decidable (∃ c ∈ t.columns.get? "username".toList, _))

theorem number_lt_nextId {cells : List Value} {v : Value} (h : v ∈ cells) :
    v.number < nextId cells := by
  have hmax (l : List Int) : ∀ m, m ≤ l.foldl max m ∧ ∀ x ∈ l, x ≤ l.foldl max m := by
    induction l with
    | nil => exact fun m => ⟨le_rfl, fun x hx => absurd hx List.not_mem_nil⟩
    | cons y l ih =>
      intro m
      obtain ⟨hm, hl⟩ := ih (max m y)
      refine ⟨(le_max_left m y).trans hm, List.forall_mem_cons.mpr ⟨?_, hl⟩⟩
      exact (le_max_right m y).trans hm
  have hle := (hmax (cells.map Value.number) 0).2 _ (List.mem_map_of_mem h)
  exact Int.lt_add_one_of_le hle

section
variable {t : SqlTable} {username : Str} {seed : Seed}

theorem valueOf_id (ht : IsUserTable t) (values : List (Str × Value)) :
    ∃ n : Int, t.valueOf values "id".toList = .integer n ∧
      ∀ c ∈ t.columns.get? "id".toList, Value.integer n ∉ c.cells := by
  refine ⟨_, by rw [SqlTable.valueOf, if_pos ht.primaryKey], fun c hc hm => ?_⟩
  have hlt := number_lt_nextId hm
  rw [hc] at hlt
  exact absurd hlt (lt_irrefl _)

theorem valueOf_adminRow (ht : IsUserTable t) {x : Str} (hx : x ≠ "id".toList) :
    t.valueOf (adminRow username seed) x =
      (((adminRow username seed).find? fun v => v.1 = x).map Prod.snd).getD .null := by
  rw [SqlTable.valueOf, ht.primaryKey, if_neg]
  exact fun e => hx (List.singleton_inj.mp e).symm

theorem columns_adminRow : ∀ v ∈ adminRow username seed, v.1 ∈ userColumns := by
  have hall : ∀ x ∈ (adminRow username seed).map Prod.fst, x ∈ userColumns := by
    change ∀ x ∈ ["username".toList, "display_name".toList, "role".toList, "provider".toList,
      "is_active".toList, "password_hash".toList, "created_at".toList, "updated_at".toList,
      "last_login_at".toList], x ∈ userColumns
    decide
  exact fun v hv => hall _ (List.mem_map_of_mem hv)

theorem hasRow_users {d : Tables} (hg : d.get? userTable = some t) (ht : IsUserTable t) :
    d.hasRow userTable userColumns localAdmin = .ok (decide (0 < rowCount t localAdmin)) := by
  have hfind : (userColumns.find? fun name => name ∉ t.columns.keys) = none :=
    List.find?_eq_none.mpr fun x hx => by simpa using (ht.keys x).mpr hx
  rw [Tables.hasRow, hg]
  dsimp only
  rw [hfind]
  simp only [hasRow_iff]

/-- The one value that may be taken is the name. -/
theorem taken_iff (ht : IsUserTable t) {x : Str} :
    t.Taken x (t.valueOf (adminRow username seed) x) ↔
      x = "username".toList ∧ Named t username := by
  constructor
  · rintro ⟨hu, -, c, hc, hm⟩
    rcases hu with hpk | ⟨i, hi, rfl, -⟩
    · rw [ht.primaryKey] at hpk
      obtain rfl := List.singleton_inj.mp hpk
      obtain ⟨n, hn, hfresh⟩ := valueOf_id ht (adminRow username seed)
      rw [hn] at hm
      exact absurd hm (hfresh c hc)
    · rw [ht.indexes, List.mem_singleton] at hi
      subst hi
      refine ⟨rfl, c, hc, ?_⟩
      rw [valueOf_adminRow ht (by decide)] at hm
      exact hm
  · rintro ⟨rfl, c, hc, hm⟩
    have hval : t.valueOf (adminRow username seed) "username".toList = .text username := by
      rw [valueOf_adminRow ht (by decide)]
      rfl
    rw [hval]
    refine ⟨.inr ⟨unique "username", ?_, rfl, rfl⟩, Value.noConfusion, c, hc, hm⟩
    rw [ht.indexes]
    exact List.mem_singleton_self _

theorem value_adminRow : ∀ x ∈ userColumns, x ≠ "id".toList → x ≠ "last_login_at".toList →
    (((adminRow username seed).find? fun v => v.1 = x).map Prod.snd).getD .null ≠ .null := by
  have hcols : userColumns = ["username".toList, "display_name".toList, "role".toList,
    "provider".toList, "is_active".toList, "id".toList, "password_hash".toList,
    "created_at".toList, "updated_at".toList, "last_login_at".toList] := rfl
  intro x hx hid hlast
  rw [hcols] at hx
  simp only [List.mem_cons, List.not_mem_nil, or_false] at hx
  rcases hx with rfl | rfl | rfl | rfl | rfl | rfl | rfl | rfl | rfl | rfl
  case inr.inr.inr.inr.inr.inl => exact absurd rfl hid
  case inr.inr.inr.inr.inr.inr.inr.inr.inr => exact absurd rfl hlast
  all_goals exact fun h => Value.noConfusion h

theorem known_adminRow (ht : IsUserTable t) :
    ((adminRow username seed).find? fun v => v.1 ∉ t.columns.keys) = none :=
  List.find?_eq_none.mpr fun v hv => by
    simpa using (ht.keys v.1).mpr (columns_adminRow v hv)

/-- An `IntegrityError`. -/
theorem insert_taken (ht : IsUserTable t) (h : Named t username) :
    t.insert (adminRow username seed) = .error (.uniqueFailed "username".toList) := by
  have hfind : (t.columns.keys.find? fun name =>
      t.Taken name (t.valueOf (adminRow username seed) name)) = some "username".toList := by
    cases hf : t.columns.keys.find? fun name =>
        t.Taken name (t.valueOf (adminRow username seed) name) with
    | none =>
      have hkey := (ht.keys "username".toList).mpr (by decide)
      exact absurd (decide_eq_true ((taken_iff ht).mpr ⟨rfl, h⟩))
        (List.find?_eq_none.mp hf _ hkey)
    | some x =>
      have hx := List.find?_some hf
      obtain ⟨rfl, -⟩ := (taken_iff ht).mp (of_decide_eq_true hx)
      rfl
  unfold SqlTable.insert
  rw [known_adminRow ht]
  dsimp only
  rw [hfind]

theorem insert_free (ht : IsUserTable t) (h : ¬ Named t username) (seed : Seed) :
    ∃ t', t.insert (adminRow username seed) = .ok t' ∧
      Extended t t' (t.valueOf (adminRow username seed)) := by
  have hfind : (t.columns.keys.find? fun name =>
      t.Taken name (t.valueOf (adminRow username seed) name)) = none :=
    List.find?_eq_none.mpr fun x _ hx => h ((taken_iff ht).mp (of_decide_eq_true hx)).2
  have hnull : ∀ p ∈ t.columns.items, ¬ (p.2.notNull = true ∧
      t.valueOf (adminRow username seed) p.1 = .null) := by
    rintro ⟨x, c⟩ hp ⟨hn, hv⟩
    have hget := Dict.mem_items.mp hp
    have hx := (ht.keys x).mp (Dict.mem_keys_of_get? hget)
    by_cases hid : x = "id".toList
    · obtain ⟨n, hval, -⟩ := valueOf_id ht (adminRow username seed)
      rw [hid, hval] at hv
      cases hv
    · rw [valueOf_adminRow ht hid] at hv
      refine value_adminRow x hx hid (fun hlast => ?_) hv
      rw [ht.lastLogin c (hlast ▸ hget)] at hn
      cases hn
  unfold SqlTable.insert
  rw [known_adminRow ht]
  dsimp only
  rw [hfind]
  dsimp only
  split
  · rename_i p hp
    have := List.find?_some hp
    exact absurd (of_decide_eq_true this) (hnull p (List.mem_of_find?_eq_some hp))
  · exact ⟨_, rfl, extended_extend _⟩

/-- The values that `ensure_default_admin` looks for. -/
theorem localAdmin_adminRow (ht : IsUserTable t) : ∀ v ∈ localAdmin, v.1 ∈ t.columns.keys ∧
    t.valueOf (adminRow username seed) v.1 = v.2 := by
  intro v hv
  simp only [localAdmin, List.mem_cons, List.not_mem_nil, or_false] at hv
  rcases hv with rfl | rfl
  · exact ⟨(ht.keys _).mpr (by decide), (valueOf_adminRow ht (by decide)).trans rfl⟩
  · exact ⟨(ht.keys _).mpr (by decide), (valueOf_adminRow ht (by decide)).trans rfl⟩

theorem Extended.isUserTable {t' : SqlTable} {value : Str → Value} (h : Extended t t' value)
    (ht : IsUserTable t) : IsUserTable t' where
  keys x := by
    rw [← ht.keys x, ← not_iff_not, ← Dict.get?_eq_none, ← Dict.get?_eq_none]
    rcases h.column x with ⟨hn, hn'⟩ | ⟨c, c', hc, hc', -⟩
    · rw [hn, hn']
    · rw [hc, hc']
      exact iff_of_false (Option.some_ne_none _) (Option.some_ne_none _)
  lastLogin c' hc' := by
    rcases h.column "last_login_at".toList with ⟨-, hn'⟩ | ⟨c, c₁, hc, hc₁, -, hnull⟩
    · cases hn'.symm.trans hc'
    · cases hc₁.symm.trans hc'
      exact hnull.trans (ht.lastLogin c hc)
  primaryKey := h.primaryKey.trans ht.primaryKey
  indexes := h.indexes.trans ht.indexes

theorem Extended.named {t' : SqlTable} (ht : IsUserTable t)
    (h : Extended t t' (t.valueOf (adminRow username seed))) : Named t' username := by
  have hval : t.valueOf (adminRow username seed) "username".toList = .text username :=
    (valueOf_adminRow ht (by decide)).trans rfl
  rcases h.column "username".toList with ⟨hn, -⟩ | ⟨c, c', -, hc', hcells, -⟩
  · exact absurd ((ht.keys _).mpr (by decide)) (Dict.get?_eq_none.mp hn)
  · refine ⟨c', hc', ?_⟩
    rw [hcells, hval]
    exact List.mem_append_right _ (List.mem_singleton_self _)

end

end MailserverUi.L3.Seeding
