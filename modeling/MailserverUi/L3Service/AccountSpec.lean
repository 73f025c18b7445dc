import MailserverUi.L3Service.UserService

/-!
# What the account services answer and change

The services are looked at through the rows: `roleOf` is the effective role of
an account, `IsAdmin` an active account whose effective role is admin, and
`LastAdmin` the only one. One lemma for each function says what a session that
starts at committed rows answers, and what it commits.

* `run_isLastAdmin`: where `is_last_admin` answers no, there is another
  administrator, or the account is none.
* `run_setActive`, `run_setPassword`, `run_deleteUser`, `run_createLocalUser`,
  `run_upsertOidcUser`: the committed rows afterwards.
-/
namespace MailserverUi.L3.AccountSpec

open Py L2.Errors L2.Database Auth GroupService UserService

/-! ## Roles -/

section
variable (d : Db)

/-- The roles that the groups of an account grant. -/
def granted (userId : Int) : List Str :=
  (d.links.filter fun l => l.1 = userId).flatMap fun l =>
    (d.groups.rows.filter fun g => g.id = l.2).map GroupRow.role

def roleOf (u : UserRow) : Role := highestRole (u.role :: granted d u.id)

def sessionUser (u : UserRow) : SessionUser :=
  ⟨u.username, if u.displayName ≠ [] then u.displayName else u.username, roleOf d u,
    if u.provider = "oidc".toList then .oidc else .local⟩

/-- An active account whose effective role is admin. -/
structure IsAdmin (u : UserRow) : Prop where
  mem : u ∈ d.users
  active : u.isActive = true
  role : roleOf d u = .admin

/-- The only one. -/
structure LastAdmin (u : UserRow) : Prop where
  active : u.isActive = true
  role : roleOf d u = .admin
  only : ∀ v, IsAdmin d v → v.id = u.id

variable {d}

theorem mem_granted {userId : Int} {role : Str} :
    role ∈ granted d userId ↔
      ∃ groupId, (userId, groupId) ∈ d.links ∧ ∃ g ∈ d.groups, g.id = groupId ∧ g.role = role := by
  simp only [granted, List.mem_flatMap, List.mem_filter, decide_eq_true_eq, List.mem_map,
    Table.mem_rows, Prod.exists]
  constructor
  · rintro ⟨u, n, ⟨hl, rfl⟩, g, ⟨hg, he⟩, hr⟩
    exact ⟨n, hl, g, hg, he, hr⟩
  · rintro ⟨n, hl, g, hg, he, hr⟩
    exact ⟨userId, n, ⟨hl, rfl⟩, g, ⟨hg, he⟩, hr⟩

/-- Selecting the roles of several accounts at once is selecting each one's. -/
theorem rolesOf_grantedRoles {userIds : List Int} {n : Int} (h : n ∈ userIds) :
    rolesOf (d.grantedRoles userIds) n = granted d n := by
  unfold rolesOf Db.grantedRoles granted
  induction d.links with
  | nil => rfl
  | cons l links ih =>
    by_cases hn : l.1 = n
    · subst hn
      rw [List.filter_cons_of_pos (by simpa using h), List.filter_cons_of_pos (by simp),
        List.flatMap_cons, List.flatMap_cons, List.filter_append, List.map_append, ih]
      simp [List.filter_map, Function.comp_def]
    · by_cases hm : l.1 ∈ userIds
      · rw [List.filter_cons_of_pos (by simpa using hm), List.filter_cons_of_neg (by simpa using hn),
          List.flatMap_cons, List.filter_append, List.map_append, ih]
        simp [List.filter_map, Function.comp_def, hn]
      · rw [List.filter_cons_of_neg (by simpa using hm), List.filter_cons_of_neg (by simpa using hn),
          ih]

theorem mem_savedIds {us : List UserRow} {u : UserRow} (h : u ∈ us) (hp : u.id ≠ 0) :
    u.id ∈ savedIds us :=
  List.mem_filter.mpr ⟨List.mem_map_of_mem h, by simpa using hp⟩

theorem roleOf_eq {us : List UserRow} {u : UserRow} (h : u ∈ us) (hp : u.id ≠ 0) :
    highestRole (u.role :: rolesOf (d.grantedRoles (savedIds us)) u.id) = roleOf d u := by
  rw [rolesOf_grantedRoles (mem_savedIds h hp), roleOf]

theorem id_ne_zero {u : UserRow} (h : u ∈ d.users) : u.id ≠ 0 := (d.users.pos u h).ne'

end

/-! ## Queries -/

/-- One statement that writes. -/
theorem run_write {c : Sql} (h : c.kind = .write) (t : Tx Db) :
    (execute c).run sqlite t = (.ok (c.exec t.view).1, ⟨t.committed, some (c.exec t.view).2⟩) :=
  congrArg (Prod.mk _) (Machine.inTx_write h)

theorem session_of_run {α : Type} {q : Query α} {d : Db} {r : Except ApiError α} {t : Tx Db}
    (h : q.run sqlite ⟨d, none⟩ = (r, t)) : session q d = (r, t.committed) := by
  unfold session
  rw [h]

section
variable (t : Tx Db)

theorem run_getGrantedRoles (userIds : List Int) :
    (getGrantedRoles userIds).run sqlite t = (.ok (t.view.grantedRoles userIds), t) := by
  unfold getGrantedRoles
  split
  · rename_i h
    subst h
    simp [Prog.run, Db.grantedRoles]
  · rfl

theorem run_resolveRole {u : UserRow} (h : u.id ≠ 0) :
    (resolveRole u).run sqlite t = (.ok (roleOf t.view u), t) := by
  rw [resolveRole, Prog.run_bind, run_getGrantedRoles]
  exact congrArg (fun r => (Except.ok r, t)) (roleOf_eq (List.mem_singleton_self u) h)

theorem run_toSessionUser {u : UserRow} (h : u.id ≠ 0) :
    (toSessionUser u).run sqlite t = (.ok (sessionUser t.view u), t) := by
  rw [toSessionUser, Prog.run_bind, run_resolveRole t h]
  rfl

theorem run_ofOption {α : Type} (e : ApiError) (o : Option α) :
    (Prog.ofOption e o : Query α).run sqlite t = (o.elim (.error e) .ok, t) := by
  cases o <;> rfl

/-- The answer is that of the rows, unless a row is too long for its model. -/
theorem run_toPublic {u : UserRow} (h : u.id ≠ 0) :
    ∃ r, (toPublic u).run sqlite t = (r, t) := by
  rw [toPublic, Prog.run_bind, run_resolveRole t h]
  exact ⟨_, run_ofOption t _ _⟩

theorem mapM_publicOf {us : List UserRow} {f : UserRow → Role} {ps : List UserPublic}
    (h : us.mapM (fun u => publicOf u (f u)) = some ps) :
    ps = us.map fun u => .ofRow u (f u) := by
  induction us generalizing ps with
  | nil => cases h; rfl
  | cons u us ih =>
    simp only [List.mapM_cons, Option.bind_eq_bind, Option.bind_eq_some_iff, Option.pure_def,
      Option.some.injEq] at h
    obtain ⟨p, hp, ps', hps, rfl⟩ := h
    unfold publicOf at hp
    split at hp
    · cases hp
      rw [List.map_cons, ih hps]
    · cases hp

theorem run_toPublicMany {us : List UserRow} (h : ∀ u ∈ us, u.id ≠ 0) :
    ∃ r, (toPublicMany us).run sqlite t = (r, t) ∧
      ∀ ps, r = .ok ps → ps = us.map fun u => .ofRow u (roleOf t.view u) := by
  rw [toPublicMany, Prog.run_bind, run_getGrantedRoles]
  refine ⟨_, run_ofOption t _ _, fun ps hps => ?_⟩
  have hmap : us.mapM (fun u => publicOf u (highestRole
      (u.role :: rolesOf (t.view.grantedRoles (savedIds us)) u.id))) = some ps := by
    cases ho : us.mapM fun u => publicOf u (highestRole
      (u.role :: rolesOf (t.view.grantedRoles (savedIds us)) u.id)) with
    | none => rw [ho] at hps; cases hps
    | some ps' => rw [ho] at hps; cases hps; rfl
  rw [mapM_publicOf hmap]
  exact List.map_congr_left fun u hu => by rw [roleOf_eq hu (h u hu)]

/-- The loaded row is the one in the table. -/
theorem asLoaded_eq {d : Db} {u : UserRow} (hu : u ∈ d.users) {rows : List UserRow}
    (h : ∀ r ∈ rows, r ∈ d.users) : asLoaded u rows = rows := by
  unfold asLoaded
  calc rows.map (fun r => if r.id = u.id then u else r) = rows.map id := by
        refine List.map_congr_left fun r hr => ?_
        split
        · exact (Table.eq_of_id (h r hr) hu ‹_›).symm
        · rfl
    _ = rows := List.map_id rows

/-- Of two administrators listed, one has another id. -/
theorem exists_second {rows : List UserRow} (hnd : (rows.map UserRow.id).Nodup)
    {role : UserRow → Role} (n : Int)
    (h : 1 < ((rows.map fun v => UserPublic.ofRow v (role v)).filter fun p =>
      p.effectiveRole = .admin ∧ p.isActive = true).length) :
    ∃ v ∈ rows, v.isActive = true ∧ role v = .admin ∧ v.id ≠ n := by
  by_contra hn
  simp only [not_exists, not_and, not_not] at hn
  rw [List.filter_map, List.length_map] at h
  generalize hl : rows.filter _ = l at h
  have hnd : (l.map UserRow.id).Nodup := by
    rw [← hl]
    exact (List.filter_sublist.map _).nodup hnd
  have hsub : l.map UserRow.id ⊆ [n] := by
    intro m hm
    obtain ⟨v, hv, rfl⟩ := List.mem_map.mp hm
    rw [← hl, List.mem_filter] at hv
    obtain ⟨hv, hp⟩ := hv
    simp only [Function.comp_apply, UserPublic.ofRow, decide_eq_true_eq] at hp
    exact List.mem_singleton.mpr (hn v hv hp.2 hp.1)
  have := (hnd.subperm hsub).length_le
  simp only [List.length_map, List.length_singleton] at this
  omega

/-- Of two administrators of the table, in any order, one is not `u`. -/
theorem exists_other {d : Db} {u : UserRow} {rows : List UserRow} (hperm : rows.Perm d.users.rows)
    (h : 1 < ((rows.map fun v => UserPublic.ofRow v (roleOf d v)).filter fun p =>
      p.effectiveRole = .admin ∧ p.isActive = true).length) :
    ∃ v, IsAdmin d v ∧ v.id ≠ u.id := by
  have hnd : (rows.map UserRow.id).Nodup := (hperm.map _).nodup_iff.mpr d.users.ids
  obtain ⟨v, hv, hact, hrole, hne⟩ := exists_second hnd u.id h
  exact ⟨v, ⟨hperm.subset hv, hact, hrole⟩, hne⟩

/-- **The check.** `is_last_admin` changes nothing, and where it answers no, it is
right. -/
theorem run_isLastAdmin {u : UserRow} (hu : u ∈ t.view.users) :
    ∃ r, (isLastAdmin u).run sqlite t = (r, t) ∧ (r = .ok false → ¬ LastAdmin t.view u) := by
  unfold isLastAdmin
  by_cases ha : u.isActive = false
  · rw [if_pos ha]
    exact ⟨_, rfl, fun _ h => by rw [h.active] at ha; cases ha⟩
  · rw [if_neg ha, Prog.run_bind, run_resolveRole t (id_ne_zero hu)]
    by_cases hr : roleOf t.view u ≠ .admin
    · simp only [if_pos hr]
      exact ⟨_, rfl, fun _ h => hr h.role⟩
    · -- the account is an administrator: the answer is no when two are listed
      simp only [if_neg hr]
      generalize hs : t.view.users.rows.insertionSort (fun u v => u.username ≤ v.username) = rows
      have hperm : rows.Perm t.view.users.rows := hs ▸ List.perm_insertionSort _ _
      have hrows : ∀ r ∈ rows, r ∈ t.view.users := fun r hr => hperm.subset hr
      have hlist : listUsers.run sqlite t = (.ok rows, t) := by rw [← hs]; rfl
      obtain ⟨r, hrun, hps⟩ := run_toPublicMany t fun r hr => id_ne_zero (hrows r hr)
      rw [Prog.run_bind, hlist]
      simp only [asLoaded_eq hu hrows]
      rw [Prog.run_bind, hrun]
      cases r with
      | error e => exact ⟨_, rfl, fun h => by cases h⟩
      | ok ps =>
        refine ⟨_, rfl, fun h hlast => ?_⟩
        obtain ⟨v, hv, hne⟩ := exists_other (u := u) hperm (by
          rw [← hps ps rfl]
          simpa using h)
        exact hne (hlast.only v hv)

end

/-! ## Rows that are written -/

section
variable {d : Db}

theorem mem_updateUser {id : Int} {set : UserSet} {v : UserRow} :
    v ∈ (d.updateUser id set).users ↔ ∃ u ∈ d.users, v = if u.id = id then set.on u else u :=
  d.mem_setUsers

theorem find_updateUser {u : UserRow} (hu : u ∈ d.users) (set : UserSet) :
    (d.updateUser u.id set).users.find u.id = some (set.on u) :=
  Table.find_eq_some.mpr ⟨mem_updateUser.mpr ⟨u, hu, (if_pos rfl).symm⟩, rfl⟩

theorem on_nil (u : UserRow) : UserSet.on {} u = u := by
  cases u with
  | mk id username displayName role provider isActive passwordHash born =>
    cases passwordHash <;> rfl

theorem updateUser_nil (d : Db) (id : Int) : d.updateUser id {} = d := by
  have hrows : Table.changed UserRow.id id (UserSet.on {}) d.users.rows = d.users.rows := by
    unfold Table.changed
    simp only [on_nil, ite_self, List.map_id']
  cases d with
  | mk users groups links pats born h₁ h₂ h₃ =>
    cases users
    simp only [Db.updateUser, Db.setUsers, Table.update] at hrows ⊢
    simp only [hrows]

/-- A new account is there, next to the ones that were. -/
theorem insertUser_spec {username displayName role provider : Str} {hash : Option Str}
    {u : UserRow} {d' : Db}
    (h : d.insertUser username displayName role provider hash = some (u, d')) :
    u = d.newUser username displayName role provider hash ∧
      (∀ v, v ∈ d'.users ↔ v ∈ d.users ∨ v = u) ∧ d'.groups = d.groups ∧ d'.links = d.links := by
  unfold Db.insertUser at h
  simp only at h
  split at h
  · cases h
  · rename_i t ht
    cases h
    exact ⟨rfl, fun v => Table.mem_insert ht, rfl, rfl⟩

/-- The ghost counter moves on. -/
theorem born_insertUser {username displayName role provider : Str} {hash : Option Str}
    {u : UserRow} {d' : Db}
    (h : d.insertUser username displayName role provider hash = some (u, d')) :
    d'.born = d.born + 1 := by
  unfold Db.insertUser at h
  simp only at h
  split at h
  · cases h
  · cases h
    rfl

theorem pats_insertUser {username displayName role provider : Str} {hash : Option Str}
    {u : UserRow} {d' : Db}
    (h : d.insertUser username displayName role provider hash = some (u, d')) :
    d'.pats = d.pats := by
  unfold Db.insertUser at h
  simp only at h
  split at h
  · cases h
  · cases h
    rfl

theorem insertUser_eq_none {username displayName role provider : Str} {hash : Option Str} :
    d.insertUser username displayName role provider hash = none ↔
      ∃ v ∈ d.users, v.username = username := by
  have := Table.insert_nextId (t := d.users)
    (r := d.newUser username displayName role provider hash) rfl
  unfold Db.insertUser
  simp only
  split
  · rename_i h
    exact iff_of_true rfl (this.mp h)
  · rename_i t h
    rw [h] at this
    simpa [Db.newUser] using this

end

/-! ## Accounts -/

section
variable (t : Tx Db)

theorem run_refresh (id : Int) :
    (refresh id).run sqlite t = ((t.view.users.find id).elim (.error .internal) .ok, t) := by
  rw [refresh, Prog.run_bind]
  exact run_ofOption t _ _

theorem run_refresh_some {id : Int} {u : UserRow} (h : t.view.users.find id = some u) :
    (refresh id).run sqlite t = (.ok u, t) := by
  rw [run_refresh, h]
  rfl

theorem run_save (id : Int) (set : UserSet) :
    (save id set).run sqlite t =
      if (t.view.users.find id).isSome = false then
        (.error .internal, ⟨t.committed, some (t.view.updateUser id set)⟩)
      else (.ok (), ⟨t.view.updateUser id set, none⟩) := by
  rw [save, Prog.run_bind]
  change (Prog.raiseIf _ _ >>= _).run sqlite ⟨t.committed, some (t.view.updateUser id set)⟩ = _
  rw [Prog.run_raiseIf_bind]
  rfl

end

section
variable (d : Db)

theorem run_save_mem {u : UserRow} (hu : u ∈ d.users) (set : UserSet) :
    (save u.id set).run sqlite ⟨d, none⟩ = (.ok (), ⟨d.updateUser u.id set, none⟩) := by
  have hf : d.users.find u.id = some u := Table.find_eq_some.mpr ⟨hu, rfl⟩
  rw [run_save]
  change (if (d.users.find u.id).isSome = false then _ else _) = _
  rw [hf]
  rfl

theorem run_insertUser {username displayName role provider : Str} {hash : Option Str}
    {r : Option (UserRow × Db)} (h : d.insertUser username displayName role provider hash = r) :
    (execute (.insertUser username displayName role provider hash)).run sqlite ⟨d, none⟩ =
      (.ok (r.map Prod.fst), ⟨d, some ((r.map Prod.snd).getD d)⟩) := by
  have hexec : (Sql.insertUser username displayName role provider hash).exec d =
      (r.map Prod.fst, (r.map Prod.snd).getD d) := by
    subst h
    simp only [Sql.exec]
    cases d.insertUser username displayName role provider hash <;> rfl
  have hrun : (execute (.insertUser username displayName role provider hash)).run sqlite ⟨d, none⟩ =
      (.ok ((Sql.insertUser username displayName role provider hash).exec d).1,
        ⟨d, some ((Sql.insertUser username displayName role provider hash).exec d).2⟩) := rfl
  rw [hrun, hexec]

/-- A new account, or nothing where the username is taken. -/
theorem run_saveNew (username displayName role provider : Str) (hash : Option Str) :
    (∃ w, d.insertUser username displayName role provider hash = none ∧
      (saveNew username displayName role provider hash).run sqlite ⟨d, none⟩ =
        (.error .internal, ⟨d, w⟩)) ∨
    ∃ u d', d.insertUser username displayName role provider hash = some (u, d') ∧
      (saveNew username displayName role provider hash).run sqlite ⟨d, none⟩ =
        (.ok u, ⟨d', none⟩) := by
  rw [saveNew, Prog.run_bind]
  cases h : d.insertUser username displayName role provider hash with
  | none =>
    rw [run_insertUser d h]
    exact .inl ⟨some d, rfl, rfl⟩
  | some p =>
    obtain ⟨u, d'⟩ := p
    have hu : d'.users.find u.id = some u :=
      Table.find_eq_some.mpr ⟨((insertUser_spec h).2.1 u).mpr (.inr rfl), rfl⟩
    rw [run_insertUser d h]
    exact .inr ⟨u, d', rfl, run_refresh_some ⟨d', none⟩ hu⟩

/-- What `create_user` commits. -/
theorem run_createLocalUser (username displayName : Str) (hash : Option Str) :
    (∃ e w, (createLocalUser username displayName hash).run sqlite ⟨d, none⟩ =
        (.error e, ⟨d, w⟩)) ∨
    ∃ h u d', hash = some h ∧ strip username ≠ [] ∧
      d.insertUser (strip username) (strip displayName) "guest".toList "local".toList (some h) =
        some (u, d') ∧
      (createLocalUser username displayName hash).run sqlite ⟨d, none⟩ = (.ok u, ⟨d', none⟩) := by
  have hget : (getByUsername (strip username)).run sqlite ⟨d, none⟩ =
      (.ok (d.users.findKey (strip username)), ⟨d, none⟩) := rfl
  rw [createLocalUser]
  simp only [Prog.run_raiseIf_bind]
  split
  · exact .inl ⟨_, _, rfl⟩
  · rename_i hne
    rw [Prog.run_bind, hget]
    simp only [Prog.run_raiseIf_bind]
    split
    · exact .inl ⟨_, _, rfl⟩
    · cases hash with
      | none => exact .inl ⟨_, _, rfl⟩
      | some h =>
        rcases run_saveNew d (strip username) (strip displayName) "guest".toList "local".toList
          (some h) with ⟨w, -, hr⟩ | ⟨u, d', hi, hr⟩
        · exact .inl ⟨_, w, hr⟩
        · exact .inr ⟨h, u, d', rfl, hne, hi, hr⟩

/-- What `set_active` commits: a deactivation leaves another administrator. -/
theorem run_setActive {u : UserRow} (hu : u ∈ d.users) (isActive : Bool) :
    let set : UserSet := { isActive := if u.isActive = isActive then none else some isActive }
    (∃ e, (setActive u isActive).run sqlite ⟨d, none⟩ = (.error e, ⟨d, none⟩)) ∨
    (isActive = false → ¬ LastAdmin d u) ∧
      (setActive u isActive).run sqlite ⟨d, none⟩ =
        (.ok (set.on u), ⟨d.updateUser u.id set, none⟩) := by
  intro set
  have hlocks : ∃ r, (locksOut u isActive).run sqlite ⟨d, none⟩ = (r, ⟨d, none⟩) ∧
      (r = .ok false → isActive = false → ¬ LastAdmin d u) := by
    cases isActive with
    | true => exact ⟨_, rfl, fun _ h => by cases h⟩
    | false =>
      obtain ⟨r, hr, hl⟩ := run_isLastAdmin ⟨d, none⟩ hu
      exact ⟨r, hr, fun e _ => hl e⟩
  obtain ⟨r, hr, hl⟩ := hlocks
  rw [setActive, Prog.run_bind, hr]
  cases r with
  | error e => exact .inl ⟨e, rfl⟩
  | ok last =>
    simp only [Prog.run_raiseIf_bind]
    cases last with
    | true => exact .inl ⟨_, rfl⟩
    | false =>
      refine .inr ⟨hl rfl, ?_⟩
      rw [if_neg Bool.false_ne_true, Prog.run_bind, run_save_mem d hu set]
      exact run_refresh_some _ (find_updateUser hu set)

/-- What `set_password` commits. -/
theorem run_setPassword {u : UserRow} (hu : u ∈ d.users) (hash : Str) :
    let set : UserSet := { passwordHash := some hash }
    (setPassword u (some hash)).run sqlite ⟨d, none⟩ =
      (.ok (set.on u), ⟨d.updateUser u.id set, none⟩) := by
  intro set
  change (save u.id set >>= fun _ => refresh u.id).run sqlite ⟨d, none⟩ = _
  rw [Prog.run_bind, run_save_mem d hu]
  exact run_refresh_some _ (find_updateUser hu set)

/-- What `delete_user` commits. -/
theorem run_deleteUser (u : UserRow) :
    (deleteUser u).run sqlite ⟨d, none⟩ =
      (.ok (), ⟨((d.deleteLinks fun l => l.1 = u.id).deletePats u.id).deleteUser u.id, none⟩) := rfl

/-- A local sign-in answers with an active account, and changes no row. -/
theorem run_authenticateLocal (verifyPassword : Str → Str → Bool) (username password : Str) :
    ∃ r, (authenticateLocal verifyPassword username password).run sqlite ⟨d, none⟩ =
        (r, ⟨d, none⟩) ∧
      ∀ p, r = .ok (some p) →
        ∃ u ∈ d.users, u.username = username ∧ u.isActive = true ∧ p = sessionUser d u := by
  have hget : (getByUsername username).run sqlite ⟨d, none⟩ =
      (.ok (d.users.findKey username), ⟨d, none⟩) := rfl
  rw [authenticateLocal, Prog.run_bind, hget]
  cases hf : d.users.findKey username with
  | none => exact ⟨_, rfl, fun p h => by cases h⟩
  | some u =>
    obtain ⟨hu, hn⟩ := Table.findKey_eq_some.mp hf
    simp only
    split
    · exact ⟨_, rfl, fun p h => by cases h⟩
    split
    · exact ⟨_, rfl, fun p h => by cases h⟩
    split
    · exact ⟨_, rfl, fun p h => by cases h⟩
    rename_i ha
    have htouch : (touchLogin u).run sqlite ⟨d, none⟩ = (.ok (), ⟨d, none⟩) := by
      rw [touchLogin, run_save_mem d hu, updateUser_nil]
    rw [Prog.run_bind, htouch]
    simp only
    rw [Prog.run_bind, run_toSessionUser _ (id_ne_zero hu)]
    refine ⟨_, rfl, fun p h => ?_⟩
    cases h
    exact ⟨u, hu, hn, by simpa using ha, rfl⟩

/-- What an OIDC sign-in sets on an account that is there. -/
def oidcSet (principal : SessionUser) : UserSet :=
  { displayName := some principal.displayName, role := some principal.role.str }

/-- An OIDC sign-in is refused, makes a new account, or refreshes one. -/
theorem run_upsertOidcUser (principal : SessionUser) :
    (∃ e w, (upsertOidcUser principal).run sqlite ⟨d, none⟩ = (.error e, ⟨d, w⟩)) ∨
    (∃ u d', d.insertUser principal.username principal.displayName principal.role.str
        "oidc".toList none = some (u, d') ∧
      (upsertOidcUser principal).run sqlite ⟨d, none⟩ = (.ok (sessionUser d' u), ⟨d', none⟩)) ∨
    ∃ u ∈ d.users, u.username = principal.username ∧ u.provider = "oidc".toList ∧
      u.isActive = true ∧
      (upsertOidcUser principal).run sqlite ⟨d, none⟩ =
        (.ok (sessionUser (d.updateUser u.id (oidcSet principal)) ((oidcSet principal).on u)),
          ⟨d.updateUser u.id (oidcSet principal), none⟩) := by
  have hget : (getByUsername principal.username).run sqlite ⟨d, none⟩ =
      (.ok (d.users.findKey principal.username), ⟨d, none⟩) := rfl
  rw [upsertOidcUser, Prog.run_bind, hget]
  cases hf : d.users.findKey principal.username with
  | none =>
    simp only
    rw [Prog.run_bind]
    rcases run_saveNew d principal.username principal.displayName principal.role.str "oidc".toList
      none with ⟨w, -, hr⟩ | ⟨u, d', hi, hr⟩
    · rw [hr]
      exact .inl ⟨_, w, rfl⟩
    · have hu : u ∈ d'.users := ((insertUser_spec hi).2.1 u).mpr (.inr rfl)
      rw [hr]
      simp only
      rw [run_toSessionUser _ (id_ne_zero hu)]
      exact .inr (.inl ⟨u, d', hi, rfl⟩)
  | some u =>
    obtain ⟨hu, hn⟩ := Table.findKey_eq_some.mp hf
    simp only [Prog.run_raiseIf_bind]
    split
    · exact .inl ⟨_, _, rfl⟩
    rename_i hp
    split
    · exact .inl ⟨_, _, rfl⟩
    rename_i ha
    have hon : (oidcSet principal).on u ∈ (d.updateUser u.id (oidcSet principal)).users :=
      mem_updateUser.mpr ⟨u, hu, (if_pos rfl).symm⟩
    refine .inr (.inr ⟨u, hu, hn, by simpa using hp, by simpa using ha, ?_⟩)
    change (save u.id (oidcSet principal) >>= _).run sqlite ⟨d, none⟩ = _
    rw [Prog.run_bind, run_save_mem d hu]
    simp only
    have hrefresh := run_refresh_some ⟨d.updateUser u.id (oidcSet principal), none⟩
      (find_updateUser hu (oidcSet principal))
    rw [Prog.run_bind, hrefresh]
    exact run_toSessionUser _ (id_ne_zero hon)

/-- The account that a presented token belongs to. -/
def accountOf (digest : Str → Str) (now : Int) (raw : Str) : Option UserRow :=
  if PatService.bare (strip raw) = [] then none
  else ((d.pats.findKey (digest (strip raw))).filter fun pat =>
    PatService.isExpired pat now = false).bind fun pat => d.users.find pat.userId

theorem mem_of_accountOf {digest : Str → Str} {now : Int} {raw : Str} {u : UserRow}
    (h : accountOf d digest now raw = some u) : u ∈ d.users := by
  unfold accountOf at h
  split at h
  · cases h
  · obtain ⟨pat, -, hu⟩ := Option.bind_eq_some_iff.mp h
    exact (Table.find_eq_some.mp hu).1

/-- The same tokens, up to their last use. -/
def Touched (t t' : Pats) : Prop :=
  t'.rows.map (fun p => { p with lastUsedAt := none }) =
    t.rows.map fun p => { p with lastUsedAt := none }

theorem touched_touchPat (id usedAt : Int) : Touched d.pats (d.touchPat id usedAt).pats :=
  Table.map_changed (f := fun p : PatRow => { p with lastUsedAt := some usedAt }) (fun _ => rfl)
    d.pats.rows

/-- A personal access token resolves to its account, and only its own last use
changes. -/
theorem run_authenticate (digest : Str → Str) (now : Int) (raw : Str) :
    ∃ pats, Touched d.pats pats ∧ (PatService.authenticate digest now raw).run sqlite ⟨d, none⟩ =
      (.ok (accountOf d digest now raw), ⟨{ d with pats := pats }, none⟩) := by
  have hpat (h : Str) : (execute (.patByHash h)).run sqlite ⟨d, none⟩ =
      (.ok (d.pats.findKey h), ⟨d, none⟩) := rfl
  have huser (n : Int) : (execute (.userById n)).run sqlite ⟨d, none⟩ =
      (.ok (d.users.find n), ⟨d, none⟩) := rfl
  unfold PatService.authenticate accountOf
  simp only
  split
  · exact ⟨d.pats, rfl, rfl⟩
  rw [Prog.run_bind, hpat]
  cases d.pats.findKey (digest (strip raw)) with
  | none => exact ⟨d.pats, rfl, rfl⟩
  | some pat =>
    cases he : PatService.isExpired pat now with
    | true =>
      simp only [he, if_true, Option.filter]
      exact ⟨d.pats, rfl, rfl⟩
    | false =>
      simp only [he, Bool.false_eq_true, if_false, Option.filter, decide_true, if_true,
        Option.bind_some]
      rw [Prog.run_bind, huser]
      cases d.users.find pat.userId with
      | none => exact ⟨d.pats, rfl, rfl⟩
      | some u =>
        simp only
        unfold PatService.touchLastUsed
        split
        · exact ⟨d.pats, rfl, rfl⟩
        · exact ⟨_, touched_touchPat d pat.id now, rfl⟩

end

/-! ## Groups -/

section
variable (d : Db)

theorem mem_updateGroup {id : Int} {name description role : Str} {d' : Db}
    (h : d.updateGroup id name description role = some d') :
    (∀ g, g ∈ d'.groups ↔ ∃ g' ∈ d.groups, g = if g'.id = id then
      { g' with name := name, description := description, role := role } else g') ∧
      d'.users = d.users ∧ d'.links = d.links := by
  obtain ⟨t, ht, rfl⟩ := Option.map_eq_some_iff.mp h
  exact ⟨fun g => Table.mem_modify ht, rfl, rfl⟩

theorem insertGroup_spec {name description role : Str} {g : GroupRow} {d' : Db}
    (h : d.insertGroup name description role = some (g, d')) :
    (∀ g', g' ∈ d'.groups ↔ g' ∈ d.groups ∨ g' = g) ∧ d'.users = d.users ∧ d'.links = d.links := by
  obtain ⟨t, ht, e⟩ := Option.map_eq_some_iff.mp h
  cases e
  exact ⟨fun g' => Table.mem_insert ht, rfl, rfl⟩

/-- What `create_group` commits. -/
theorem run_createGroup (name description role : Str) :
    (∃ e w, (createGroup name description role).run sqlite ⟨d, none⟩ = (.error e, ⟨d, w⟩)) ∨
    ∃ g d', d.insertGroup name description role = some (g, d') ∧
      (createGroup name description role).run sqlite ⟨d, none⟩ = (.ok g, ⟨d', none⟩) := by
  have hrun : (execute (.insertGroup name description role)).run sqlite ⟨d, none⟩ =
      (.ok ((Sql.insertGroup name description role).exec d).1,
        ⟨d, some ((Sql.insertGroup name description role).exec d).2⟩) := rfl
  rw [createGroup, Prog.run_bind, hrun]
  cases h : d.insertGroup name description role with
  | none =>
    refine .inl ⟨.internal, some d, ?_⟩
    simp only [Sql.exec, h]
    rfl
  | some p =>
    obtain ⟨g, d'⟩ := p
    have hg : d'.groups.find g.id = some g :=
      Table.find_eq_some.mpr ⟨((insertGroup_spec d h).1 g).mpr (.inr rfl), rfl⟩
    refine .inr ⟨g, d', rfl, ?_⟩
    simp only [Sql.exec, h]
    change (refreshGroup g.id).run sqlite ⟨d', none⟩ = _
    rw [refreshGroup, Prog.run_bind]
    change (Prog.ofOption _ (d'.groups.find g.id)).run sqlite ⟨d', none⟩ = _
    rw [hg]
    rfl

/-- What `update_group` commits. -/
theorem run_updateGroup {g : GroupRow} (hg : g ∈ d.groups) (name description role : Str) :
    (∃ e w, (updateGroup g (some name) (some description) (some role)).run sqlite ⟨d, none⟩ =
      (.error e, ⟨d, w⟩)) ∨
    ∃ d', d.updateGroup g.id name description role = some d' ∧
      ∃ r w, (updateGroup g (some name) (some description) (some role)).run sqlite ⟨d, none⟩ =
        (r, ⟨d', w⟩) := by
  have hf : d.groups.find g.id = some g := Table.find_eq_some.mpr ⟨hg, rfl⟩
  have hrun : (execute (.updateGroup g.id name description role)).run sqlite ⟨d, none⟩ =
      (.ok ((Sql.updateGroup g.id name description role).exec d).1,
        ⟨d, some ((Sql.updateGroup g.id name description role).exec d).2⟩) := rfl
  rw [updateGroup, Prog.run_bind]
  simp only [Option.getD_some]
  rw [hrun]
  cases h : d.updateGroup g.id name description role with
  | none =>
    refine .inl ⟨.internal, some d, ?_⟩
    simp only [Sql.exec, h]
    rfl
  | some d' =>
    refine .inr ⟨d', rfl, ?_⟩
    simp only [Sql.exec, h, hf]
    refine ⟨(d'.groups.find g.id).elim (.error .internal) .ok, none, ?_⟩
    change (refreshGroup g.id).run sqlite ⟨d', none⟩ = _
    rw [refreshGroup, Prog.run_bind]
    exact run_ofOption ⟨d', none⟩ _ _

theorem run_deleteGroup (g : GroupRow) :
    (deleteGroup g).run sqlite ⟨d, none⟩ =
      (.ok (), ⟨(d.deleteLinks fun l => l.2 = g.id).deleteGroup g.id, none⟩) := rfl

theorem run_addUserToGroup (groupId userId : Int) :
    (addUserToGroup groupId userId).run sqlite ⟨d, none⟩ =
      (.ok (), ⟨d.insertLink userId groupId, none⟩) := rfl

theorem run_removeUserFromGroup (groupId userId : Int) :
    (removeUserFromGroup groupId userId).run sqlite ⟨d, none⟩ =
      (.ok (), ⟨d.deleteLinks fun l => l = (userId, groupId), none⟩) := rfl

/-- The rows after a list of memberships. -/
def linked (groupId : Int) (userIds : List Int) : Db :=
  userIds.foldl (fun d userId => d.insertLink userId groupId) d

/-- Only memberships are added. -/
theorem linked_rows {d : Db} {groupId : Int} {userIds : List Int} :
    (linked d groupId userIds).born = d.born ∧ (linked d groupId userIds).users = d.users ∧
      (linked d groupId userIds).pats = d.pats := by
  unfold linked
  induction userIds generalizing d with
  | nil => exact ⟨rfl, rfl, rfl⟩
  | cons userId userIds ih =>
    obtain ⟨hb, hu, hp⟩ := ih (d := d.insertLink userId groupId)
    rw [List.foldl_cons, hb, hu, hp, Db.insertLink]
    split <;> exact ⟨rfl, rfl, rfl⟩

theorem run_insertLinks (groupId : Int) (userIds : List Int) (t : Tx Db) :
    ∃ w, (insertLinks groupId userIds).run sqlite t = (.ok (), w) ∧
      w.view = linked t.view groupId userIds := by
  induction userIds generalizing t with
  | nil => exact ⟨t, rfl, rfl⟩
  | cons userId userIds ih =>
    exact ih ⟨t.committed, some (t.view.insertLink userId groupId)⟩

theorem run_addUsersToGroup (groupId : Int) (userIds : List Int) :
    (addUsersToGroup groupId userIds).run sqlite ⟨d, none⟩ =
      (.ok (), ⟨linked d groupId userIds, none⟩) := by
  obtain ⟨w, hw, hv⟩ := run_insertLinks groupId userIds ⟨d, none⟩
  rw [addUsersToGroup, Prog.run_bind, hw]
  change ((.ok (), ⟨w.view, none⟩) : Except ApiError Unit × Tx Db) = _
  rw [hv]
  rfl

end

end MailserverUi.L3.AccountSpec
