import MailserverUi.Core.Stale
import MailserverUi.L3Service.AdminGrants
import MailserverUi.L4App.Instance
import MailserverUi.L4App.Statements

/-!
# Concurrent deactivations and deletions

`set_user_status` and `delete_user` load their target, ask `is_last_admin` and
write some statements later, and SQLite lets other sessions commit in between.
The check is stale once another request has committed a deactivation or a
deletion.

Results:
* `request_alone`: a request that no other interrupts is one session.
* `hasAdmin_exec`: a write whose target is not the last administrator keeps one.
* `checks_isLastAdmin`: where `is_last_admin` answers no, and nobody has been
  deactivated or deleted since its account was loaded, there is another administrator.
* `hasAdmin_of_fresh`: so every interleaving in which no request writes on a stale
  check keeps an administrator.
* `both_pass`: two administrators can deactivate each other.
-/
namespace MailserverUi.L5.AdminRace

open Py L2.Errors L2.Database L3 Auth GroupService UserService Oidc AccountSpec AdminGrants
open L4 Requests RequestsSpec Statements Instance

/-! ## What a request may issue -/

/-- The statements of a request that deactivates or deletes. -/
def Allowed : Sql → Prop
  | .updateUser _ set => set.role = none
  | .insertUser .. | .insertGroup .. | .updateGroup .. | .deleteGroup _ | .deleteMembers _
  | .insertLink .. | .deleteLink .. => False
  | _ => True

theorem Allowed.of_quiet {c : Sql} (h : Quiet c) : Allowed c := by
  cases c <;> trivial

theorem issues_execute {c : Sql} (h : Allowed c) : (execute c).Issues Allowed :=
  Prog.issues_request h

theorem issues_deleteUser (admin : SessionUser) (userId : Int) :
    (Requests.deleteUser admin userId).Issues Allowed := by
  refine Prog.issues_bind (issues_execute trivial) fun o => ?_
  refine Prog.issues_bind Prog.issues_ofOption fun u => ?_
  refine Prog.issues_bind Prog.issues_raiseIf fun _ => ?_
  refine Prog.issues_bind ((quiet_isLastAdmin u).mono fun _ => .of_quiet) fun last => ?_
  refine Prog.issues_bind Prog.issues_raiseIf fun _ => ?_
  refine Prog.issues_bind (issues_execute trivial) fun _ => ?_
  refine Prog.issues_bind (issues_execute trivial) fun _ => ?_
  exact Prog.issues_bind (issues_execute trivial) fun _ => issues_execute trivial

theorem issues_setUserStatus (admin : SessionUser) (userId : Int) (isActive : Bool) :
    (setUserStatus admin userId isActive).Issues Allowed := by
  refine Prog.issues_bind (issues_execute trivial) fun o => ?_
  refine Prog.issues_bind Prog.issues_ofOption fun u => ?_
  refine Prog.issues_bind Prog.issues_raiseIf fun _ => ?_
  refine Prog.issues_bind ?_ fun updated => (quiet_toPublic updated).mono fun _ => .of_quiet
  refine Prog.issues_bind ((quiet_locksOut u isActive).mono fun _ => .of_quiet) fun last => ?_
  refine Prog.issues_bind Prog.issues_raiseIf fun _ => ?_
  refine Prog.issues_bind ?_ fun _ => ?_
  · refine Prog.issues_bind (issues_execute rfl) fun found => ?_
    exact Prog.issues_bind Prog.issues_raiseIf fun _ => issues_execute trivial
  · exact Prog.issues_bind (issues_execute trivial) fun _ => Prog.issues_ofOption

/-! ## What a write keeps -/

/-- No account with this id is the last administrator. -/
def NotLast (d : Db) (id : Int) : Prop := ∀ u ∈ d.users.rows, u.id = id → ¬ LastAdmin d u

/-- A write that deactivates or deletes finds that its target is not the last
administrator. -/
def Timely : Sql → Db → Prop
  | .updateUser id set, d => set.isActive = some false → NotLast d id
  | .deleteMemberships id, d | .deleteUser id, d => NotLast d id
  | _, _ => True

instance (d : Db) (id : Int) : Decidable (NotLast d id) :=
  inferInstanceAs (Decidable (∀ u ∈ d.users.rows, _))

instance (c : Sql) (d : Db) : Decidable (Timely c d) := by
  unfold Timely
  split <;> infer_instance

section
variable {d : Db}

theorem NotLast.exists_grant {id : Int} (hn : NotLast d id) (h : HasAdmin d) :
    ∃ g, Has d g ∧ g.userId ≠ id := by
  by_cases hex : ∃ u ∈ d.users, u.id = id
  · obtain ⟨u, hu, rfl⟩ := hex
    exact exists_other hu h (hn u hu rfl)
  · obtain ⟨g, hg⟩ := hasAdmin_iff.mp h
    obtain ⟨u, hu, hid⟩ := hg.isAdmin
    exact ⟨g, hg, fun e => hex ⟨u, hu.mem, hid.trans e⟩⟩

/-- One statement. -/
theorem hasAdmin_exec {c : Sql} (ha : Allowed c) (ht : Timely c d) (h : HasAdmin d) :
    HasAdmin (c.exec d).2 := by
  cases c with
  | updateUser id set =>
    have hrole : ∀ g, g = Grant.own id → ∀ role, set.role = some role →
        normalizeRole role = .admin := by
      intro _ _ role hr
      rw [show set.role = none from ha] at hr
      cases hr
    by_cases hset : set.isActive = some false
    · obtain ⟨g, hg, hne⟩ := NotLast.exists_grant (ht hset) h
      exact hasAdmin_iff.mpr ⟨g, has_updateUser hg (fun e => absurd e hne) (hrole g)⟩
    · exact h.mono fun g hg => has_updateUser hg (fun _ => hset) (hrole g)
  | deleteUser id =>
    obtain ⟨g, hg, hne⟩ := NotLast.exists_grant ht h
    exact hasAdmin_iff.mpr ⟨g, has_deleteUser hg hne⟩
  | deleteMemberships id =>
    obtain ⟨g, hg, hne⟩ := NotLast.exists_grant ht h
    refine hasAdmin_iff.mpr ⟨g, has_deleteLinks hg fun n m he => ?_⟩
    subst he
    exact decide_eq_false hne
  | deletePats userId => exact h.mono fun g hg => has_deletePats hg
  | deletePat id => exact h.mono fun g hg => hg
  | insertPat =>
    rw [Sql.exec]
    split
    · rename_i hi
      obtain ⟨t, -, e⟩ := Option.map_eq_some_iff.mp hi
      cases e
      exact h.mono fun g hg => hg
    · exact h
  | touchPat id lastUsedAt => exact h.mono fun g hg => hg
  | insertUser | insertGroup | updateGroup | deleteGroup | deleteMembers | insertLink
  | deleteLink => exact ha.elim
  | _ => exact h

end

/-! ## What the check knows -/

/-- A statement that deactivates or deletes an account. -/
def removes : Sql → Bool
  | .updateUser _ set => set.isActive = some false
  | .deleteMemberships _ | .deleteUser _ => true
  | _ => false

/-- The rows `d'` come from `d` without a deactivation or a deletion. -/
structure Mild (d d' : Db) : Prop where
  users : ∃ f : UserRow → UserRow, d'.users.rows = d.users.rows.map f ∧
    ∀ u, (f u).id = u.id ∧ (f u).role = u.role ∧ (u.isActive = true → (f u).isActive = true)
  groups : d'.groups = d.groups
  links : d'.links = d.links

/-- Another account than `id` has a grant. -/
def Spare (id : Int) (d : Db) : Prop := ∃ g, Has d g ∧ g.userId ≠ id

/-- What a session knows of the rows from which it has loaded `u`. -/
structure Loaded (u : UserRow) (d : Db) : Prop where
  admin : HasAdmin d
  row : ∃ v ∈ d.users, v.id = u.id ∧ v.role = u.role
  inactive : u.isActive = false → Spare u.id d

section
variable {d d' d'' : Db}

theorem Mild.refl (d : Db) : Mild d d :=
  ⟨⟨id, (List.map_id _).symm, fun _ => ⟨rfl, rfl, fun h => h⟩⟩, rfl, rfl⟩

theorem Mild.trans (h : Mild d d') (h' : Mild d' d'') : Mild d d'' := by
  obtain ⟨f, hf, hkeep⟩ := h.users
  obtain ⟨f', hf', hkeep'⟩ := h'.users
  refine ⟨⟨f' ∘ f, ?_, fun u => ?_⟩, h'.groups.trans h.groups, h'.links.trans h.links⟩
  · rw [hf', hf, List.map_map]
  · obtain ⟨hid, hrole, hact⟩ := hkeep u
    obtain ⟨hid', hrole', hact'⟩ := hkeep' (f u)
    exact ⟨hid'.trans hid, hrole'.trans hrole, fun ha => hact' (hact ha)⟩

/-- An account is still there, with its role, and as active as it was. -/
theorem Mild.kept (h : Mild d d') {u : UserRow} (hu : u ∈ d.users) :
    ∃ v ∈ d'.users, v.id = u.id ∧ v.role = u.role ∧ (u.isActive = true → v.isActive = true) := by
  obtain ⟨f, hf, hkeep⟩ := h.users
  refine ⟨f u, ?_, hkeep u⟩
  rw [← Table.mem_rows, hf]
  exact List.mem_map_of_mem hu

theorem Mild.has (h : Mild d d') {g : Grant} (hg : Has d g) : Has d' g := by
  refine hg.mono_users (fun u hu _ => ?_) h.links h.groups
  obtain ⟨v, hv, hid, hrole, hact⟩ := h.kept hu
  exact ⟨v, hv, hid, hact, fun _ hr => hrole ▸ hr⟩

theorem Mild.hasAdmin (h : Mild d d') (hd : HasAdmin d) : HasAdmin d' :=
  hd.mono fun _ hg => h.has hg

theorem Mild.spare (h : Mild d d') {id : Int} (hs : Spare id d) : Spare id d' := by
  obtain ⟨g, hg, hne⟩ := hs
  exact ⟨g, h.has hg, hne⟩

theorem Mild.loaded (h : Mild d d') {u : UserRow} (hl : Loaded u d) : Loaded u d' := by
  obtain ⟨v, hv, hid, hrole⟩ := hl.row
  obtain ⟨w, hw, hid', hrole', -⟩ := h.kept hv
  exact ⟨h.hasAdmin hl.admin, ⟨w, hw, hid'.trans hid, hrole'.trans hrole⟩,
    fun ha => h.spare (hl.inactive ha)⟩

theorem mild_updateUser {id : Int} {set : UserSet} (hrole : set.role = none)
    (hact : set.isActive ≠ some false) : Mild d (d.updateUser id set) := by
  refine ⟨⟨fun u => if u.id = id then set.on u else u, rfl, fun u => ?_⟩, rfl, rfl⟩
  dsimp only
  split
  · refine ⟨rfl, by simp [UserSet.on, hrole], fun ha => ?_⟩
    cases hset : set.isActive with
    | none => simpa [UserSet.on, hset] using ha
    | some b =>
      cases b with
      | true => simp [UserSet.on, hset]
      | false => exact absurd hset hact
  · exact ⟨rfl, rfl, fun ha => ha⟩

/-- A statement that deactivates and deletes nothing. -/
theorem mild_exec {c : Sql} (ha : Allowed c) (hr : removes c = false) : Mild d (c.exec d).2 := by
  cases c with
  | updateUser id set => exact mild_updateUser ha (of_decide_eq_false hr)
  | deleteUser | deleteMemberships => cases hr
  | insertPat =>
    rw [Sql.exec]
    split
    · rename_i hi
      obtain ⟨t, -, e⟩ := Option.map_eq_some_iff.mp hi
      cases e
      exact ⟨(Mild.refl d).users, rfl, rfl⟩
    · exact Mild.refl d
  | insertUser | insertGroup | updateGroup | deleteGroup | deleteMembers | insertLink
  | deleteLink => exact ha.elim
  | _ => exact ⟨(Mild.refl d).users, rfl, rfl⟩

/-- A spare administrator is one that a last one does not have. -/
theorem Spare.notLast {id : Int} (h : Spare id d) : NotLast d id := by
  rintro u - rfl hlast
  obtain ⟨g, hg, hne⟩ := h
  obtain ⟨v, hv, hid⟩ := hg.isAdmin
  exact hne (hid ▸ hlast.only v hv)

/-- The account that is loaded. -/
theorem loaded_of_mem {u : UserRow} (hd : HasAdmin d) (hu : u ∈ d.users) : Loaded u d := by
  refine ⟨hd, ⟨u, hu, rfl, rfl⟩, fun ha => ?_⟩
  obtain ⟨g, hg⟩ := hasAdmin_iff.mp hd
  obtain ⟨v, hv, hid⟩ := hg.isAdmin
  refine ⟨g, hg, fun e => ?_⟩
  obtain rfl : v = u := Table.eq_of_id hv.mem hu (hid.trans e)
  rw [hv.active] at ha
  cases ha

/-- The administrator there is has another id than an account with another role. -/
theorem Loaded.spare {u : UserRow} (h : Loaded u d) (hr : roleOf d u ≠ .admin) :
    Spare u.id d := by
  obtain ⟨g, hg⟩ := hasAdmin_iff.mp h.admin
  refine ⟨g, hg, fun e => hr ?_⟩
  obtain ⟨v, hv, hid⟩ := hg.isAdmin
  obtain ⟨w, hw, hwid, hwrole⟩ := h.row
  obtain rfl : v = w := Table.eq_of_id hv.mem hw ((hid.trans e).trans hwid.symm)
  rw [roleOf, ← hwrole, ← hwid]
  exact hv.role

end

/-! ## The check -/

/-- What a request does between the statement that loads account `id` and its writes. -/
abbrev Checks {α : Type} (id : Int) (Q : α → Option Db → Option Db → Prop) (q : Query α) :
    Option Db → Option Db → Prop :=
  q.Checks statements Sql.kind HasAdmin Mild Timely (fun c => decide (c = .userById id)) removes Q

/-- The copy of the session is sound, and the rows it saw last meet `K`. -/
def Knows (K : Db → Prop) (w o : Option Db) : Prop := SoundCopy HasAdmin w ∧ Known K o

section
variable {id : Int} {K : Db → Prop} {w o : Option Db}

theorem removes_of_read {c : Sql} (hc : c.kind = .read) : removes c = false := by
  cases c <;> first | rfl | cases hc

/-- A query reads rows that meet what is known. -/
theorem checks_read {c : Sql} (hc : c.kind = .read)
    (hK : ∀ d d', K d → Mild d d' → K d') (h : Knows K w o) :
    Checks id (fun r => Knows (fun d => K d ∧ HasAdmin d ∧ r = (c.exec d).1)) (execute c) w o := by
  intro d hd hm
  have hcopy : copyAfter statements Sql.kind w c d = w := by rw [copyAfter, hc]
  have hstored : storedBy statements Sql.kind c d = d := by rw [storedBy, hc]
  refine ⟨fun hr => ?_, ?_, known_lastSeen (.inl h.2.isSome) ?_⟩
  · rw [removes_of_read hc] at hr
    cases hr
  · rw [hcopy]
    exact h.1
  · rw [hstored]
    exact ⟨h.2.now hm hK, h.1.of_sees hd, rfl⟩

theorem checks_getGrantedRoles {ids : List Int} (hne : ids ≠ [])
    (hK : ∀ d d', K d → Mild d d' → K d') (h : Knows K w o) :
    Checks id (fun r => Knows fun d => K d ∧ HasAdmin d ∧ r = d.grantedRoles ids)
      (getGrantedRoles ids) w o := by
  rw [getGrantedRoles, if_neg hne]
  exact checks_read rfl hK h

/-- What a session knows of the rows from which it has listed the accounts. -/
structure Listed (rows : List UserRow) (d : Db) : Prop where
  ids : (rows.map UserRow.id).Nodup
  pos : ∀ v ∈ rows, v.id ≠ 0
  nonempty : rows ≠ []
  kept : ∀ v ∈ rows, v.isActive = true →
    ∃ v' ∈ d.users, v'.id = v.id ∧ v'.role = v.role ∧ v'.isActive = true

theorem Mild.listed {d d' : Db} {rows : List UserRow} (h : Mild d d') (hl : Listed rows d) :
    Listed rows d' := by
  refine ⟨hl.ids, hl.pos, hl.nonempty, fun v hv ha => ?_⟩
  obtain ⟨v', hv', hid, hrole, hact⟩ := hl.kept v hv ha
  obtain ⟨w, hw, hwid, hwrole, hwact⟩ := h.kept hv'
  exact ⟨w, hw, hwid.trans hid, hwrole.trans hrole, hwact hact⟩

theorem listed_users {d : Db} (h : HasAdmin d) : Listed (Sql.users.exec d).1 d := by
  have hperm : (Sql.users.exec d).1.Perm d.users.rows := List.perm_insertionSort _ _
  have hmem : ∀ v ∈ (Sql.users.exec d).1, v ∈ d.users := fun v hv => hperm.subset hv
  refine ⟨(hperm.map _).nodup_iff.mpr d.users.ids, fun v hv => id_ne_zero (hmem v hv), ?_,
    fun v hv ha => ⟨v, hmem v hv, rfl, rfl, ha⟩⟩
  obtain ⟨u, hu⟩ := h
  exact List.ne_nil_of_mem (hperm.mem_iff.mpr hu.mem)

/-- Two active administrators among the rows as they are shown: one is not `u`. -/
theorem Listed.spare {d : Db} {rows : List UserRow} (h : Listed rows d) {u : UserRow}
    (hcount : 1 < (((asLoaded u rows).map fun v => UserPublic.ofRow v (roleOf d v)).filter fun p =>
      p.effectiveRole = .admin ∧ p.isActive = true).length) : Spare u.id d := by
  have hids : (asLoaded u rows).map UserRow.id = rows.map UserRow.id := by
    rw [asLoaded, List.map_map]
    refine List.map_congr_left fun r _ => ?_
    show (if r.id = u.id then u else r).id = r.id
    split
    · exact Eq.symm ‹_›
    · rfl
  obtain ⟨v, hv, hact, hrole, hne⟩ := exists_second (hids ▸ h.ids) u.id hcount
  have hv : v ∈ rows := by
    obtain ⟨r, hr, he⟩ := List.mem_map.mp hv
    by_cases hid : r.id = u.id
    · rw [if_pos hid] at he
      exact absurd (congrArg UserRow.id he).symm hne
    · rw [if_neg hid] at he
      exact he ▸ hr
  obtain ⟨v', hv', hid, hr, ha⟩ := h.kept v hv hact
  have hadmin : IsAdmin d v' := ⟨hv', ha, by rwa [roleOf, hid, hr]⟩
  obtain ⟨g, hg, hgid⟩ := IsAdmin.has hadmin
  exact ⟨g, hg, by rwa [hgid, hid]⟩

theorem checks_isLastAdmin {u : UserRow} (hid : u.id ≠ 0) (h : Knows (Loaded u) w o) :
    Checks id (fun last w o => last = false → Knows (Spare u.id) w o) (isLastAdmin u) w o := by
  have hmild : ∀ d d', Loaded u d → Mild d d' → Loaded u d' := fun d d' hl hm => hm.loaded hl
  unfold isLastAdmin
  by_cases ha : u.isActive = false
  · rw [if_pos ha]
    exact fun _ => ⟨h.1, h.2.mono fun d hl => hl.inactive ha⟩
  rw [if_neg ha]
  have hids : savedIds [u] ≠ [] := List.ne_nil_of_mem (mem_savedIds (List.mem_singleton_self u) hid)
  refine Prog.checks_bind (Prog.checks_bind (Prog.checks_mono
    (checks_getGrantedRoles hids hmild h) fun granted w o hk => ?_))
  -- the roles of the account, as the groups are now
  show Prog.Checks _ _ _ _ _ _ _ _ (if highestRole (u.role :: rolesOf granted u.id) ≠ .admin
    then (.pure false : Query Bool) else _) w o
  split
  · rename_i hr
    refine fun _ => ⟨hk.1, hk.2.mono fun d hd => hd.1.spare ?_⟩
    rwa [hd.2.2, roleOf_eq (List.mem_singleton_self u) hid] at hr
  -- the rows that are listed, and those of later on
  refine Prog.checks_bind (Prog.checks_mono (checks_read (c := .users) rfl
    (K := fun _ => True) (fun _ _ _ _ => trivial) ⟨hk.1, hk.2.mono fun _ _ => trivial⟩) ?_)
  intro rows w o hrows
  have hlisted : Knows (Listed rows) w o :=
    ⟨hrows.1, hrows.2.mono fun d hd => hd.2.2 ▸ listed_users hd.2.1⟩
  have hpos : ∀ v ∈ asLoaded u rows, v.id ≠ 0 := by
    intro v hv
    obtain ⟨r, hr, rfl⟩ := List.mem_map.mp hv
    split
    · exact hid
    · obtain ⟨d, -, hd⟩ := hlisted.2
      exact hd.pos r hr
  have hids : savedIds (asLoaded u rows) ≠ [] := by
    obtain ⟨d, -, hd⟩ := hlisted.2
    obtain ⟨v, hv⟩ := List.exists_mem_of_ne_nil _ (mt List.map_eq_nil_iff.mp hd.nonempty)
    exact List.ne_nil_of_mem (mem_savedIds hv (hpos v hv))
  refine Prog.checks_bind (Prog.checks_bind (Prog.checks_mono
    (checks_getGrantedRoles hids (fun d d' hl hm => hm.listed hl) hlisted) fun granted w o hk => ?_))
  -- the roles of all accounts, as the groups are then
  cases hps : (asLoaded u rows).mapM fun v =>
      publicOf v (highestRole (v.role :: rolesOf granted v.id)) with
  | none => trivial
  | some ps =>
    refine fun hlast => ⟨hk.1, hk.2.mono fun d hd => hd.1.spare ?_⟩
    have hroles : ps = (asLoaded u rows).map fun v => .ofRow v (roleOf d v) := by
      rw [mapM_publicOf hps]
      refine List.map_congr_left fun v hv => ?_
      rw [hd.2.2, roleOf_eq hv (hpos v hv)]
    rw [← hroles]
    exact not_le.mp (of_decide_eq_false hlast)

/-! ### The requests -/

theorem removes_of_quiet {c : Sql} (hc : Quiet c) : removes c = false := by
  cases c <;> first | rfl | cases hc

theorem free_of_quiet {α : Type} {q : Query α} (h : q.Issues Quiet) :
    q.Issues fun c => removes c = false :=
  h.mono fun _ => removes_of_quiet

theorem checks_quiet {α : Type} {q : Query α} (h : q.Issues Quiet) (hw : SoundCopy HasAdmin w) :
    Checks id (fun _ w _ => SoundCopy HasAdmin w) q w o := by
  refine Prog.checks_mono (Prog.checks_of_issues (K := fun _ => True) h (fun c d hc => ?_)
    (fun _ _ _ _ _ _ => trivial) hw trivial) fun _ _ _ hk => hk.1
  have hr := removes_of_quiet hc
  exact ⟨hr, fun hd => (mild_exec (.of_quiet hc) hr).hasAdmin hd⟩

/-- The check begins where the account is loaded. -/
theorem checks_getUser (hw : SoundCopy HasAdmin w) :
    Checks id (fun r w o => ∀ u, r = some u → u.id = id ∧ u.id ≠ 0 ∧ Knows (Loaded u) w o)
      (getUser id) w o := by
  refine fun d hd _ => ⟨fun h => (by cases h), fun u hu => ?_⟩
  obtain ⟨hmem, hid⟩ := Table.find_eq_some.mp hu
  exact ⟨hid, id_ne_zero hmem, hw, known_lastSeen (.inr (decide_eq_true rfl))
    (loaded_of_mem (hw.of_sees hd) hmem)⟩

theorem checks_locksOut {u : UserRow} (hid : u.id ≠ 0) (h : Knows (Loaded u) w o)
    (isActive : Bool) :
    Checks id (fun last w o => last = false → isActive = false → Knows (Spare u.id) w o)
      (locksOut u isActive) w o := by
  unfold locksOut
  split
  · rename_i ha
    exact fun _ hf => by rw [ha] at hf; cases hf
  · exact Prog.checks_mono (checks_isLastAdmin hid h) fun _ _ _ hs hlast _ => hs hlast

theorem checks_setUserStatus (admin : SessionUser) (isActive : Bool)
    (hw : SoundCopy HasAdmin w) :
    Checks id (fun _ _ _ => True) (setUserStatus admin id isActive) w o := by
  refine Prog.checks_bind (Prog.checks_mono (checks_getUser hw) fun r w o hr => ?_)
  refine Prog.checks_ofOption_bind fun u hu => Prog.checks_raiseIf_bind fun _ => ?_
  obtain ⟨-, hid, hk⟩ := hr u hu
  refine Prog.checks_bind (Prog.checks_bind (Prog.checks_mono (checks_locksOut hid hk isActive)
    fun last w o hs => Prog.checks_raiseIf_bind fun hlast => ?_))
  have hs := hs (Bool.eq_false_iff.mpr hlast)
  refine Prog.checks_bind (Prog.checks_bind fun d hd hm => ⟨fun _ hset => ?_, ?_⟩)
  · -- only an account that is shown as active is deactivated
    have hf : isActive = false := by
      dsimp only at hset
      split at hset
      · cases hset
      · exact Option.some.inj hset
    exact ((hs hf).2.now hm fun _ _ hs hm => hm.spare hs).notLast
  · have hrest (w o : Option Db) : Checks id (fun updated => Checks id (fun _ _ _ => True)
        (toPublic updated)) (refresh u.id) w o :=
      Prog.checks_mono (Prog.checks_of_free (free_of_quiet (quiet_refresh u.id)) w o)
        fun updated w o _ => Prog.checks_of_free (free_of_quiet (quiet_toPublic updated)) w o
    exact Prog.checks_raiseIf_bind fun _ d' _ _ => ⟨fun h => (by cases h), hrest _ _⟩

theorem checks_deleteUser (admin : SessionUser) (hw : SoundCopy HasAdmin w) :
    Checks id (fun _ _ _ => True) (Requests.deleteUser admin id) w o := by
  refine Prog.checks_bind (Prog.checks_mono (checks_getUser hw) fun r w o hr => ?_)
  refine Prog.checks_ofOption_bind fun u hu => Prog.checks_raiseIf_bind fun _ => ?_
  obtain ⟨rfl, hid, hk⟩ := hr u hu
  refine Prog.checks_bind (Prog.checks_mono (checks_isLastAdmin hid hk) fun last w o hs =>
    Prog.checks_raiseIf_bind fun hlast => ?_)
  have hs := hs (Bool.eq_false_iff.mpr hlast)
  -- the memberships, the tokens and the account go in one transaction
  intro d _ hm
  have hd : Spare u.id d := hs.2.now hm fun _ _ hs hm => hm.spare hs
  have hd' : Spare u.id (d.deleteLinks fun l => l.1 = u.id) := by
    obtain ⟨g, hg, hne⟩ := hd
    refine ⟨g, has_deleteLinks hg fun n m he => decide_eq_false ?_, hne⟩
    rintro rfl
    exact hne (by rw [he]; rfl)
  have hd'' : Spare u.id ((d.deleteLinks fun l => l.1 = u.id).deletePats u.id) := by
    obtain ⟨g, hg, hne⟩ := hd'
    exact ⟨g, has_deletePats hg, hne⟩
  refine ⟨fun _ => hd.notLast, fun d₁ h₁ _ => ⟨fun h => (by cases h), fun d₂ h₂ _ => ?_⟩⟩
  cases h₁
  cases h₂
  exact ⟨fun _ => hd''.notLast, fun _ _ _ => ⟨fun h => (by cases h), trivial⟩⟩

end

/-! ## Interleavings -/

inductive Change where
  | setUserStatus (userId : Int) (isActive : Bool)
  | deleteUser (userId : Int)

def Change.request : Change → Request
  | .setUserStatus userId isActive => .setUserStatus userId isActive
  | .deleteUser userId => .deleteUser userId

/-- A request that deactivates or deletes an account. -/
structure Job (τ : Type) where
  now : Int
  cred : Credentials τ
  change : Change

section
variable {ι τ : Type} [DecidableEq ι] (env : Env τ)

def Job.prog (job : Job τ) : Query Unit := job.change.request.serve env job.now job.cred

theorem Job.issues (job : Job τ) : (job.prog env).Issues Allowed := by
  have hadmin := quiet_requireAdmin env job.now job.cred
  refine Prog.issues_bind (hadmin.mono fun _ => .of_quiet) fun admin => ?_
  cases job.change with
  | setUserStatus userId isActive =>
    exact Prog.issues_bind (issues_setUserStatus admin userId isActive) fun _ => trivial
  | deleteUser userId => exact issues_deleteUser admin userId

/-- The account that the request is about. -/
def Job.target (job : Job τ) : Int :=
  match job.change with
  | .setUserStatus userId _ => userId
  | .deleteUser userId => userId

/-- A write of the request finds that its target is not the last administrator, where
its check is not stale. -/
theorem Job.checks (job : Job τ) :
    Checks job.target (fun _ _ _ => True) (job.prog env) none none := by
  have hnone : SoundCopy HasAdmin none := fun d hd => by cases hd
  refine Prog.checks_bind (Prog.checks_mono
    (checks_quiet (quiet_requireAdmin env job.now job.cred) hnone) fun admin w o hw => ?_)
  unfold Job.target
  cases job.change with
  | setUserStatus userId isActive =>
    refine Prog.checks_bind (Prog.checks_mono (checks_setUserStatus admin isActive hw) ?_)
    exact fun _ _ _ _ => trivial
  | deleteUser userId => exact checks_deleteUser admin hw

abbrev Sessions (ι : Type) := Shared ι Sql Reply ApiError Unit Db

/-- All requests at their start. -/
def start (jobs : ι → Job τ) (d : Db) : Sessions ι := ⟨d, none, fun i => (jobs i).prog env⟩

/-- The database has an active administrator. -/
def Ready (jobs : ι → Job τ) (s : Sessions ι) : Prop := ∃ d, HasAdmin d ∧ s = start env jobs d

def race (jobs : ι → Job τ) : LTS (Sessions ι) (Turn ι ApiError) :=
  Shared.lts statements Sql.kind (Ready env jobs)

/-- A check begins with the statement that loads the account, a deactivation or a
deletion rests on it, and makes the checks of the others stale. -/
def roles (jobs : ι → Job τ) : Roles ι Sql where
  begins i c := decide (c = .userById (jobs i).target)
  rests := removes
  harms := removes

/-- The race, with what each request knows of its check. -/
def watched (jobs : ι → Job τ) :
    LTS (Marked ι Sql Reply ApiError Unit Db) (Turn ι ApiError) :=
  Marked.lts statements Sql.kind (roles jobs) (Ready env jobs)

/-- A request that no other interrupts commits what its session does. -/
theorem request_alone (jobs : ι → Job τ) (d : Db) (i : ι) :
    ∃ n s, (race env jobs).Run (start env jobs d) (List.replicate n (.exec i)) s ∧
      (s.prog i).isOver = true ∧ s.committed = (session ((jobs i).prog env) d).2 :=
  Shared.run_alone (start env jobs d) fun ⟨w, hw, _⟩ => by cases hw

variable {env}

theorem keeps_prog (job : Job τ) :
    (job.prog env).Keeps statements Sql.kind HasAdmin Timely fun _ _ => True :=
  (job.issues env).keeps fun _ _ ha hd ht => ⟨trivial, hasAdmin_exec ha ht hd⟩

/-- Writes whose target is not the last administrator in the rows they find keep an
administrator. -/
theorem hasAdmin_of_timely {jobs : ι → Job τ} (s : Sessions ι)
    (h : ((race env jobs).guard (Shared.Meets Timely)).Reachable s) : HasAdmin s.committed := by
  have hind : ((race env jobs).guard (Shared.Meets Timely)).Inductive
      (Shared.Kept statements Sql.kind HasAdmin Timely fun _ _ => True) := by
    refine Shared.kept_inductive ?_
    rintro s ⟨d, hd, rfl⟩
    exact Shared.kept_start hd fun i => keeps_prog (jobs i)
  exact (hind.reachable s h).committed

omit [DecidableEq ι] in
theorem setting (jobs : ι → Job τ) :
    Marked.Setting statements (roles jobs) Mild Timely Allowed where
  refl := Mild.refl
  trans := Mild.trans
  mild_exec _ _ ha hr := mild_exec ha hr
  needs c d hr := by
    cases c with
    | updateUser id set => exact fun hset => absurd hset (of_decide_eq_false hr)
    | deleteMemberships | deleteUser => cases hr
    | _ => trivial

/-- In every interleaving, with requests failing anywhere, in which no request
deactivates or deletes after another has committed a deactivation or a deletion since
the first one loaded its target, the committed rows always have an active
administrator. -/
theorem hasAdmin_of_fresh {jobs : ι → Job τ} {s : Marked ι Sql Reply ApiError Unit Db}
    (h : ((watched env jobs).guard (Marked.Fresh (roles jobs))).Reachable s) :
    HasAdmin s.shared.committed := by
  refine hasAdmin_of_timely _ (Marked.meets_of_fresh (I := HasAdmin) (A := fun _ _ => True)
    (setting jobs) ?_ h)
  rintro s ⟨d, hd, rfl⟩
  exact Marked.attentive_start hd (fun i => keeps_prog (jobs i)) (fun i => (jobs i).issues env)
    fun i => (jobs i).checks env

end

/-! ### Two administrators -/

/-- `admin` is one by its own role, `bob` by a group. -/
def twoAdmins : Db := (withAdmins.foldl (Instance.step plainEnv) seeded).db

/-- `admin` deactivates `bob`, and `bob` deactivates `admin`. -/
def duel : Bool → Job Payload
  | false => ⟨0, cookie "admin" .admin, .setUserStatus 2 false⟩
  | true => ⟨0, cookie "bob" .admin, .setUserStatus 1 false⟩

def turns (n : Nat) (w : Bool) : List (Turn Bool ApiError) := List.replicate n (.exec w)

def bothOver (s : Sessions Bool) : Bool := (s.prog false).isOver && (s.prog true).isOver

theorem ready_duel : Ready plainEnv duel (start plainEnv duel twoAdmins) :=
  ⟨twoAdmins, hasAdmin_iff.mpr ⟨.own 1, mem_adminGrants.mp (by decide)⟩, rfl⟩

/-- `bob` has been authenticated before `admin` deactivates him, and is refused by
the check. -/
theorem hasAdmin_of_fresh_duel :
    ∃ s, ((watched plainEnv duel).guard (Marked.Fresh (roles duel))).Reachable s ∧
      bothOver s.shared = true ∧ adminGrants s.shared.committed = [.own 1] ∧
      HasAdmin s.shared.committed := by
  obtain ⟨s, hs, hp⟩ := LTS.guard_reachable_of_exec (I := Marked.Begins (Ready plainEnv duel))
    (f := Marked.step statements Sql.kind (roles duel)) (G := Marked.Fresh (roles duel))
    ⟨_, ready_duel, rfl⟩ (turns 2 true ++ turns 10 false ++ turns 4 true)
    (fun s => bothOver s.shared = true ∧ adminGrants s.shared.committed = [.own 1])
    (by decide +kernel)
  obtain ⟨hover, hgrants⟩ := of_decide_eq_true hp
  exact ⟨s, hs, hover, hgrants, hasAdmin_of_fresh hs⟩

/-- Both checks are made before either write. -/
theorem both_pass :
    ∃ s, (race plainEnv duel).Reachable s ∧ bothOver s = true ∧ ¬ HasAdmin s.committed := by
  obtain ⟨s, hs, hp⟩ := LTS.reachable_of_exec (f := Shared.step statements Sql.kind)
    ready_duel (turns 6 false ++ turns 6 true ++ turns 4 false ++ turns 4 true)
    (fun s => bothOver s = true ∧ adminGrants s.committed = []) (by decide +kernel)
  obtain ⟨hover, hgrants⟩ := of_decide_eq_true hp
  exact ⟨s, hs, hover, not_hasAdmin hgrants⟩

end MailserverUi.L5.AdminRace
