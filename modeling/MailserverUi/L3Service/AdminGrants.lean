import MailserverUi.L3Service.AccountSpec

/-!
# What makes an administrator

A `Grant` is one reason why an active account is an administrator: the role of
its own row, or its membership of a group with the admin role. `HasAdmin` says
that there is an administrator at all, which is that there is a grant
(`hasAdmin_iff`).

One lemma for each statement that writes says which grants it keeps. An account
that is not the last administrator can go (`exists_other`).
-/
namespace MailserverUi.L3.AdminGrants

open Py L2.Database Auth AccountSpec

inductive Grant where
  | own (userId : Int)
  | member (userId groupId : Int)
  deriving DecidableEq, Repr

def Grant.userId : Grant → Int
  | .own userId => userId
  | .member userId _ => userId

/-- The group that the grant is by. -/
def Grant.via : Grant → Option Int
  | .own _ => none
  | .member _ groupId => some groupId

section
variable (d : Db)

/-- At least one active account has the effective role admin. -/
def HasAdmin : Prop := ∃ u, IsAdmin d u

def Has : Grant → Prop
  | .own userId => ∃ u ∈ d.users, u.id = userId ∧ u.isActive = true ∧ normalizeRole u.role = .admin
  | .member userId groupId => (∃ u ∈ d.users, u.id = userId ∧ u.isActive = true) ∧
      (userId, groupId) ∈ d.links ∧ ∃ g ∈ d.groups, g.id = groupId ∧ normalizeRole g.role = .admin

/-- The grants there are, as a list. -/
def adminGrants : List Grant :=
  (d.users.rows.filter fun u => u.isActive).flatMap fun u =>
    (if normalizeRole u.role = .admin then [.own u.id] else []) ++
      (d.links.filter fun l => l.1 = u.id ∧
        ∃ g ∈ d.groups.rows, g.id = l.2 ∧ normalizeRole g.role = .admin).map fun l =>
          .member u.id l.2

variable {d}

theorem mem_adminGrants {g : Grant} : g ∈ adminGrants d ↔ Has d g := by
  simp only [adminGrants, List.mem_flatMap, List.mem_filter, List.mem_append, List.mem_map,
    decide_eq_true_eq, Table.mem_rows, List.mem_ite_nil_right, List.mem_singleton]
  constructor
  · rintro ⟨u, ⟨hu, ha⟩, ⟨hr, rfl⟩ | ⟨⟨n, m⟩, ⟨hl, rfl, hg⟩, rfl⟩⟩
    · exact ⟨u, hu, rfl, ha, hr⟩
    · exact ⟨⟨u, hu, rfl, ha⟩, hl, hg⟩
  · cases g with
    | own n =>
      rintro ⟨u, hu, rfl, ha, hr⟩
      exact ⟨u, ⟨hu, ha⟩, .inl ⟨hr, rfl⟩⟩
    | member n m =>
      rintro ⟨⟨u, hu, rfl, ha⟩, hl, hg⟩
      exact ⟨u, ⟨hu, ha⟩, .inr ⟨(u.id, m), ⟨hl, rfl, hg⟩, rfl⟩⟩

theorem Has.isAdmin {g : Grant} (h : Has d g) : ∃ u, IsAdmin d u ∧ u.id = g.userId := by
  cases g with
  | own n =>
    obtain ⟨u, hu, hn, ha, hr⟩ := h
    exact ⟨u, ⟨hu, ha, highestRole_eq_admin.mpr ⟨u.role, List.mem_cons_self, hr⟩⟩, hn⟩
  | member n m =>
    obtain ⟨⟨u, hu, rfl, ha⟩, hl, g, hg, hm, hr⟩ := h
    have hgranted : g.role ∈ granted d u.id := mem_granted.mpr ⟨m, hl, g, hg, hm, rfl⟩
    exact ⟨u, ⟨hu, ha, highestRole_eq_admin.mpr ⟨g.role, List.mem_cons_of_mem _ hgranted, hr⟩⟩,
      rfl⟩

theorem IsAdmin.has {u : UserRow} (h : IsAdmin d u) : ∃ g, Has d g ∧ g.userId = u.id := by
  obtain ⟨role, hrole, hr⟩ := highestRole_eq_admin.mp h.role
  rcases List.mem_cons.mp hrole with rfl | hrole
  · exact ⟨.own u.id, ⟨u, h.mem, rfl, h.active, hr⟩, rfl⟩
  · obtain ⟨m, hl, g, hg, hm, rfl⟩ := mem_granted.mp hrole
    exact ⟨.member u.id m, ⟨⟨u, h.mem, rfl, h.active⟩, hl, g, hg, hm, hr⟩, rfl⟩

theorem hasAdmin_iff : HasAdmin d ↔ ∃ g, Has d g := by
  constructor
  · rintro ⟨u, hu⟩
    obtain ⟨g, hg, -⟩ := IsAdmin.has hu
    exact ⟨g, hg⟩
  · rintro ⟨g, hg⟩
    obtain ⟨u, hu, -⟩ := hg.isAdmin
    exact ⟨u, hu⟩

theorem not_hasAdmin (h : adminGrants d = []) : ¬ HasAdmin d := by
  intro hd
  obtain ⟨g, hg⟩ := hasAdmin_iff.mp hd
  have hm := mem_adminGrants.mpr hg
  rw [h] at hm
  cases hm

theorem HasAdmin.mono {d' : Db} (h : HasAdmin d) (hkeep : ∀ g, Has d g → Has d' g) :
    HasAdmin d' := by
  obtain ⟨g, hg⟩ := hasAdmin_iff.mp h
  exact hasAdmin_iff.mpr ⟨g, hkeep g hg⟩

instance (u : UserRow) : Decidable (LastAdmin d u) :=
  decidable_of_iff (u.isActive = true ∧ roleOf d u = .admin ∧
      ∀ v ∈ d.users.rows, v.isActive = true → roleOf d v = .admin → v.id = u.id)
    ⟨fun ⟨ha, hr, ho⟩ => ⟨ha, hr, fun v hv => ho v hv.mem hv.active hv.role⟩,
      fun ⟨ha, hr, ho⟩ => ⟨ha, hr, fun v hv hva hvr => ho v ⟨hv, hva, hvr⟩⟩⟩

/-- Where an account is not the last administrator, another account has a grant. -/
theorem exists_other {u : UserRow} (hu : u ∈ d.users) (h : HasAdmin d) (hl : ¬ LastAdmin d u) :
    ∃ g, Has d g ∧ g.userId ≠ u.id := by
  have hother : ∃ v, IsAdmin d v ∧ v.id ≠ u.id := by
    by_contra hn
    simp only [not_exists, not_and, not_not] at hn
    obtain ⟨v, hv⟩ := h
    obtain rfl : v = u := Table.eq_of_id hv.mem hu (hn v hv)
    exact hl ⟨hv.active, hv.role, hn⟩
  obtain ⟨v, hv, hne⟩ := hother
  obtain ⟨g, hg, he⟩ := IsAdmin.has hv
  exact ⟨g, hg, he ▸ hne⟩

/-! ## Which grants a statement keeps -/

/-- A grant is kept where its account stays active, the role stays for a grant of
its own, and for one by a group the membership and the group's role stay. -/
theorem Has.mono {d' : Db} {g : Grant} (h : Has d g)
    (hu : ∀ u ∈ d.users, u.id = g.userId → ∃ u' ∈ d'.users, u'.id = u.id ∧
      (u.isActive = true → u'.isActive = true) ∧
      (g = .own u.id → normalizeRole u.role = .admin → normalizeRole u'.role = .admin))
    (hl : ∀ n m, g = .member n m → (n, m) ∈ d.links → (n, m) ∈ d'.links)
    (hg : ∀ n m, g = .member n m → ∀ r ∈ d.groups, r.id = m → normalizeRole r.role = .admin →
      ∃ r' ∈ d'.groups, r'.id = m ∧ normalizeRole r'.role = .admin) : Has d' g := by
  cases g with
  | own n =>
    obtain ⟨u, hm, rfl, ha, hr⟩ := h
    obtain ⟨u', hm', hid, ha', hr'⟩ := hu u hm rfl
    exact ⟨u', hm', hid, ha' ha, hr' rfl hr⟩
  | member n m =>
    obtain ⟨⟨u, hm, rfl, ha⟩, hlink, r, hr, hid, hadmin⟩ := h
    obtain ⟨u', hm', hid', ha', -⟩ := hu u hm rfl
    exact ⟨⟨u', hm', hid', ha' ha⟩, hl _ m rfl hlink, hg _ m rfl r hr hid hadmin⟩

/-- The same where the accounts stay as they are. -/
theorem Has.mono_groups {d' : Db} {g : Grant} (h : Has d g) (hu : d'.users = d.users)
    (hl : ∀ n m, g = .member n m → (n, m) ∈ d.links → (n, m) ∈ d'.links)
    (hg : ∀ n m, g = .member n m → ∀ r ∈ d.groups, r.id = m → normalizeRole r.role = .admin →
      ∃ r' ∈ d'.groups, r'.id = m ∧ normalizeRole r'.role = .admin) : Has d' g :=
  h.mono (fun u hm _ => ⟨u, hu ▸ hm, rfl, id, fun _ => id⟩) hl hg

/-- The same where the groups stay as they are. -/
theorem Has.mono_users {d' : Db} {g : Grant} (h : Has d g)
    (hu : ∀ u ∈ d.users, u.id = g.userId → ∃ u' ∈ d'.users, u'.id = u.id ∧
      (u.isActive = true → u'.isActive = true) ∧
      (g = .own u.id → normalizeRole u.role = .admin → normalizeRole u'.role = .admin))
    (hl : d'.links = d.links) (hg : d'.groups = d.groups) : Has d' g :=
  h.mono hu (fun _ _ _ hm => hl ▸ hm) fun _ _ _ r hm hid hr => ⟨r, hg ▸ hm, hid, hr⟩

theorem has_insertUser {username displayName role provider : Str} {hash : Option Str} {u : UserRow}
    {d' : Db} {g : Grant} (hi : d.insertUser username displayName role provider hash = some (u, d'))
    (h : Has d g) : Has d' g := by
  obtain ⟨-, hmem, hg, hl⟩ := insertUser_spec hi
  exact h.mono_users (fun v hv _ => ⟨v, (hmem v).mpr (.inl hv), rfl, id, fun _ => id⟩) hl hg

theorem has_updateUser {id : Int} {set : UserSet} {g : Grant} (h : Has d g)
    (ha : g.userId = id → set.isActive ≠ some false)
    (hr : g = .own id → ∀ role, set.role = some role → normalizeRole role = .admin) :
    Has (d.updateUser id set) g := by
  refine h.mono_users (fun u hu hid => ⟨_, mem_updateUser.mpr ⟨u, hu, rfl⟩, ?_⟩) rfl rfl
  by_cases he : u.id = id
  · rw [if_pos he]
    refine ⟨rfl, fun hact => ?_, fun hown hadmin => ?_⟩
    · cases hset : set.isActive with
      | none => simpa [UserSet.on, hset] using hact
      | some b =>
        cases b with
        | true => simp [UserSet.on, hset]
        | false => exact absurd hset (ha (hid ▸ he))
    · cases hset : set.role with
      | none => simpa [UserSet.on, hset] using hadmin
      | some role => simpa [UserSet.on, hset] using hr (he ▸ hown) role hset
  · rw [if_neg he]
    exact ⟨rfl, fun hact => hact, fun _ hadmin => hadmin⟩

theorem has_deleteUser {id : Int} {g : Grant} (h : Has d g) (hne : g.userId ≠ id) :
    Has (d.deleteUser id) g := by
  refine h.mono_users (fun u hu hid => ⟨u, ?_, rfl, fun ha => ha, fun _ hr => hr⟩) rfl rfl
  exact Table.mem_filter.mpr ⟨hu, by simpa [hid] using hne⟩

theorem has_deletePats {id : Int} {g : Grant} (h : Has d g) : Has (d.deletePats id) g :=
  h.mono_groups rfl (fun _ _ _ hl => hl) fun _ _ _ r hr hid hadmin => ⟨r, hr, hid, hadmin⟩

theorem has_deleteLinks {p : Int × Int → Bool} {g : Grant} (h : Has d g)
    (hp : ∀ n m, g = .member n m → p (n, m) = false) : Has (d.deleteLinks p) g := by
  refine h.mono_groups rfl (fun n m he hl => ?_) fun _ _ _ r hr hid hadmin => ⟨r, hr, hid, hadmin⟩
  exact List.mem_filter.mpr ⟨hl, by simp [hp n m he]⟩

theorem has_insertLink {userId groupId : Int} {g : Grant} (h : Has d g) :
    Has (d.insertLink userId groupId) g := by
  unfold Db.insertLink
  split
  · exact h
  · exact h.mono_groups rfl (fun _ _ _ hl => List.mem_append_left _ hl)
      fun _ _ _ r hr hid hadmin => ⟨r, hr, hid, hadmin⟩

theorem has_linked {groupId : Int} {userIds : List Int} {g : Grant} (h : Has d g) :
    Has (linked d groupId userIds) g := by
  unfold linked
  induction userIds generalizing d with
  | nil => exact h
  | cons userId userIds ih => exact ih (has_insertLink h)

theorem has_insertGroup {name description role : Str} {r : GroupRow} {d' : Db} {g : Grant}
    (hi : d.insertGroup name description role = some (r, d')) (h : Has d g) : Has d' g := by
  obtain ⟨hmem, hu, hl⟩ := insertGroup_spec d hi
  exact h.mono_groups hu (fun _ _ _ hm => hl ▸ hm)
    fun _ _ _ r hr hid hadmin => ⟨r, (hmem r).mpr (.inl hr), hid, hadmin⟩

theorem has_updateGroup {id : Int} {name description role : Str} {d' : Db} {g : Grant}
    (hi : d.updateGroup id name description role = some d') (h : Has d g)
    (hr : ∀ n, g = .member n id → normalizeRole role = .admin) : Has d' g := by
  obtain ⟨hmem, hu, hl⟩ := mem_updateGroup d hi
  refine h.mono_groups hu (fun _ _ _ hm => hl ▸ hm) fun n m he r hrow hid hadmin => ?_
  refine ⟨_, (hmem _).mpr ⟨r, hrow, rfl⟩, ?_⟩
  by_cases hrid : r.id = id
  · rw [if_pos hrid]
    subst hid hrid
    exact ⟨rfl, hr n he⟩
  · rw [if_neg hrid]
    exact ⟨hid, hadmin⟩

theorem has_deleteGroup {id : Int} {g : Grant} (h : Has d g) (hne : ∀ n, g ≠ .member n id) :
    Has (d.deleteGroup id) g := by
  refine h.mono_groups rfl (fun _ _ _ hl => hl) fun n m he r hr hid hadmin => ⟨r, ?_, hid, hadmin⟩
  refine Table.mem_filter.mpr ⟨hr, ?_⟩
  have : r.id ≠ id := fun e => hne n (by rw [he, ← hid, e])
  simpa using this

end

end MailserverUi.L3.AdminGrants
