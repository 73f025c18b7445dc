import MailserverUi.L4App.Instance

/-!
# The effective role, one account at a time and many at once

`resolve_role` asks for the memberships of one account and `to_public_many` for
those of a whole list. `rolesHeld` is what either should take the highest of, in
terms of the rows. The lists are made of `UserPublic`s, which check the lengths
of the names again, and no sign-in by OIDC has checked them before.

Results:
* `isGreatest_roleOf`: the effective role is the most privileged one held.
* `agree_iff`: for every database, account and list, the paths agree and
  `is_last_admin` answers right exactly when the accounts listed fit the schema.
* `unlistable`: one sign-in with a long name keeps `is_last_admin` from
  answering.
-/
namespace MailserverUi.L4.EffectiveRole

open Py L2.Errors L2.Database L3 Auth GroupService UserService Oidc AccountSpec Requests Instance

/-! ## The order of the roles -/

instance : LinearOrder Role := LinearOrder.lift' Role.index fun a b => by
  cases a <;> cases b <;> decide

theorem guest_le (r : Role) : Role.guest ≤ r := by
  cases r <;> decide

theorem foldl_highest (rs : List Role) (best : Role) :
    rs.foldl (fun best r => if best.index < r.index then r else best) best = rs.foldl max best := by
  induction rs generalizing best with
  | nil => rfl
  | cons r rs ih =>
    have hmax : (if best.index < r.index then r else best) = max best r := by
      cases best <;> cases r <;> decide
    rw [List.foldl_cons, List.foldl_cons, hmax, ih]

theorem le_foldl_max {rs : List Role} {best r : Role} :
    r ≤ rs.foldl max best ↔ r ≤ best ∨ ∃ x ∈ rs, r ≤ x := by
  induction rs generalizing best with
  | nil => simp
  | cons x rs ih =>
    rw [List.foldl_cons, ih, le_max_iff]
    simp only [List.mem_cons, exists_eq_or_imp, or_assoc]

theorem foldl_max_mem (rs : List Role) (best : Role) :
    rs.foldl max best = best ∨ rs.foldl max best ∈ rs := by
  induction rs generalizing best with
  | nil => exact .inl rfl
  | cons x rs ih =>
    rw [List.foldl_cons]
    rcases ih (max best x) with h | h
    · rcases max_choice best x with hm | hm
      · exact .inl (h.trans hm)
      · exact .inr (List.mem_cons.mpr (.inl (h.trans hm)))
    · exact .inr (List.mem_cons_of_mem _ h)

theorem isGreatest_highestRole (role : Str) (roles : List Str) :
    IsGreatest {r | ∃ x ∈ role :: roles, normalizeRole x = r} (highestRole (role :: roles)) := by
  have hhigh : highestRole (role :: roles) =
      (roles.map normalizeRole).foldl max (normalizeRole role) := by
    rw [highestRole, foldl_highest, List.map_cons, List.foldl_cons, max_eq_right (guest_le _)]
  rw [hhigh]
  constructor
  · rcases foldl_max_mem (roles.map normalizeRole) (normalizeRole role) with h | h
    · exact ⟨role, List.mem_cons_self, h.symm⟩
    · obtain ⟨x, hx, e⟩ := List.mem_map.mp h
      exact ⟨x, List.mem_cons_of_mem _ hx, e⟩
  · rintro r ⟨x, hx, rfl⟩
    refine le_foldl_max.mpr ?_
    rcases List.mem_cons.mp hx with rfl | hx
    · exact .inl le_rfl
    · exact .inr ⟨_, List.mem_map_of_mem hx, le_rfl⟩

/-! ## What should come out -/

section
variable (d : Db)

/-- The role of the account row and those of the groups that exist, normalised. -/
def rolesHeld (u : UserRow) : Set Role :=
  {r | normalizeRole u.role = r ∨ ∃ g ∈ d.groups, (u.id, g.id) ∈ d.links ∧ normalizeRole g.role = r}

/-- What the three paths answer: the same, and the most privileged role held. -/
structure Agree (u : UserRow) (us : List UserRow) (role : Role) : Prop where
  greatest : IsGreatest (rolesHeld d u) role
  resolved : (session (resolveRole u) d).1 = .ok role
  signedIn : ∃ p, (session (toSessionUser u) d).1 = .ok p ∧ p.role = role
  listed : ∃ ps : List UserPublic, (session (toPublicMany us) d).1 = .ok ps ∧
    ps.length = us.length ∧ ∀ k : Nat, us[k]? = some u →
      ∃ p : UserPublic, ps[k]? = some p ∧ p.id = u.id ∧ p.effectiveRole = role

/-- The only active account that has the admin role. -/
structure OnlyAdmin (u : UserRow) : Prop where
  active : u.isActive = true
  admin : IsGreatest (rolesHeld d u) .admin
  only : ∀ v ∈ d.users, v.isActive = true → IsGreatest (rolesHeld d v) .admin → v = u

/-- `is_last_admin` answers, and right. -/
def Answers (u : UserRow) : Prop :=
  ∃ b, (session (isLastAdmin u) d).1 = .ok b ∧ (b = true ↔ OnlyAdmin d u)

/-- The lengths that `UserPublic` allows. -/
def Fits (u : UserRow) : Prop :=
  1 ≤ u.username.length ∧ u.username.length ≤ 255 ∧ u.displayName.length ≤ 255

instance (u : UserRow) : Decidable (Fits u) := inferInstanceAs (Decidable (_ ∧ _))

variable {d}

theorem isGreatest_roleOf (u : UserRow) : IsGreatest (rolesHeld d u) (roleOf d u) := by
  have hset : rolesHeld d u = {r | ∃ x ∈ u.role :: granted d u.id, normalizeRole x = r} := by
    ext r
    simp only [rolesHeld, Set.mem_ofPred_eq, List.mem_cons, exists_eq_or_imp, mem_granted]
    refine or_congr_right ⟨?_, ?_⟩
    · rintro ⟨g, hg, hl, rfl⟩
      exact ⟨g.role, ⟨g.id, hl, g, hg, rfl, rfl⟩, rfl⟩
    · rintro ⟨_, ⟨_, hl, g, hg, rfl, rfl⟩, rfl⟩
      exact ⟨g, hg, hl, rfl⟩
  rw [hset]
  exact isGreatest_highestRole _ _

theorem isGreatest_iff {u : UserRow} {r : Role} : IsGreatest (rolesHeld d u) r ↔ roleOf d u = r :=
  ⟨fun h => (isGreatest_roleOf u).unique h, fun h => h ▸ isGreatest_roleOf u⟩

theorem le_admin (r : Role) : r ≤ .admin := by
  cases r <;> decide

theorem roleOf_eq_admin {u : UserRow} : roleOf d u = .admin ↔ .admin ∈ rolesHeld d u := by
  rw [← isGreatest_iff]
  exact ⟨fun h => h.1, fun h => ⟨h, fun r _ => le_admin r⟩⟩

theorem onlyAdmin_iff {u : UserRow} (hu : u ∈ d.users) : OnlyAdmin d u ↔ LastAdmin d u := by
  constructor
  · rintro ⟨ha, hr, ho⟩
    refine ⟨ha, isGreatest_iff.mp hr, fun v hv => ?_⟩
    rw [ho v hv.mem hv.active (isGreatest_iff.mpr hv.role)]
  · rintro ⟨ha, hr, ho⟩
    refine ⟨ha, isGreatest_iff.mpr hr, fun v hv hva hvr => ?_⟩
    exact Table.eq_of_id hv hu (ho v ⟨hv, hva, isGreatest_iff.mp hvr⟩)

/-! ## The lists -/

/-- All of the list, or none of it. -/
theorem run_toPublicMany_fits (t : Tx Db) {us : List UserRow} (h : ∀ u ∈ us, u.id ≠ 0) :
    (toPublicMany us).run sqlite t = (if ∀ u ∈ us, Fits u then
      .ok (us.map fun u => .ofRow u (roleOf t.view u)) else .error .internal, t) := by
  rw [toPublicMany, Prog.run_bind, run_getGrantedRoles]
  refine (run_ofOption t _ _).trans ?_
  have hpublic (u : UserRow) (role : Role) :
      publicOf u role = if Fits u then some (.ofRow u role) else none := rfl
  rw [mapM_ite fun u => hpublic u _]
  by_cases hf : ∀ u ∈ us, Fits u
  · rw [if_pos hf, if_pos hf]
    refine congrArg (fun ps => (Except.ok ps, t)) (List.map_congr_left fun u hu => ?_)
    rw [roleOf_eq hu (h u hu)]
  · rw [if_neg hf, if_neg hf]
    rfl

/-- A list with two different accounts has more than one. -/
theorem one_lt_length {α : Type} {l : List α} {a b : α} (ha : a ∈ l) (hb : b ∈ l) (hne : a ≠ b) :
    1 < l.length := by
  match l with
  | [] => cases ha
  | [x] => exact absurd ((List.mem_singleton.mp ha).trans (List.mem_singleton.mp hb).symm) hne
  | _ :: _ :: _ => simp

/-- Counting the administrators listed tells whether there is another one. -/
theorem length_le_one_iff {u : UserRow} {rows : List UserRow} (hperm : rows.Perm d.users.rows)
    (hu : IsAdmin d u) :
    ((rows.map fun v => UserPublic.ofRow v (roleOf d v)).filter fun p =>
      p.effectiveRole = .admin ∧ p.isActive = true).length ≤ 1 ↔ LastAdmin d u := by
  constructor
  · intro hle
    refine ⟨hu.active, hu.role, fun v hv => ?_⟩
    by_contra hne
    have hmem : ∀ w, IsAdmin d w → UserPublic.ofRow w (roleOf d w) ∈
        (rows.map fun v => UserPublic.ofRow v (roleOf d v)).filter fun p =>
          p.effectiveRole = .admin ∧ p.isActive = true := by
      intro w hw
      exact List.mem_filter.mpr ⟨List.mem_map_of_mem (hperm.mem_iff.mpr hw.mem),
        decide_eq_true ⟨hw.role, hw.active⟩⟩
    have := one_lt_length (hmem v hv) (hmem u hu) fun e => hne (congrArg UserPublic.id e)
    omega
  · intro hlast
    by_contra hlt
    obtain ⟨v, hv, hne⟩ := exists_other (u := u) hperm (not_le.mp hlt)
    exact hne (hlast.only v hv)

/-- Where every account fits the list, the check is right. -/
theorem run_isLastAdmin_eq (t : Tx Db) {u : UserRow} (hu : u ∈ t.view.users) :
    ∃ r, (isLastAdmin u).run sqlite t = (r, t) ∧
      if u.isActive = true ∧ roleOf t.view u = .admin ∧ ¬ ∀ v ∈ t.view.users, Fits v then
        r = .error .internal
      else ∃ b, r = .ok b ∧ (b = true ↔ LastAdmin t.view u) := by
  unfold isLastAdmin
  by_cases ha : u.isActive = false
  · rw [if_pos ha]
    refine ⟨_, rfl, ?_⟩
    rw [if_neg fun h => by rw [h.1] at ha; cases ha]
    exact ⟨false, rfl, iff_of_false Bool.false_ne_true fun h => by rw [h.active] at ha; cases ha⟩
  rw [if_neg ha, Prog.run_bind, run_resolveRole t (id_ne_zero hu)]
  by_cases hr : roleOf t.view u ≠ .admin
  · simp only [if_pos hr]
    refine ⟨_, rfl, ?_⟩
    rw [if_neg fun h => hr h.2.1]
    exact ⟨false, rfl, iff_of_false Bool.false_ne_true fun h => hr h.role⟩
  -- an administrator: the accounts are listed
  have ha := Bool.eq_true_of_not_eq_false ha
  simp only [if_neg hr]
  have hr := not_not.mp hr
  generalize hs : t.view.users.rows.insertionSort (fun u v => u.username ≤ v.username) = rows
  have hperm : rows.Perm t.view.users.rows := hs ▸ List.perm_insertionSort _ _
  have hrows : ∀ v, v ∈ rows ↔ v ∈ t.view.users := fun v => hperm.mem_iff
  have hlist : listUsers.run sqlite t = (.ok rows, t) := by rw [← hs]; rfl
  rw [Prog.run_bind, hlist]
  simp only [asLoaded_eq hu fun r hr => (hrows r).mp hr]
  rw [Prog.run_bind, run_toPublicMany_fits t fun v hv => id_ne_zero ((hrows v).mp hv)]
  simp only [hrows]
  by_cases hf : ∀ v ∈ t.view.users, Fits v
  · rw [if_pos hf]
    refine ⟨_, rfl, ?_⟩
    rw [if_neg fun h => h.2.2 hf]
    refine ⟨_, rfl, ?_⟩
    rw [decide_eq_true_eq]
    exact length_le_one_iff hperm ⟨hu, ha, hr⟩
  · rw [if_neg hf]
    refine ⟨_, rfl, ?_⟩
    rw [if_pos ⟨ha, hr, hf⟩]

/-! ## Agreement -/

variable (d)

theorem agree_of_fits {u : UserRow} (hu : u ∈ d.users) {us : List UserRow}
    (hus : ∀ v ∈ us, v ∈ d.users) (hf : ∀ v ∈ us, Fits v) : Agree d u us (roleOf d u) where
  greatest := isGreatest_roleOf u
  resolved := congrArg Prod.fst (session_of_run (run_resolveRole ⟨d, none⟩ (id_ne_zero hu)))
  signedIn := by
    rw [session_of_run (run_toSessionUser ⟨d, none⟩ (id_ne_zero hu))]
    exact ⟨_, rfl, rfl⟩
  listed := by
    rw [session_of_run (run_toPublicMany_fits ⟨d, none⟩ fun v hv => id_ne_zero (hus v hv)),
      if_pos hf]
    refine ⟨_, rfl, List.length_map _, fun k hk => ⟨.ofRow u (roleOf d u), ?_, rfl, rfl⟩⟩
    rw [List.getElem?_map, hk]
    rfl

theorem fits_of_agree {u : UserRow} {us : List UserRow} (hus : ∀ v ∈ us, v ∈ d.users)
    {role : Role} (h : Agree d u us role) : ∀ v ∈ us, Fits v := by
  obtain ⟨ps, hps, -⟩ := h.listed
  by_contra hf
  rw [session_of_run (run_toPublicMany_fits ⟨d, none⟩ fun v hv => id_ne_zero (hus v hv)),
    if_neg hf] at hps
  cases hps

theorem answers_iff {u : UserRow} (hu : u ∈ d.users) :
    Answers d u ↔
      (u.isActive = true → Role.admin ∈ rolesHeld d u → ∀ v ∈ d.users, Fits v) := by
  obtain ⟨r, hr, hspec⟩ := run_isLastAdmin_eq ⟨d, none⟩ hu
  change if u.isActive = true ∧ roleOf d u = .admin ∧ ¬ ∀ v ∈ d.users, Fits v then _ else _
    at hspec
  rw [Answers, session_of_run hr, ← roleOf_eq_admin]
  split at hspec
  · rename_i h
    subst hspec
    exact iff_of_false (fun ⟨b, hb, _⟩ => by cases hb) fun hf => h.2.2 (hf h.1 h.2.1)
  · rename_i h
    obtain ⟨b, rfl, hb⟩ := hspec
    refine iff_of_true ⟨b, rfl, hb.trans (onlyAdmin_iff hu).symm⟩ fun ha hadm => ?_
    by_contra hf
    exact h ⟨ha, hadm, hf⟩

/-- For every database, account and list of accounts: the three paths answer with
the most privileged role held and `is_last_admin` answers right exactly when the
accounts of the list fit the schema, and all accounts do if this one is an active
administrator. -/
theorem agree_iff (d : Db) {u : UserRow} (hu : u ∈ d.users) {us : List UserRow}
    (hus : ∀ v ∈ us, v ∈ d.users) :
    (∃ role, Agree d u us role) ∧ Answers d u ↔
      (∀ v ∈ us, Fits v) ∧
        (u.isActive = true → Role.admin ∈ rolesHeld d u → ∀ v ∈ d.users, Fits v) :=
  and_congr ⟨fun ⟨_, h⟩ => fits_of_agree d hus h, fun h => ⟨_, agree_of_fits d hu hus h⟩⟩
    (answers_iff d hu)

end

/-! ## A name that does not fit -/

/-- The seeded administrator. -/
def admin : UserRow :=
  ⟨1, "admin".toList, "admin".toList, "admin".toList, "local".toList, true,
    some "secret".toList, 0⟩

theorem admin_mem : admin ∈ seeded.db.users := by
  rw [← Table.mem_rows]
  decide

theorem agree_iff_seeded :
    (∃ role, Agree seeded.db admin [admin] role) ∧ Answers seeded.db admin := by
  have hfits : ∀ v ∈ seeded.db.users.rows, Fits v := by decide +kernel
  refine (agree_iff seeded.db admin_mem fun v hv => ?_).mpr ⟨fun v hv => ?_, fun _ _ => hfits⟩
  · exact List.mem_singleton.mp hv ▸ admin_mem
  · exact List.mem_singleton.mp hv ▸ hfits admin admin_mem

/-- The provider vouches for everybody. -/
def openOidc : OidcSettings := ⟨true, false, [], [], [], [], false⟩

/-- An account whose display name has 256 characters. -/
def longName : Claims := fun claim =>
  if claim = "sub".toList then some (.text "eve".toList)
  else if claim = "name".toList then some (.text (List.replicate 256 'x'))
  else none

/-- The seeded database after its sign-in. -/
def crowded : Db := (session (oidcCallback openOidc longName) seeded.db).2

/-- The administrator is listed alone without trouble, but the check that should
find no other one raises. -/
theorem unlistable : admin ∈ crowded.users ∧
    (session (isLastAdmin admin) crowded).1 = .error .internal ∧
    ¬ ((∃ role, Agree crowded admin [admin] role) ∧ Answers crowded admin) := by
  have hmem : admin ∈ crowded.users.rows := by decide +kernel
  have herr : (session (isLastAdmin admin) crowded).1 = .error .internal := by decide +kernel
  refine ⟨hmem, herr, fun h => ?_⟩
  obtain ⟨b, hb, -⟩ := h.2
  rw [herr] at hb
  cases hb

end MailserverUi.L4.EffectiveRole
