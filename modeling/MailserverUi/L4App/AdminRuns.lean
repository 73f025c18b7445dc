import MailserverUi.L3Service.AdminGrants
import MailserverUi.L4App.Instance

/-!
# The last administrator

The routers of accounts ask `is_last_admin` before they delete or deactivate. A
group can be changed or deleted, a membership removed, and the role of an OIDC
account overwritten by its next sign-in, without anything that asks. `revokes`
and `demotes` name the grants that such an event takes away.

Results:
* `hasAdmin_effect`: an event keeps an administrator if what it takes away, where
  it takes anything, leaves a grant.
* `hasAdmin_of_spared`: so does every run of such events from the seeded database.
* `locked_out`: a run without ends with no administrator.
-/
namespace MailserverUi.L4.AdminRuns

open Py L2.Database L3 Auth UserService Oidc AccountSpec AdminGrants Requests RequestsSpec
open Instance

/-! ## What takes a grant away -/

section
variable (d : Db)

/-- The grants that a request of the group router takes away. -/
def revokes : Request → Grant → Bool
  | .updateGroup groupId payload, g =>
    payload.role ≠ .admin ∧ (∀ r ∈ d.groups.rows, r.name = payload.name → r.id = groupId) ∧
      g.via = some groupId
  | .deleteGroup groupId, g => g.via = some groupId
  | .removeUserFromGroup groupId userId, g => g = .member userId groupId
  | _, _ => false

/-- The grants that an OIDC sign-in takes away. -/
def demotes (p : SessionUser) (g : Grant) : Bool :=
  p.role ≠ .admin ∧ ∃ u ∈ d.users.rows, u.username = p.username ∧ u.provider = "oidc".toList ∧
    g = .own u.id

/-- If it takes grants away, one is left. -/
def Spares (taken : Grant → Bool) : Prop :=
  (∃ g ∈ adminGrants d, taken g = true) → ∃ g ∈ adminGrants d, taken g = false

instance (taken : Grant → Bool) : Decidable (Spares d taken) :=
  inferInstanceAs (Decidable (_ → _))

variable {d}

/-- An administrator is left, where every grant that is not taken is kept. -/
theorem Spares.hasAdmin {taken : Grant → Bool} (hs : Spares d taken) (h : HasAdmin d) {d' : Db}
    (hkeep : ∀ g, Has d g → taken g = false → Has d' g) : HasAdmin d' := by
  obtain ⟨g, hg⟩ := hasAdmin_iff.mp h
  cases ht : taken g with
  | false => exact hasAdmin_iff.mpr ⟨g, hkeep g hg ht⟩
  | true =>
    obtain ⟨g', hg', ht'⟩ := hs ⟨g, mem_adminGrants.mpr hg, ht⟩
    exact hasAdmin_iff.mpr ⟨g', hkeep g' (mem_adminGrants.mp hg') ht'⟩

/-! ## One event -/

theorem hasAdmin_done {req : Request} {d' : Db} (hd : Done d req d')
    (hs : Spares d (revokes d req)) (h : HasAdmin d) : HasAdmin d' := by
  cases hd with
  | createUser _ hi => exact h.mono fun g => has_insertUser hi
  | @deleteUser u hu hl =>
    obtain ⟨g, hg, hne⟩ := exists_other hu h hl
    have hlinks : Has (d.deleteLinks fun l => l.1 = u.id) g := by
      refine has_deleteLinks hg fun n m he => ?_
      subst he
      exact decide_eq_false hne
    exact hasAdmin_iff.mpr ⟨g, has_deleteUser (has_deletePats hlinks) hne⟩
  | @setUserStatus u isActive hu hl =>
    cases isActive with
    | true =>
      refine h.mono fun g hg => has_updateUser hg (fun _ => ?_) fun _ _ hr => by cases hr
      dsimp only
      split <;> simp
    | false =>
      obtain ⟨g, hg, hne⟩ := exists_other hu h (hl rfl)
      refine hasAdmin_iff.mpr ⟨g, has_updateUser hg (fun he => absurd he hne) fun he => ?_⟩
      exact absurd (congrArg Grant.userId he) hne
  | createGroup hi => exact h.mono fun g => has_insertGroup hi
  | @updateGroup payload r d' hr hi =>
    refine hs.hasAdmin h fun g hg ht => has_updateGroup hi hg fun n he => ?_
    subst he
    have hfree : ∀ r' ∈ d.groups.rows, r'.name = payload.name → r'.id = r.id := by
      obtain ⟨t, ht, -⟩ := Option.map_eq_some_iff.mp hi
      exact fun r' hr' hn => Table.id_of_modify ht hr' hr rfl hn
    rw [normalizeRole_str]
    by_contra hne
    rw [revokes, decide_eq_false_iff_not] at ht
    exact ht ⟨hne, hfree, rfl⟩
  | @deleteGroup r hr =>
    refine hs.hasAdmin h fun g hg ht => ?_
    have hne : ∀ n, g ≠ .member n r.id := by
      rintro n rfl
      simp [revokes, Grant.via] at ht
    refine has_deleteGroup (has_deleteLinks hg fun n m he => ?_) hne
    subst he
    simpa [revokes, Grant.via] using ht
  | addUsersToGroup => exact h.mono fun g => has_linked
  | addUserToGroup => exact h.mono fun g => has_insertLink
  | removeUserFromGroup =>
    refine hs.hasAdmin h fun g hg ht => has_deleteLinks hg fun n m he => ?_
    subst he
    simpa [revokes] using ht

end

section
variable {τ : Type} (env : Env τ)

/-- The events that leave a grant where they take some away. -/
def Spared (s : State τ) : Event τ → Prop
  | .login .. | .wait _ => True
  | .oidcCallback config claims =>
    ∀ p ∈ oidcPrincipal config claims, Spares s.db (demotes s.db p)
  | .request cred req => Authorised env s.now cred s.db → Spares s.db (revokes s.db req)

instance (s : State τ) (e : Event τ) : Decidable (Spared env s e) :=
  match e with
  | .login .. | .wait _ => isTrue trivial
  | .oidcCallback config claims =>
    inferInstanceAs (Decidable (∀ p ∈ oidcPrincipal config claims, Spares s.db (demotes s.db p)))
  | .request .. => inferInstanceAs (Decidable (_ → _))

variable {env}

theorem hasAdmin_effect {s s' : State τ} {e : Event τ} (he : Effect env s e s')
    (hs : Spared env s e) (h : HasAdmin s.db) : HasAdmin s'.db := by
  cases he with
  | unchanged => exact h.mono fun _ hg => hg
  | wait => exact h
  | login => exact h
  | oidcNew hp hi => exact h.mono fun g => has_insertUser hi
  | @oidcOld config claims p u hp hu hn ho =>
    refine (hs p hp).hasAdmin h fun g hg ht => has_updateUser hg (fun _ => by simp [oidcSet]) ?_
    rintro rfl role hrole
    cases hrole
    rw [normalizeRole_str]
    by_contra hne
    rw [demotes, decide_eq_false_iff_not] at ht
    exact ht ⟨hne, u, hu, hn, ho, rfl⟩
  | request ha hd => exact hasAdmin_done hd (hs ha) (h.mono fun _ hg => hg)

/-! ## Runs -/

/-- No sign-in yet, and the database that `ensure_default_admin` leaves. -/
def Seeded (s : State τ) : Prop :=
  s.issued = [] ∧ ∃ adminUsername hash,
    session (ensureDefaultAdmin adminUsername hash) noRows = (.ok (), s.db)

theorem hasAdmin_seeded {adminUsername : Str} {hash : Option Str} {d : Db}
    (h : session (ensureDefaultAdmin adminUsername hash) noRows = (.ok (), d)) : HasAdmin d := by
  cases hash with
  | none => cases h
  | some hash =>
    cases hi : noRows.insertUser adminUsername adminUsername "admin".toList "local".toList
      (some hash) with
    | none =>
      obtain ⟨v, hv, -⟩ := insertUser_eq_none.mp hi
      cases hv
    | some r =>
      obtain ⟨u, d'⟩ := r
      have hrun : session (ensureDefaultAdmin adminUsername (some hash)) noRows = (.ok (), d') := by
        refine session_of_run (t := ⟨d', none⟩) ?_
        rw [ensureDefaultAdmin]
        change (execute (.insertUser adminUsername adminUsername "admin".toList "local".toList
          (some hash)) >>= _).run sqlite ⟨noRows, none⟩ = _
        rw [Prog.run_bind, run_insertUser noRows hi]
        rfl
      obtain rfl : d' = d := congrArg Prod.snd (hrun.symm.trans h)
      obtain ⟨rfl, hmem, -, -⟩ := insertUser_spec hi
      have hu := (hmem _).mpr (.inr rfl)
      exact hasAdmin_iff.mpr ⟨.own _, _, hu, rfl, rfl, normalizeRole_str .admin⟩

theorem spared_inductive : ((events env Seeded).guard (Spared env)).Inductive
    fun s => HasAdmin s.db where
  init s h := by
    obtain ⟨-, adminUsername, hash, h⟩ := h
    exact hasAdmin_seeded h
  step s e s' h hs := by
    obtain ⟨hg, hs⟩ := hs
    cases hs
    exact hasAdmin_effect (effect_step env s e) hg h

/-- From the seeded database, every run whose events leave an admin grant where
they take one away has an administrator in every state. -/
theorem hasAdmin_of_spared (s : State τ)
    (h : ((events env Seeded).guard (Spared env)).Reachable s) : HasAdmin s.db :=
  spared_inductive.reachable s h

end

theorem seeded_seeded : Seeded seeded :=
  ⟨rfl, "admin".toList, some "secret".toList, rfl⟩

/-- The seeded administrator stays one when the group goes. -/
theorem hasAdmin_of_spared_group :
    ∃ s, ((events plainEnv Seeded).guard (Spared plainEnv)).Reachable s ∧
      s.db.links = [] ∧ s.issued.length = 2 ∧ HasAdmin s.db := by
  obtain ⟨s, hs, hp⟩ := LTS.guard_reachable_of_exec (f := fun s e => some (step plainEnv s e))
    (G := Spared plainEnv) seeded_seeded
    (withAdmins ++ [.request (cookie "bob" .admin) (.deleteGroup 1)])
    (fun s => s.db.links = [] ∧ s.issued.length = 2) (by decide +kernel)
  obtain ⟨hl, hi⟩ := of_decide_eq_true hp
  exact ⟨s, hs, hl, hi, hasAdmin_of_spared s hs⟩

/-- `bob` may delete the seeded account, and then the group that makes `bob` an
administrator. -/
theorem locked_out : ∃ s, (events plainEnv Seeded).Reachable s ∧ ¬ HasAdmin s.db := by
  obtain ⟨s, hs, hp⟩ := LTS.reachable_of_exec (f := fun s e => some (step plainEnv s e))
    seeded_seeded
    (withAdmins ++ [.request (cookie "bob" .admin) (.deleteUser 1),
      .request (cookie "bob" .admin) (.deleteGroup 1)])
    (fun s => adminGrants s.db = []) (by decide +kernel)
  exact ⟨s, hs, not_hasAdmin (of_decide_eq_true hp)⟩

end MailserverUi.L4.AdminRuns
