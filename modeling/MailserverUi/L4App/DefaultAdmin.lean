import MailserverUi.L3Service.AccountSpec

/-!
# The account that the first start seeds (`ensure_default_admin`)

The function looks for an administrator by role and provider, and inserts one
under a name that no other account may have. An `IntegrityError` of the insert
is taken for a worker that was faster.

Results:
* `run_ensureDefaultAdmin`: what a session of it commits.
* `seeds_iff`: it leaves a local administrator, and a table that had one alone,
  exactly when there was one or the configured name was free.
-/
namespace MailserverUi.L4.DefaultAdmin

open Py L2.Database L3 UserService AccountSpec

def adminRole : Str := "admin".toList
def localProvider : Str := "local".toList

/-- An account that the function looks for. -/
def HasLocalAdmin (d : Db) : Prop := ∃ u ∈ d.users, u.role = adminRole ∧ u.provider = localProvider

/-- No account has the name. -/
def NameFree (d : Db) (username : Str) : Prop := ∀ u ∈ d.users, u.username ≠ username

section
variable (adminUsername hash : Str) (d : Db)

/-- A session that returns leaves a local administrator, and the database as it
was if there was one before. -/
def Seeds : Prop :=
  ∀ d', session (ensureDefaultAdmin adminUsername (some hash)) d = (.ok (), d') →
    HasLocalAdmin d' ∧ (HasLocalAdmin d → d' = d)

/-- The session returns. It inserts the account when there is no local
administrator and the name is free. -/
theorem run_ensureDefaultAdmin :
    (HasLocalAdmin d ∧ session (ensureDefaultAdmin adminUsername (some hash)) d = (.ok (), d)) ∨
    (¬ HasLocalAdmin d ∧ ¬ NameFree d adminUsername ∧
      session (ensureDefaultAdmin adminUsername (some hash)) d = (.ok (), d)) ∨
    ∃ u d', ¬ HasLocalAdmin d ∧
      d.insertUser adminUsername adminUsername adminRole localProvider (some hash) = some (u, d') ∧
      session (ensureDefaultAdmin adminUsername (some hash)) d = (.ok (), d') := by
  have hfind : (execute (.userByRole "admin".toList "local".toList)).run sqlite ⟨d, none⟩ =
      (.ok (d.users.rows.find? fun u => u.role = adminRole ∧ u.provider = localProvider),
        ⟨d, none⟩) := rfl
  cases hf : d.users.rows.find? fun u => u.role = adminRole ∧ u.provider = localProvider with
  | some u =>
    have hu : u.role = adminRole ∧ u.provider = localProvider := by
      simpa using List.find?_some hf
    refine .inl ⟨⟨u, List.mem_of_find?_eq_some hf, hu⟩, session_of_run (t := ⟨d, none⟩) ?_⟩
    rw [ensureDefaultAdmin, Prog.run_bind, hfind, hf]
    rfl
  | none =>
    have hno : ¬ HasLocalAdmin d := fun ⟨u, hu, h⟩ =>
      List.find?_eq_none.mp hf u hu (decide_eq_true h)
    refine .inr ?_
    cases hi : d.insertUser adminUsername adminUsername adminRole localProvider (some hash) with
    | none =>
      obtain ⟨v, hv, hn⟩ := insertUser_eq_none.mp hi
      refine .inl ⟨hno, fun h => h v hv hn, session_of_run (t := ⟨d, some d⟩) ?_⟩
      rw [ensureDefaultAdmin, Prog.run_bind, hfind, hf]
      change (execute (.insertUser adminUsername adminUsername adminRole localProvider
        (some hash)) >>= _).run sqlite ⟨d, none⟩ = _
      rw [Prog.run_bind, run_insertUser d hi]
      rfl
    | some r =>
      obtain ⟨u, d'⟩ := r
      refine .inr ⟨u, d', hno, rfl, session_of_run (t := ⟨d', none⟩) ?_⟩
      rw [ensureDefaultAdmin, Prog.run_bind, hfind, hf]
      change (execute (.insertUser adminUsername adminUsername adminRole localProvider
        (some hash)) >>= _).run sqlite ⟨d, none⟩ = _
      rw [Prog.run_bind, run_insertUser d hi]
      rfl

/-- A name that another account has is no sign of a faster worker: the function
leaves no local administrator exactly when there was none and the configured
name was taken. -/
theorem seeds_iff :
    Seeds adminUsername hash d ↔ HasLocalAdmin d ∨ NameFree d adminUsername := by
  rcases run_ensureDefaultAdmin adminUsername hash d with
    ⟨h, hr⟩ | ⟨h, hn, hr⟩ | ⟨u, d', h, hi, hr⟩
  · refine iff_of_true (fun e he => ?_) (.inl h)
    cases hr.symm.trans he
    exact ⟨h, fun _ => rfl⟩
  · exact iff_of_false (fun hs => h (hs d hr).1) (not_or.mpr ⟨h, hn⟩)
  · refine iff_of_true (fun e he => ?_) (.inr fun v hv hn => ?_)
    · cases hr.symm.trans he
      obtain ⟨rfl, hmem, -, -⟩ := insertUser_spec hi
      exact ⟨⟨_, (hmem _).mpr (.inr rfl), rfl, rfl⟩, fun ha => absurd ha h⟩
    · rw [insertUser_eq_none.mpr ⟨v, hv, hn⟩] at hi
      cases hi

end

/-- The identity provider has vouched for somebody called `admin`. -/
def nameTaken : Db :=
  ((noRows.insertUser adminRole adminRole "guest".toList "oidc".toList none).map Prod.snd).getD
    noRows

theorem no_admin_nameTaken : ¬ HasLocalAdmin nameTaken := by
  have h : ∀ u ∈ nameTaken.users.rows, ¬ (u.role = adminRole ∧ u.provider = localProvider) := by
    decide
  exact fun ⟨u, hu, ha⟩ => h u hu ha

/-- The function returns, and there is no administrator. -/
theorem unseeded :
    (session (ensureDefaultAdmin adminRole (some "hash".toList)) nameTaken).1 = .ok () ∧
      ¬ HasLocalAdmin (session (ensureDefaultAdmin adminRole (some "hash".toList)) nameTaken).2 := by
  rcases run_ensureDefaultAdmin adminRole "hash".toList nameTaken with
    ⟨h, -⟩ | ⟨h, -, hr⟩ | ⟨u, d', -, hi, -⟩
  · exact absurd h no_admin_nameTaken
  · rw [hr]
    exact ⟨rfl, h⟩
  · have hnone : (nameTaken.insertUser adminRole adminRole adminRole localProvider
        (some "hash".toList)).isNone = true := by decide +kernel
    rw [hi] at hnone
    cases hnone

end MailserverUi.L4.DefaultAdmin
