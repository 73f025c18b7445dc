import MailserverUi.L4App.Instance

/-!
# Whom a request speaks for

The cookie and the bearer credential only lead to an account. What a request is
answered as is made of the row of that account and of its memberships
(`SpeaksFor`), and nothing of it is taken over from the token.

The guard of the token pages decodes the cookie again, a moment later, and
answers with what it says.

Results:
* `principal_unique`: under one name there is one principal, whatever the
  credentials are.
* `authenticated`: a principal is an active account as it is now, a cookie that
  decodes keeps the bearer credential from being looked at, and the guard lets
  nobody pass without the cookie of an active account.
-/
namespace MailserverUi.L4.Principals

open Py L2.Errors L2.Database L3 Auth UserService AccountSpec Requests RequestsSpec Instance

/-- `p` is the active account `u` as its row and its memberships make it. -/
structure SpeaksFor (d : Db) (p : SessionUser) (u : UserRow) : Prop where
  row : u ∈ d.users
  active : u.isActive = true
  username : p.username = u.username
  displayName : p.displayName = if u.displayName ≠ [] then u.displayName else u.username
  role : p.role = highestRole (u.role :: granted d u.id)
  provider : p.provider = if u.provider = "oidc".toList then .oidc else .local

section
variable {d : Db} {p q : SessionUser} {u v : UserRow}

theorem speaksFor_iff :
    SpeaksFor d p u ↔ u ∈ d.users ∧ u.isActive = true ∧ p = sessionUser d u := by
  constructor
  · intro h
    obtain ⟨username, displayName, role, provider⟩ := p
    obtain ⟨hu, ha, rfl, rfl, rfl, rfl⟩ := h
    exact ⟨hu, ha, rfl⟩
  · rintro ⟨hu, ha, rfl⟩
    exact ⟨hu, ha, rfl, rfl, rfl, rfl⟩

/-- Usernames tell the accounts apart, so they tell the principals apart. -/
theorem principal_unique (hp : SpeaksFor d p u) (hq : SpeaksFor d q v)
    (h : p.username = q.username) : p = q := by
  have huv : u = v :=
    Table.eq_of_key hp.row hq.row (by rw [← hp.username, ← hq.username, h])
  subst huv
  rw [(speaksFor_iff.mp hp).2.2, (speaksFor_iff.mp hq).2.2]

end

/-! ## One request -/

section
variable {τ : Type} (env : Env τ) (now : Int) (cred : Credentials τ) (d : Db)

/-- What the request is answered as. -/
def answeredAs : Except ApiError (Option SessionUser) :=
  (session (currentUserOptional env now cred) d).1

/-- The session user in the cookie, at an instant. -/
def cookieUser : Option SessionUser :=
  cred.cookie.bind (decodeSessionToken env.jose (now / 1000000))

variable {env now cred d}

theorem speaksFor_of_answeredAs {p : SessionUser} (h : answeredAs env now cred d = .ok (some p)) :
    ∃ u, SpeaksFor d p u := by
  obtain ⟨r, pats, -, hr, hp⟩ := run_currentUserOptional env now cred d
  rw [answeredAs, session_of_run hr] at h
  cases h
  obtain ⟨u, hu, ha, rfl⟩ := hp p rfl
  exact ⟨u, speaksFor_iff.mpr ⟨hu, ha, rfl⟩⟩

/-- Where the cookie decodes, its account is the one. -/
theorem username_of_cookieUser {p user : SessionUser} (hc : cookieUser env now cred = some user)
    (h : answeredAs env now cred d = .ok (some p)) : p.username = user.username := by
  obtain ⟨token, ht, hd⟩ := Option.bind_eq_some_iff.mp hc
  obtain ⟨r, hr, hp⟩ := run_currentUser_session env now cred d ht hd
  rw [answeredAs, session_of_run hr] at h
  cases h
  obtain ⟨u, -, hu, -, rfl⟩ := hp p rfl
  exact hu

/-- Where the cookie decodes, the bearer credential is not looked at. -/
theorem currentUserOptional_bearer {user : SessionUser} (hc : cookieUser env now cred = some user)
    (bearer : Option Str) :
    currentUserOptional env now ⟨cred.cookie, bearer⟩ = currentUserOptional env now cred := by
  unfold cookieUser at hc
  simp only [currentUserOptional, hc]

/-- The guard passes where the request is answered as somebody and the cookie
decodes when it is read again. -/
theorem of_requireSessionLogin {elapsed : Nat} {user : SessionUser}
    (h : (session (requireSessionLogin env now cred elapsed) d).1 = .ok user) :
    cookieUser env (now + elapsed) cred = some user ∧
      ∃ p, answeredAs env now cred d = .ok (some p) := by
  obtain ⟨o, pats, -, ho, -⟩ := run_currentUserOptional env now cred d
  have hans : answeredAs env now cred d = .ok o := by rw [answeredAs, session_of_run ho]
  rw [requireSessionLogin, requireUser, session, Prog.run_bind, Prog.run_bind, ho] at h
  cases o with
  | none => cases h
  | some p =>
    refine ⟨?_, p, hans⟩
    change ((Prog.ofOption _ (cookieUser env (now + elapsed) cred) : Query _).run sqlite _).1 = _
      at h
    rw [run_ofOption] at h
    cases hc : cookieUser env (now + elapsed) cred with
    | none => rw [hc] at h; cases h
    | some user' => rw [hc] at h; cases h; rfl

/-- The cookie that is valid when the guard reads it was valid before. -/
theorem cookieUser_earlier (hj : env.jose.Decides) {elapsed : Nat} {user : SessionUser}
    (h : cookieUser env (now + elapsed) cred = some user) :
    cookieUser env now cred = some user := by
  obtain ⟨token, ht, hd⟩ := Option.bind_eq_some_iff.mp h
  have hle : now / 1000000 ≤ (now + elapsed) / 1000000 :=
    Int.ediv_le_ediv (by decide) (by omega)
  exact Option.bind_eq_some_iff.mpr ⟨token, ht, decodeSessionToken_earlier hj hle hd⟩

/-- For every database state, cookie and bearer credential: a principal is an
active account, and is made of its row and its memberships alone; where the
cookie decodes, the answer is that of its account and does not depend on the
bearer credential; and the guard of the token pages passes only a request with
the cookie of the active account it is answered as. -/
theorem authenticated (hj : env.jose.Decides) (d : Db) (now : Int) (elapsed : Nat)
    (cred : Credentials τ) :
    (∀ p, answeredAs env now cred d = .ok (some p) →
      (∃ u, SpeaksFor d p u) ∧
      ∀ now' cred' q, answeredAs env now' cred' d = .ok (some q) → q.username = p.username →
        q = p) ∧
    (∀ user, cookieUser env now cred = some user →
      (∀ bearer, session (currentUserOptional env now ⟨cred.cookie, bearer⟩) d =
        session (currentUserOptional env now cred) d) ∧
      ∀ p, answeredAs env now cred d = .ok (some p) → p.username = user.username) ∧
    ∀ user, (session (requireSessionLogin env now cred elapsed) d).1 = .ok user →
      ∃ token, cred.cookie = some token ∧
        decodeSessionToken env.jose ((now + elapsed) / 1000000) token = some user ∧
        ∃ p u, answeredAs env now cred d = .ok (some p) ∧ SpeaksFor d p u ∧
          u.username = user.username := by
  refine ⟨fun p hp => ⟨speaksFor_of_answeredAs hp, fun now' cred' q hq hn => ?_⟩,
    fun user hc => ⟨fun bearer => ?_, fun p hp => username_of_cookieUser hc hp⟩, fun user h => ?_⟩
  · obtain ⟨u, hu⟩ := speaksFor_of_answeredAs hp
    obtain ⟨v, hv⟩ := speaksFor_of_answeredAs hq
    exact principal_unique hv hu hn
  · rw [currentUserOptional_bearer hc]
  · obtain ⟨hc, p, hp⟩ := of_requireSessionLogin h
    obtain ⟨token, ht, hd⟩ := Option.bind_eq_some_iff.mp hc
    obtain ⟨u, hu⟩ := speaksFor_of_answeredAs hp
    have hname : p.username = user.username :=
      username_of_cookieUser (cookieUser_earlier hj hc) hp
    exact ⟨token, ht, hd, p, u, hp, hu, hu.username.symm.trans hname⟩

end

/-! ## A stale token -/

theorem decides_plainEnv : plainEnv.jose.Decides := by
  refine ⟨some, fun now p => ?_⟩
  by_cases h : p.Valid now <;> simp [plainEnv, Option.filter, h]

def patEnv : Env Payload := { plainEnv with patsEnabled := true }

/-- A token of the administrator from before it had its name and its role, next
to a personal access token. -/
def stale : SessionUser := ⟨"admin".toList, "Old".toList, .guest, .oidc⟩

def staleCredentials : Credentials Payload :=
  ⟨some (sessionToken patEnv 0 stale), some "pat_secret".toList⟩

def administrator : SessionUser := ⟨"admin".toList, "admin".toList, .admin, .local⟩

theorem authenticated_stale :
    answeredAs patEnv 7 staleCredentials seeded.db = .ok (some administrator) ∧
      (∃ u, SpeaksFor seeded.db administrator u) ∧
      administrator.username = stale.username ∧
      ∃ token, staleCredentials.cookie = some token ∧
        ∃ u, SpeaksFor seeded.db administrator u ∧ u.username = stale.username := by
  have hans : answeredAs patEnv 7 staleCredentials seeded.db = .ok (some administrator) := by
    decide +kernel
  have hlogin : (session (requireSessionLogin patEnv 7 staleCredentials 5) seeded.db).1 =
      .ok stale := by decide +kernel
  have hj : patEnv.jose.Decides := decides_plainEnv
  obtain ⟨hp, hc, hg⟩ := authenticated hj seeded.db 7 5 staleCredentials
  obtain ⟨token, ht, -, p, u, hp', hu, hn⟩ := hg stale hlogin
  rw [hans] at hp'
  cases hp'
  exact ⟨hans, (hp _ hans).1, (hc stale (by decide +kernel)).2 _ hans, token, ht, u, hu, hn⟩

end MailserverUi.L4.Principals
