import MailserverUi.L3Service.AccountSpec
import MailserverUi.L4App.Requests

/-!
# What a request commits

* `run_currentUserOptional`: a request is answered as an account that is active
  in the rows it starts from.
* `serve_cases`: a request of an account or group router leaves the rows alone,
  up to the last use of a token, or it was authorised and did what `Done` says.
* `oidcCallback_cases`, `login_cases`: the same for the two sign-ins.
-/
namespace MailserverUi.L4.RequestsSpec

open Py L2.Errors L2.Database L3 Auth UserService Oidc AccountSpec Requests

/-! ## Who is asking -/

section
variable {τ : Type} (env : Env τ) (now : Int) (cred : Credentials τ) (d : Db)

/-- The account, when it is active. -/
theorem run_principal (t : Tx Db) {o : Option UserRow} (h : ∀ u, o = some u → u ∈ t.view.users) :
    (principal o).run sqlite t =
      (.ok ((o.filter UserRow.isActive).map (sessionUser t.view)), t) := by
  cases o with
  | none => rfl
  | some u =>
    simp only [principal, Option.filter]
    by_cases ha : u.isActive = true
    · rw [if_pos ha, if_pos ha, Prog.run_bind, run_toSessionUser t (id_ne_zero (h u rfl))]
      rfl
    · rw [if_neg ha, if_neg ha]
      rfl

theorem of_principal {d : Db} {o : Option UserRow} {p : SessionUser}
    (h : (o.filter UserRow.isActive).map (sessionUser d) = some p) :
    ∃ u, o = some u ∧ u.isActive = true ∧ p = sessionUser d u := by
  obtain ⟨u, hu, rfl⟩ := Option.map_eq_some_iff.mp h
  obtain ⟨ho, ha⟩ := Option.filter_eq_some_iff.mp hu
  exact ⟨u, ho, ha, rfl⟩

/-- The session branch: the account that has the name in the token. -/
theorem run_currentUser_session {token : τ} {user : SessionUser}
    (hc : cred.cookie = some token)
    (hd : decodeSessionToken env.jose (now / 1000000) token = some user) :
    ∃ r, (currentUserOptional env now cred).run sqlite ⟨d, none⟩ = (.ok r, ⟨d, none⟩) ∧
      ∀ p, r = some p →
        ∃ u ∈ d.users, u.username = user.username ∧ u.isActive = true ∧ p = sessionUser d u := by
  have hget : (getByUsername user.username).run sqlite ⟨d, none⟩ =
      (.ok (d.users.findKey user.username), ⟨d, none⟩) := rfl
  unfold currentUserOptional
  rw [hc]
  simp only [Option.bind_some, hd]
  rw [Prog.run_bind, hget]
  have hr := run_principal ⟨d, none⟩ (o := d.users.findKey user.username)
    fun u hu => (Table.findKey_eq_some.mp hu).1
  refine ⟨_, hr, fun p hrp => ?_⟩
  obtain ⟨u, hu, ha, rfl⟩ := of_principal hrp
  obtain ⟨hm, hn⟩ := Table.findKey_eq_some.mp hu
  exact ⟨u, hm, hn, ha, rfl⟩

/-- The other branch: the account of the token in the bearer credential. -/
theorem run_currentUser_pat
    (hc : cred.cookie.bind (decodeSessionToken env.jose (now / 1000000)) = none) :
    ∃ pats, Touched d.pats pats ∧ (currentUserOptional env now cred).run sqlite ⟨d, none⟩ =
      (.ok ((((presentedPat env cred).bind (accountOf d env.digest now)).filter
        UserRow.isActive).map (sessionUser d)), ⟨{ d with pats := pats }, none⟩) := by
  unfold currentUserOptional
  rw [hc]
  simp only
  cases presentedPat env cred with
  | none => exact ⟨d.pats, rfl, rfl⟩
  | some raw =>
    simp only
    obtain ⟨pats, ht, ho⟩ := run_authenticate d env.digest now raw
    rw [Prog.run_bind, ho]
    exact ⟨pats, ht, run_principal ⟨{ d with pats := pats }, none⟩ fun u hu =>
      mem_of_accountOf d hu⟩

theorem run_currentUserOptional :
    ∃ r pats, Touched d.pats pats ∧ (currentUserOptional env now cred).run sqlite ⟨d, none⟩ =
        (.ok r, ⟨{ d with pats := pats }, none⟩) ∧
      ∀ p, r = some p → ∃ u ∈ d.users, u.isActive = true ∧ p = sessionUser d u := by
  cases hc : cred.cookie.bind (decodeSessionToken env.jose (now / 1000000)) with
  | some user =>
    obtain ⟨token, ht, hd⟩ := Option.bind_eq_some_iff.mp hc
    obtain ⟨r, hr, hp⟩ := run_currentUser_session env now cred d ht hd
    refine ⟨r, d.pats, rfl, hr, fun p hrp => ?_⟩
    obtain ⟨u, hu, -, ha, rfl⟩ := hp p hrp
    exact ⟨u, hu, ha, rfl⟩
  | none =>
    obtain ⟨pats, ht, hr⟩ := run_currentUser_pat env now cred d hc
    refine ⟨_, pats, ht, hr, fun p hrp => ?_⟩
    obtain ⟨u, hu, ha, rfl⟩ := of_principal hrp
    obtain ⟨raw, -, hm⟩ := Option.bind_eq_some_iff.mp hu
    exact ⟨u, mem_of_accountOf d hm, ha, rfl⟩

theorem run_requireAdmin :
    ∃ r pats, Touched d.pats pats ∧ (requireAdmin env now cred).run sqlite ⟨d, none⟩ =
        (r, ⟨{ d with pats := pats }, none⟩) ∧
      ∀ p, r = .ok p → p.role = .admin ∧ ∃ u ∈ d.users, u.isActive = true ∧ p = sessionUser d u := by
  obtain ⟨o, pats, ht, ho, hm⟩ := run_currentUserOptional env now cred d
  rw [requireAdmin, requireUser]
  cases o with
  | none =>
    refine ⟨.error (unauthorized "Not authenticated"), pats, ht, ?_, fun p hp => by cases hp⟩
    rw [Prog.run_bind, Prog.run_bind, ho]
    rfl
  | some p =>
    by_cases hg : roleGrants p.role .admin = false
    · refine ⟨.error (forbidden [lit "Administrator privileges required"]), pats, ht, ?_,
        fun q hq => by cases hq⟩
      rw [Prog.run_bind, Prog.run_bind, ho]
      change (Prog.raiseIf _ _ >>= _).run sqlite _ = _
      rw [Prog.run_raiseIf_bind, if_pos hg]
    · refine ⟨.ok p, pats, ht, ?_, fun q hq => ?_⟩
      · rw [Prog.run_bind, Prog.run_bind, ho]
        change (Prog.raiseIf _ _ >>= _).run sqlite _ = _
        rw [Prog.run_raiseIf_bind, if_neg hg]
        rfl
      · cases hq
        exact ⟨roleGrants_admin.mp (by simpa using hg), hm p rfl⟩

/-- The request is authorised as an administrator's. -/
def Authorised : Prop := (session (requireAdmin env now cred) d).1.isOk = true

instance : Decidable (Authorised env now cred d) := inferInstanceAs (Decidable (_ = true))

end

/-! ## What the handlers commit -/

/-- What a request that succeeds commits. -/
inductive Done (d : Db) : Request → Db → Prop where
  | createUser {payload : UserCreate} {h : Str} {u : UserRow} {d' : Db}
      (hne : strip payload.username ≠ [])
      (hi : d.insertUser (strip payload.username) (strip payload.displayName) "guest".toList
        "local".toList (some h) = some (u, d')) : Done d (.createUser payload (some h)) d'
  | deleteUser {u : UserRow} (hu : u ∈ d.users) (hl : ¬ LastAdmin d u) :
      Done d (.deleteUser u.id)
        (((d.deleteLinks fun l => l.1 = u.id).deletePats u.id).deleteUser u.id)
  | setUserStatus {u : UserRow} {isActive : Bool} (hu : u ∈ d.users)
      (hl : isActive = false → ¬ LastAdmin d u) :
      Done d (.setUserStatus u.id isActive) (d.updateUser u.id
        { isActive := if u.isActive = isActive then none else some isActive })
  | createGroup {payload : GroupWrite} {g : GroupRow} {d' : Db}
      (hi : d.insertGroup payload.name payload.description payload.role.str = some (g, d')) :
      Done d (.createGroup payload) d'
  | updateGroup {payload : GroupWrite} {g : GroupRow} {d' : Db} (hg : g ∈ d.groups)
      (hi : d.updateGroup g.id payload.name payload.description payload.role.str = some d') :
      Done d (.updateGroup g.id payload) d'
  | deleteGroup {g : GroupRow} (hg : g ∈ d.groups) :
      Done d (.deleteGroup g.id) ((d.deleteLinks fun l => l.2 = g.id).deleteGroup g.id)
  | addUsersToGroup (groupId : Int) (userIds : List Int) :
      Done d (.addUsersToGroup groupId userIds) (linked d groupId userIds)
  | addUserToGroup (groupId userId : Int) :
      Done d (.addUserToGroup groupId userId) (d.insertLink userId groupId)
  | removeUserFromGroup (groupId userId : Int) :
      Done d (.removeUserFromGroup groupId userId)
        (d.deleteLinks fun l => l = (userId, groupId))

section
variable (d : Db)

/-- The handler left the committed rows alone, or did its work. -/
def Settled {α : Type} (req : Request) (q : Query α) : Prop :=
  (q.run sqlite ⟨d, none⟩).2.committed = d ∨
    Done d req (q.run sqlite ⟨d, none⟩).2.committed

theorem settled_of_run {α : Type} {req : Request} {q : Query α} {r : Except ApiError α} {d' : Db}
    {w : Option Db} (hq : q.run sqlite ⟨d, none⟩ = (r, ⟨d', w⟩)) (h : d' = d ∨ Done d req d') :
    Settled d req q := by
  unfold Settled
  rw [hq]
  exact h

/-- A handler whose work fails. -/
theorem settled_failed {α β : Type} {req : Request} {q : Query α} {f : α → Query β} {e : ApiError}
    {w : Option Db} (hq : q.run sqlite ⟨d, none⟩ = (.error e, ⟨d, w⟩)) :
    Settled d req (q >>= f) := by
  have hrun : (q >>= f).run sqlite ⟨d, none⟩ = (.error e, ⟨d, w⟩) := by
    rw [Prog.run_bind, hq]
  exact settled_of_run d hrun (.inl rfl)

/-- A handler that first looks something up. -/
theorem settled_bind {α β : Type} {req : Request} {q : Query α} {f : α → Query β}
    {r : Except ApiError α} (hq : q.run sqlite ⟨d, none⟩ = (r, ⟨d, none⟩))
    (hf : ∀ a, r = .ok a → Settled d req (f a)) : Settled d req (q >>= f) := by
  unfold Settled
  rw [Prog.run_bind, hq]
  cases r with
  | error e => exact .inl rfl
  | ok a => exact hf a rfl

theorem settled_raiseIf {β : Type} {req : Request} {b : Prop} [Decidable b] {e : ApiError}
    {f : Unit → Query β} (hf : ¬ b → Settled d req (f ())) :
    Settled d req (Prog.raiseIf b e >>= f) := by
  unfold Settled
  rw [Prog.run_raiseIf_bind]
  split
  · exact .inl rfl
  · exact hf ‹_›

/-- The answer of a handler does not matter for what it commits. -/
theorem settled_void {α : Type} {req : Request} {q : Query α} (h : Settled d req q) :
    Settled d req (void q) := by
  have hrun : ((void q).run sqlite ⟨d, none⟩).2 = (q.run sqlite ⟨d, none⟩).2 := by
    rw [void, Prog.run_bind]
    generalize q.run sqlite ⟨d, none⟩ = r
    obtain ⟨r, s⟩ := r
    cases r <;> rfl
  unfold Settled at h ⊢
  rw [hrun]
  exact h

/-- What comes after the last commit only reads. -/
theorem settled_toPublic {req : Request} {q : Query UserRow} {u : UserRow} {d' : Db}
    (hq : q.run sqlite ⟨d, none⟩ = (.ok u, ⟨d', none⟩)) (hu : u ∈ d'.users)
    (h : Done d req d') : Settled d req (q >>= toPublic) := by
  obtain ⟨r, hr⟩ := run_toPublic ⟨d', none⟩ (id_ne_zero hu)
  have hrun : (q >>= toPublic).run sqlite ⟨d, none⟩ = (r, ⟨d', none⟩) := by
    rw [Prog.run_bind, hq]
    exact hr
  exact settled_of_run d hrun (.inr h)

/-- `get_user` or `get_group`, or 404. -/
theorem settled_found {α β : Type} {req : Request} {q : Query (Option α)} {o : Option α}
    {e : ApiError} {f : α → Query β} (hq : q.run sqlite ⟨d, none⟩ = (.ok o, ⟨d, none⟩))
    (hf : ∀ a, o = some a → Settled d req (f a)) :
    Settled d req (q >>= fun o => Prog.ofOption e o >>= f) := by
  refine settled_bind d hq fun o' ho => ?_
  cases ho
  refine settled_bind d (run_ofOption _ e o) fun a ha => hf a ?_
  cases o with
  | none => cases ha
  | some b => cases ha; rfl

/-! ### Accounts -/

theorem run_getUser (userId : Int) :
    (getUser userId).run sqlite ⟨d, none⟩ = (.ok (d.users.find userId), ⟨d, none⟩) := rfl

theorem settled_createUser (payload : UserCreate) (hash : Option Str) :
    Settled d (.createUser payload hash) (createUser payload hash) := by
  rw [createUser]
  rcases run_createLocalUser d payload.username payload.displayName hash with
    ⟨e, w, hr⟩ | ⟨h, u, d', rfl, hne, hi, hr⟩
  · exact settled_failed d hr
  · exact settled_toPublic d hr (((insertUser_spec hi).2.1 u).mpr (.inr rfl))
      (.createUser hne hi)

theorem settled_deleteUser (admin : SessionUser) (userId : Int) :
    Settled d (.deleteUser userId) (deleteUser admin userId) := by
  refine settled_found d (run_getUser d userId) fun u hf => ?_
  obtain ⟨hu, rfl⟩ := Table.find_eq_some.mp hf
  refine settled_raiseIf d fun _ => ?_
  obtain ⟨r, hr, hl⟩ := run_isLastAdmin ⟨d, none⟩ hu
  refine settled_bind d hr fun last hlast => ?_
  refine settled_raiseIf d fun hn => ?_
  have hlast : r = .ok false := by rw [hlast]; exact congrArg _ (by simpa using hn)
  exact settled_of_run d (run_deleteUser d u) (.inr (.deleteUser hu (hl hlast)))

theorem settled_setUserStatus (admin : SessionUser) (userId : Int) (isActive : Bool) :
    Settled d (.setUserStatus userId isActive) (setUserStatus admin userId isActive) := by
  refine settled_found d (run_getUser d userId) fun u hf => ?_
  obtain ⟨hu, rfl⟩ := Table.find_eq_some.mp hf
  refine settled_raiseIf d fun _ => ?_
  rcases run_setActive d hu isActive with ⟨e, hr⟩ | ⟨hl, hr⟩
  · exact settled_failed d hr
  · exact settled_toPublic d hr (mem_updateUser.mpr ⟨u, hu, (if_pos rfl).symm⟩)
      (.setUserStatus hu hl)

/-! ### Groups -/

theorem run_getGroup (groupId : Int) :
    (GroupService.getGroup groupId).run sqlite ⟨d, none⟩ =
      (.ok (d.groups.find groupId), ⟨d, none⟩) := rfl

theorem run_requireGroup (groupId : Int) :
    ∃ r, (requireGroup groupId).run sqlite ⟨d, none⟩ = (r, ⟨d, none⟩) ∧
      ∀ g, r = .ok g → g ∈ d.groups ∧ g.id = groupId := by
  rw [requireGroup, Prog.run_bind, run_getGroup]
  refine ⟨_, run_ofOption _ _ _, fun g hg => Table.find_eq_some.mp ?_⟩
  cases hf : d.groups.find groupId with
  | none => rw [hf] at hg; cases hg
  | some g' => rw [hf] at hg; cases hg; rfl

theorem run_requireAccount (userId : Int) :
    ∃ r, (requireAccount userId).run sqlite ⟨d, none⟩ = (r, ⟨d, none⟩) := by
  rw [requireAccount, Prog.run_bind, run_getUser]
  exact ⟨_, run_ofOption _ _ _⟩

theorem run_requireAccounts (userIds : List Int) :
    ∃ r, (requireAccounts userIds).run sqlite ⟨d, none⟩ = (r, ⟨d, none⟩) := by
  induction userIds with
  | nil => exact ⟨_, rfl⟩
  | cons userId userIds ih =>
    obtain ⟨r, hr⟩ := run_requireAccount d userId
    rw [requireAccounts, Prog.run_bind, hr]
    cases r with
    | error e => exact ⟨_, rfl⟩
    | ok u => exact ih

theorem settled_createGroup (payload : GroupWrite) :
    Settled d (.createGroup payload) (createGroup payload) := by
  rw [createGroup]
  rcases run_createGroup d payload.name payload.description payload.role.str with
    ⟨e, w, hr⟩ | ⟨g, d', hi, hr⟩
  · exact settled_of_run d hr (.inl rfl)
  · exact settled_of_run d hr (.inr (.createGroup hi))

theorem settled_updateGroup (groupId : Int) (payload : GroupWrite) :
    Settled d (.updateGroup groupId payload) (updateGroup groupId payload) := by
  obtain ⟨r, hr, hm⟩ := run_requireGroup d groupId
  refine settled_bind d hr fun g hrg => ?_
  obtain ⟨hg, rfl⟩ := hm g hrg
  rcases run_updateGroup d hg payload.name payload.description payload.role.str with
    ⟨e, w, hr⟩ | ⟨d', hi, r, w, hr⟩
  · exact settled_of_run d hr (.inl rfl)
  · exact settled_of_run d hr (.inr (.updateGroup hg hi))

theorem settled_deleteGroup (groupId : Int) :
    Settled d (.deleteGroup groupId) (deleteGroup groupId) := by
  obtain ⟨r, hr, hm⟩ := run_requireGroup d groupId
  refine settled_bind d hr fun g hrg => ?_
  obtain ⟨hg, rfl⟩ := hm g hrg
  exact settled_of_run d (run_deleteGroup d g) (.inr (.deleteGroup hg))

theorem settled_addUsersToGroup (groupId : Int) (userIds : List Int) :
    Settled d (.addUsersToGroup groupId userIds) (addUsersToGroup groupId userIds) := by
  obtain ⟨r, hr, -⟩ := run_requireGroup d groupId
  obtain ⟨r', hr'⟩ := run_requireAccounts d userIds
  refine settled_bind d hr fun _ _ => settled_bind d hr' fun _ _ => ?_
  exact settled_of_run d (run_addUsersToGroup d groupId userIds) (.inr (.addUsersToGroup ..))

theorem settled_addUserToGroup (groupId userId : Int) :
    Settled d (.addUserToGroup groupId userId) (addUserToGroup groupId userId) := by
  obtain ⟨r, hr, -⟩ := run_requireGroup d groupId
  obtain ⟨r', hr'⟩ := run_requireAccount d userId
  refine settled_bind d hr fun _ _ => settled_bind d hr' fun _ _ => ?_
  exact settled_of_run d (run_addUserToGroup d groupId userId) (.inr (.addUserToGroup ..))

theorem settled_removeUserFromGroup (groupId userId : Int) :
    Settled d (.removeUserFromGroup groupId userId) (removeUserFromGroup groupId userId) := by
  obtain ⟨r, hr, -⟩ := run_requireGroup d groupId
  refine settled_bind d hr fun _ _ => ?_
  exact settled_of_run d (run_removeUserFromGroup d groupId userId)
    (.inr (.removeUserFromGroup ..))

/-- A handler leaves the rows alone, or does what `Done` says. -/
theorem settled_handle (admin : SessionUser) (req : Request) : Settled d req (req.handle admin) := by
  cases req with
  | createUser payload hash => exact settled_void d (settled_createUser d payload hash)
  | deleteUser userId => exact settled_deleteUser d admin userId
  | setUserStatus userId isActive =>
    exact settled_void d (settled_setUserStatus d admin userId isActive)
  | createGroup payload => exact settled_void d (settled_createGroup d payload)
  | updateGroup groupId payload => exact settled_void d (settled_updateGroup d groupId payload)
  | deleteGroup groupId => exact settled_deleteGroup d groupId
  | addUsersToGroup groupId userIds => exact settled_addUsersToGroup d groupId userIds
  | addUserToGroup groupId userId => exact settled_addUserToGroup d groupId userId
  | removeUserFromGroup groupId userId => exact settled_removeUserFromGroup d groupId userId

end

/-! ## Whole requests -/

/-- The principal that a callback signs in, or not. -/
def oidcPrincipal (config : OidcSettings) (claims : Claims) : Option SessionUser :=
  if config.enabled then mapClaimsToUser config claims else none

section
variable {τ : Type} (env : Env τ) (now : Int) (d : Db)

/-- A request of a router commits nothing but the last use of a token, or it was
authorised and its handler did its work. -/
theorem serve_cases (cred : Credentials τ) (req : Request) :
    ∃ pats, Touched d.pats pats ∧
      ((session (req.serve env now cred) d).2 = { d with pats := pats } ∨
        Authorised env now cred d ∧
          Done { d with pats := pats } req (session (req.serve env now cred) d).2) := by
  obtain ⟨r, pats, ht, hr, -⟩ := run_requireAdmin env now cred d
  refine ⟨pats, ht, ?_⟩
  cases r with
  | error e =>
    have hrun : (req.serve env now cred).run sqlite ⟨d, none⟩ =
        (.error e, ⟨{ d with pats := pats }, none⟩) := by
      rw [Request.serve, Prog.run_bind, hr]
    rw [session_of_run hrun]
    exact .inl rfl
  | ok admin =>
    have hrun : (req.serve env now cred).run sqlite ⟨d, none⟩ =
        (req.handle admin).run sqlite ⟨{ d with pats := pats }, none⟩ := by
      rw [Request.serve, Prog.run_bind, hr]
    rw [session_of_run hrun]
    rcases settled_handle { d with pats := pats } admin req with h | h
    · exact .inl h
    · refine .inr ⟨?_, h⟩
      rw [Authorised, session_of_run hr]
      rfl

/-- A local sign-in changes no row, and answers with the account it was for. -/
theorem login_cases (config : OidcSettings) (username password : Str) :
    ∃ r, session (login env config username password) d = (r, d) ∧
      ∀ p, r = .ok p →
        ∃ u ∈ d.users, u.username = username ∧ u.isActive = true ∧ p = sessionUser d u := by
  obtain ⟨r, hr, hm⟩ := run_authenticateLocal d env.verifyPassword username password
  by_cases ho : config.oidcOnly = true
  · refine ⟨.error (forbidden [lit "Local login is disabled"]), session_of_run (t := ⟨d, none⟩) ?_,
      fun p hp => by cases hp⟩
    rw [login, Prog.run_raiseIf_bind, if_pos ho]
  have hrun : (login env config username password).run sqlite ⟨d, none⟩ =
      (r.bind fun o => o.elim (.error (unauthorized "Invalid username or password")) .ok,
        ⟨d, none⟩) := by
    rw [login, Prog.run_raiseIf_bind, if_neg ho, Prog.run_bind, hr]
    cases r with
    | error e => rfl
    | ok o => exact run_ofOption _ _ o
  refine ⟨_, session_of_run hrun, fun p hp => hm p ?_⟩
  cases r with
  | error e => cases hp
  | ok o =>
    cases o with
    | none => cases hp
    | some q => cases hp; rfl

/-- An OIDC sign-in is refused and changes no row, or signs in the account with
the name in the claims: a new one, or the active OIDC account that has it. -/
theorem oidcCallback_cases (config : OidcSettings) (claims : Claims) :
    (∃ r, session (oidcCallback config claims) d = (r, d) ∧ ∀ p, r ≠ .ok (some p)) ∨
    ∃ principal, oidcPrincipal config claims = some principal ∧
      ((∃ u d', d.insertUser principal.username principal.displayName principal.role.str
          "oidc".toList none = some (u, d') ∧
          session (oidcCallback config claims) d = (.ok (some (sessionUser d' u)), d')) ∨
        ∃ u ∈ d.users, u.username = principal.username ∧ u.provider = "oidc".toList ∧
          u.isActive = true ∧
          session (oidcCallback config claims) d =
            (.ok (some (sessionUser (d.updateUser u.id (oidcSet principal))
              ((oidcSet principal).on u))), d.updateUser u.id (oidcSet principal))) := by
  by_cases he : config.enabled = false
  · refine .inl ⟨.error (notFound "OIDC endpoint" "callback".toList), session_of_run (t := ⟨d, none⟩)
      ?_, fun p hp => by cases hp⟩
    rw [oidcCallback, Prog.run_raiseIf_bind, if_pos he]
  cases hm : mapClaimsToUser config claims with
  | none =>
    refine .inl ⟨.ok none, session_of_run (t := ⟨d, none⟩) ?_, fun p hp => by cases hp⟩
    rw [oidcCallback, Prog.run_raiseIf_bind, if_neg he, hm]
    rfl
  | some principal =>
    have hrun : (oidcCallback config claims).run sqlite ⟨d, none⟩ =
        (upsertOidcUser principal >>= fun p => (return some p : Query _)).run sqlite ⟨d, none⟩ := by
      rw [oidcCallback, Prog.run_raiseIf_bind, if_neg he, hm]
    have hp : oidcPrincipal config claims = some principal := by
      rw [oidcPrincipal, if_pos (by simpa using he), hm]
    rw [Prog.run_bind] at hrun
    rcases run_upsertOidcUser d principal with ⟨e, w, hr⟩ | ⟨u, d', hi, hr⟩ | ⟨u, hu, hn, ho, ha, hr⟩
    · rw [hr] at hrun
      exact .inl ⟨_, session_of_run hrun, fun p hp => by cases hp⟩
    · rw [hr] at hrun
      exact .inr ⟨principal, hp, .inl ⟨u, d', hi, session_of_run hrun⟩⟩
    · rw [hr] at hrun
      exact .inr ⟨principal, hp, .inr ⟨u, hu, hn, ho, ha, session_of_run hrun⟩⟩

end

end MailserverUi.L4.RequestsSpec
