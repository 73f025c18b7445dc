import MailserverUi.L3Service.References
import MailserverUi.L4App.Audited
import MailserverUi.L4App.Statements

/-!
# The names that the handlers record

What an entry names is the principal, the account or the token it was about, or
the recipients of a test message. The request schemas bound the names that
accounts and tokens get, and nothing bounds those that an identity provider
asserts, nor a list of recipients.

`Bounded` is the triple of a session for the names in the rows; there is one lemma
for each function, and for each handler what it hands to `record`.

Results:
* `bounded_execute`: a statement keeps the names short and answers with short ones.
* `bounded_userCall`: every entry of a handler of accounts and tokens is short.
* `bounded_oidcCallback`, `bounded_testMail`: so are those of a sign-in and of a
  test message, where the name, or the list, is.
-/
namespace MailserverUi.L4.RecordedNames

open Py L2.Errors L2.Database L3 Auth GroupService UserService Oidc AccountSpec References
open AuditService MailService SettingsService Requests Statements Audited

/-! ## Statements -/

/-- Every account and token has a name that the schemas accept. -/
structure ShortNames (d : Db) : Prop where
  users : ∀ u ∈ d.users, u.username.length ≤ 255
  pats : ∀ p ∈ d.pats, p.name.length ≤ 255

/-- The names that a statement inserts. -/
def Short : Sql → Prop
  | .insertUser username .. => username.length ≤ 255
  | .insertPat _ name .. => name.length ≤ 255
  | _ => True

/-- The names in a reply. -/
def ShortReply : (c : Sql) → Reply c → Prop
  | .userById _, r => ∀ u ∈ r, u.username.length ≤ 255
  | .userByName username, r => ∀ u ∈ r, u.username = username ∧ u.username.length ≤ 255
  | .insertUser .., r => ∀ u ∈ r, u.username.length ≤ 255
  | .patById _, r => ∀ p ∈ r, p.name.length ≤ 255
  | _, _ => True

section
variable {d : Db}

theorem ShortNames.of_rows {d' : Db} (h : ShortNames d) (hu : d'.users = d.users)
    (hp : ∀ p ∈ d'.pats, p ∈ d.pats) : ShortNames d' :=
  ⟨fun u hm => h.users u (hu ▸ hm), fun p hm => h.pats p (hp p hm)⟩

theorem shortNames_insertUser {username displayName role provider : Str} {hash : Option Str}
    {u : UserRow} {d' : Db}
    (hi : d.insertUser username displayName role provider hash = some (u, d'))
    (hn : username.length ≤ 255) (h : ShortNames d) : ShortNames d' := by
  obtain ⟨rfl, hmem, -, -⟩ := insertUser_spec hi
  refine ⟨fun v hv => ?_, fun p hp => h.pats p (pats_insertUser hi ▸ hp)⟩
  rcases (hmem v).mp hv with hv | rfl
  · exact h.users v hv
  · exact hn

theorem shortNames_insertPat {userId : Int} {name hint hash : Str} {createdAt : Int}
    {exp : Option Int} {p : PatRow} {d' : Db}
    (hi : d.insertPat userId name hint hash createdAt exp = some (p, d'))
    (hn : name.length ≤ 255) (h : ShortNames d) : ShortNames d' := by
  obtain ⟨rfl, hmem, hu, -, -⟩ := mem_insertPat hi
  refine ⟨fun u hm => h.users u (hu ▸ hm), fun q hq => ?_⟩
  rcases (hmem q).mp hq with hq | rfl
  · exact h.pats q hq
  · exact hn

theorem shortNames_exec {c : Sql} (hc : Short c) (h : ShortNames d) : ShortNames (c.exec d).2 := by
  cases c with
  | insertUser username displayName role provider hash =>
    simp only [Sql.exec]
    cases hi : d.insertUser username displayName role provider hash with
    | none => exact h
    | some r => exact shortNames_insertUser hi hc h
  | insertPat userId name hint hash createdAt exp =>
    simp only [Sql.exec]
    cases hi : d.insertPat userId name hint hash createdAt exp with
    | none => exact h
    | some r => exact shortNames_insertPat hi hc h
  | updateUser id set =>
    refine ⟨fun v hv => ?_, h.pats⟩
    obtain ⟨u, hu, rfl⟩ := mem_updateUser.mp hv
    split
    · exact h.users u hu
    · exact h.users u hu
  | deleteUser id => exact ⟨fun u hu => h.users u (Table.mem_filter.mp hu).1, h.pats⟩
  | insertGroup name description role =>
    simp only [Sql.exec]
    cases hi : d.insertGroup name description role with
    | none => exact h
    | some r =>
      obtain ⟨t, -, he⟩ := Option.map_eq_some_iff.mp hi
      cases he
      exact h.of_rows rfl fun p hp => hp
  | updateGroup id name description role =>
    simp only [Sql.exec]
    cases hi : d.updateGroup id name description role with
    | none => exact h
    | some d' =>
      obtain ⟨t, -, rfl⟩ := Option.map_eq_some_iff.mp hi
      exact h.of_rows rfl fun p hp => hp
  | insertLink userId groupId =>
    simp only [Sql.exec, Db.insertLink]
    split
    · exact h
    · exact h.of_rows rfl fun p hp => hp
  | deletePat id => exact h.of_rows rfl fun p hp => (Table.mem_filter.mp hp).1
  | deletePats userId => exact h.of_rows rfl fun p hp => (Table.mem_filter.mp hp).1
  | touchPat id lastUsedAt =>
    refine ⟨h.users, fun p hp => ?_⟩
    obtain ⟨q, hq, rfl⟩ := mem_touchPat.mp hp
    split
    · exact h.pats q hq
    · exact h.pats q hq
  | _ => exact h.of_rows rfl fun p hp => hp

theorem shortReply_exec {c : Sql} (hc : Short c) (h : ShortNames d) :
    ShortReply c (c.exec d).1 := by
  cases c with
  | userById id => exact fun u hu => h.users u (Table.find_eq_some.mp hu).1
  | userByName username =>
    intro u hu
    obtain ⟨hm, hn⟩ := Table.findKey_eq_some.mp hu
    exact ⟨hn, h.users u hm⟩
  | insertUser username displayName role provider hash =>
    intro u hu
    simp only [Sql.exec] at hu
    cases hi : d.insertUser username displayName role provider hash with
    | none =>
      rw [hi] at hu
      cases hu
    | some r =>
      rw [hi] at hu
      cases hu
      exact (insertUser_spec hi).1 ▸ hc
  | patById id => exact fun p hp => h.pats p (Table.find_eq_some.mp hp).1
  | _ => trivial

end

/-! ## Sessions -/

/-- The names stay short, and what is returned is as `Q` says. -/
def Bounded {α : Type} (q : Query α) (Q : α → Prop) : Prop :=
  q.Yields statements Sql.kind ShortNames Q

section
variable {α β : Type}

theorem bounded_execute {c : Sql} (hc : Short c) : Bounded (execute c) (ShortReply c) :=
  Prog.yields_request fun _ hv => ⟨shortNames_exec hc hv, shortReply_exec hc hv⟩

theorem short_of_quiet {c : Sql} (h : Quiet c) : Short c := by
  cases c <;> trivial

/-- What the answer is does not matter. -/
theorem bounded_issues {q : Query α} (h : q.Issues Short) : Bounded q fun _ => True :=
  h.yields fun _ _ hc hv => shortNames_exec hc hv

theorem bounded_quiet {q : Query α} (h : q.Issues Quiet) : Bounded q fun _ => True :=
  bounded_issues (h.mono fun _ => short_of_quiet)

theorem bounded_bind {q : Query α} {f : α → Query β} {P : α → Prop} {Q : β → Prop}
    (hq : Bounded q P) (hf : ∀ a, P a → Bounded (f a) Q) : Bounded (q >>= f) Q :=
  Prog.yields_bind hq hf

theorem bounded_pure {a : α} {Q : α → Prop} (h : Q a) : Bounded (.pure a) Q := Prog.yields_pure h

theorem bounded_raiseIf {b : Prop} [Decidable b] {e : ApiError} :
    Bounded (Prog.raiseIf b e) fun _ => ¬ b := Prog.yields_raiseIf

theorem bounded_ofOption {e : ApiError} {o : Option α} {P : α → Prop} (h : ∀ a ∈ o, P a) :
    Bounded (Prog.ofOption e o) P :=
  Prog.yields_mono Prog.yields_ofOption h

end

/-! ## Accounts -/

/-- The row has a short name. -/
abbrev ShortUser (u : UserRow) : Prop := u.username.length ≤ 255

abbrev ShortPrincipal (p : SessionUser) : Prop := p.username.length ≤ 255

theorem bounded_getUser (userId : Int) : Bounded (getUser userId) fun o => ∀ u ∈ o, ShortUser u :=
  bounded_execute (c := .userById userId) trivial

theorem bounded_getByUsername (username : Str) : Bounded (getByUsername username)
    fun o => ∀ u ∈ o, u.username = username ∧ ShortUser u :=
  bounded_execute (c := .userByName username) trivial

theorem bounded_refresh (id : Int) : Bounded (refresh id) ShortUser :=
  bounded_bind (bounded_getUser id) fun _ h => bounded_ofOption h

theorem bounded_commit : Bounded commit fun _ => True := bounded_execute (c := .commit) trivial

theorem bounded_save (id : Int) (set : UserSet) : Bounded (save id set) fun _ => True :=
  bounded_bind (bounded_execute (c := .updateUser id set) trivial) fun _ _ =>
    bounded_bind bounded_raiseIf fun _ _ => bounded_commit

theorem bounded_saveNew {username displayName role provider : Str} {hash : Option Str}
    (h : username.length ≤ 255) :
    Bounded (saveNew username displayName role provider hash) ShortUser := by
  refine bounded_bind (bounded_execute (c := .insertUser ..) h) fun o ho => ?_
  refine bounded_bind (bounded_ofOption (P := ShortUser) ho) fun u _ => ?_
  exact bounded_bind bounded_commit fun _ _ => bounded_refresh u.id

theorem bounded_toSessionUser {u : UserRow} (h : ShortUser u) :
    Bounded (toSessionUser u) ShortPrincipal :=
  bounded_bind (bounded_quiet (quiet_resolveRole u)) fun _ _ => bounded_pure h

theorem bounded_toPublic (u : UserRow) : Bounded (toPublic u) fun _ => True :=
  bounded_quiet (quiet_toPublic u)

theorem bounded_createLocalUser {username displayName : Str} {hash : Option Str}
    (h : username.length ≤ 255) :
    Bounded (createLocalUser username displayName hash) ShortUser := by
  refine bounded_bind bounded_raiseIf fun _ _ => ?_
  refine bounded_bind (bounded_getByUsername _) fun _ _ => ?_
  refine bounded_bind bounded_raiseIf fun _ _ => ?_
  refine bounded_bind (bounded_ofOption (P := fun _ => True) fun _ _ => trivial) fun _ _ => ?_
  exact bounded_saveNew ((length_strip_le username).trans h)

theorem bounded_setActive (u : UserRow) (isActive : Bool) :
    Bounded (setActive u isActive) ShortUser := by
  refine bounded_bind (bounded_quiet (quiet_locksOut u isActive)) fun _ _ => ?_
  refine bounded_bind bounded_raiseIf fun _ _ => ?_
  exact bounded_bind (bounded_save _ _) fun _ _ => bounded_refresh u.id

theorem bounded_setPassword (u : UserRow) (hash : Option Str) :
    Bounded (setPassword u hash) ShortUser := by
  refine bounded_bind (bounded_ofOption (P := fun _ => True) fun _ _ => trivial) fun _ _ => ?_
  exact bounded_bind (bounded_save _ _) fun _ _ => bounded_refresh u.id

/-- The account that is changed has the name that was given. -/
theorem bounded_changeOwnPassword (verifyPassword : Str → Str → Bool)
    (username currentPassword newPassword : Str) (hash : Option Str) :
    Bounded (UserService.changeOwnPassword verifyPassword username currentPassword newPassword
      hash) fun _ => username.length ≤ 255 := by
  refine bounded_bind (bounded_getByUsername username) fun o ho => ?_
  refine bounded_bind (bounded_ofOption ho) fun u hu => ?_
  refine bounded_bind bounded_raiseIf fun _ _ => ?_
  refine bounded_bind bounded_raiseIf fun _ _ => ?_
  refine bounded_bind bounded_raiseIf fun _ _ => ?_
  exact Prog.yields_mono (bounded_setPassword u hash) fun _ _ => hu.1 ▸ hu.2

theorem bounded_deleteUser (u : UserRow) : Bounded (UserService.deleteUser u) fun _ => True := by
  refine bounded_bind (bounded_execute (c := .deleteMemberships u.id) trivial) fun _ _ => ?_
  refine bounded_bind (bounded_execute (c := .deletePats u.id) trivial) fun _ _ => ?_
  refine bounded_bind (bounded_execute (c := .deleteUser u.id) trivial) fun _ _ => ?_
  exact bounded_commit

theorem bounded_authenticateLocal (verifyPassword : Str → Str → Bool) (username password : Str) :
    Bounded (authenticateLocal verifyPassword username password)
      fun o => ∀ p ∈ o, ShortPrincipal p := by
  refine bounded_bind (bounded_getByUsername username) fun o ho => ?_
  cases o with
  | none => exact bounded_pure fun p hp => by cases hp
  | some u =>
    have hnone : Bounded (.pure none) fun o : Option SessionUser => ∀ p ∈ o, ShortPrincipal p :=
      bounded_pure fun p hp => by cases hp
    simp only
    split
    · exact hnone
    split
    · exact hnone
    split
    · exact hnone
    refine bounded_bind (bounded_save u.id {}) fun _ _ => ?_
    refine bounded_bind (bounded_toSessionUser (ho u rfl).2) fun p hp => bounded_pure ?_
    intro q hq
    cases hq
    exact hp

theorem bounded_upsertOidcUser {principal : SessionUser} (h : ShortPrincipal principal) :
    Bounded (upsertOidcUser principal) ShortPrincipal := by
  refine bounded_bind (bounded_getByUsername principal.username) fun o ho => ?_
  cases o with
  | none =>
    exact bounded_bind (bounded_saveNew h) fun u hu => bounded_toSessionUser hu
  | some u =>
    refine bounded_bind bounded_raiseIf fun _ _ => ?_
    refine bounded_bind bounded_raiseIf fun _ _ => ?_
    refine bounded_bind (bounded_save _ _) fun _ _ => ?_
    exact bounded_bind (bounded_refresh u.id) fun v hv => bounded_toSessionUser hv

/-! ## Who is asking -/

section
variable {τ : Type} (env : Env τ) (now : Int) (cred : Credentials τ)

theorem bounded_principal {o : Option UserRow} (h : ∀ u ∈ o, ShortUser u) :
    Bounded (principal o) fun o => ∀ p ∈ o, ShortPrincipal p := by
  cases o with
  | none => exact bounded_pure fun p hp => by cases hp
  | some u =>
    simp only [principal]
    split
    · refine bounded_bind (bounded_toSessionUser (h u rfl)) fun p hp => bounded_pure ?_
      intro q hq
      cases hq
      exact hp
    · exact bounded_pure fun p hp => by cases hp

theorem bounded_authenticate (digest : Str → Str) (raw : Str) :
    Bounded (PatService.authenticate digest now raw) fun o => ∀ u ∈ o, ShortUser u := by
  have hnone : Bounded (.pure none) fun o : Option UserRow => ∀ u ∈ o, ShortUser u :=
    bounded_pure fun u hu => by cases hu
  unfold PatService.authenticate
  simp only
  split
  · exact hnone
  refine bounded_bind (bounded_execute (c := .patByHash _) trivial) fun o _ => ?_
  cases o with
  | none => exact hnone
  | some pat =>
    simp only
    split
    · exact hnone
    refine bounded_bind (bounded_execute (c := .userById _) trivial) fun o ho => ?_
    cases o with
    | none => exact hnone
    | some u =>
      refine bounded_bind (bounded_quiet (quiet_touchLastUsed pat now)) fun _ _ => ?_
      exact bounded_pure ho

theorem bounded_currentUserOptional :
    Bounded (currentUserOptional env now cred) fun o => ∀ p ∈ o, ShortPrincipal p := by
  unfold currentUserOptional
  split
  · exact bounded_bind (bounded_getByUsername _) fun o ho =>
      bounded_principal fun u hu => (ho u hu).2
  · split
    · exact bounded_pure fun p hp => by cases hp
    · exact bounded_bind (bounded_authenticate now _ _) fun o ho => bounded_principal ho

theorem bounded_requireUser : Bounded (requireUser env now cred) ShortPrincipal :=
  bounded_bind (bounded_currentUserOptional env now cred) fun _ ho => bounded_ofOption ho

theorem bounded_requireAdmin : Bounded (requireAdmin env now cred) ShortPrincipal :=
  bounded_bind (bounded_requireUser env now cred) fun _ hp =>
    bounded_bind bounded_raiseIf fun _ _ => bounded_pure hp

/-- The account of the principal has its name. -/
theorem bounded_ownAccount (user : SessionUser) :
    Bounded (ownAccount user) fun _ => ShortPrincipal user := by
  refine bounded_bind (bounded_getByUsername user.username) fun o ho => ?_
  refine bounded_ofOption fun u hu => ?_
  obtain ⟨hn, h⟩ := ho u hu
  rw [ShortUser, hn] at h
  exact h

end

/-! ## Handlers -/

/-- An entry that names nobody at length. -/
structure ShortEntry (e : Entry) : Prop where
  actor : e.actor.length ≤ 255
  action : e.action.toList.length ≤ 64
  target : e.target.length ≤ 255

/-- What is recorded is short, and the answer keeps the names so. -/
structure ShortEnding {α : Type} (e : Ending α) : Prop where
  entry : ∀ x ∈ e.entry, ShortEntry x
  answer : ∀ loaded, Bounded (e.answer loaded) fun _ => True

theorem shortEnding_of {α : Type} {entry : Entry} {answer : Bool → Query α}
    (he : ShortEntry entry) (ha : ∀ loaded, Bounded (answer loaded) fun _ => True) :
    ShortEnding ⟨some entry, answer⟩ := by
  refine ⟨fun x hx => ?_, ha⟩
  cases hx
  exact he

theorem bounded_whileLoaded {α : Type} {q : Query α} (h : Bounded q fun _ => True)
    (loaded : Bool) : Bounded (whileLoaded loaded q) fun _ => True := by
  unfold whileLoaded
  split
  · exact h
  · exact Prog.yields_raise

theorem bounded_any {α : Type} (a : α) : Bounded (.pure a) fun _ => True := bounded_pure trivial

theorem ShortEnding.map {α β : Type} {e : Ending α} (h : ShortEnding e) (f : α → β) :
    ShortEnding (e.map f) :=
  ⟨h.entry, fun loaded => bounded_bind (h.answer loaded) fun _ _ => bounded_any _⟩

theorem bounded_answering {α : Type} {f : α → Body} {h : Query (Ending α)}
    (hb : Bounded h ShortEnding) : Bounded (answering f h) ShortEnding :=
  bounded_bind hb fun _ he => bounded_pure (he.map f)

section
variable {user : SessionUser}

theorem bounded_createUser (hu : ShortPrincipal user) (payload : UserCreate) (hash : Option Str) :
    Bounded (Audited.createUser user payload hash) ShortEnding := by
  refine bounded_bind (bounded_createLocalUser payload.username_length.2) fun u h => ?_
  exact bounded_pure (shortEnding_of ⟨hu, by simp, h⟩ (bounded_whileLoaded (bounded_toPublic u)))

theorem bounded_changeOwn (verifyPassword : Str → Str → Bool) (user : SessionUser)
    (payload : SelfPasswordChangeRequest) (hash : Option Str) :
    Bounded (Audited.changeOwnPassword verifyPassword user payload hash) ShortEnding := by
  refine bounded_bind (bounded_changeOwnPassword _ _ _ _ _) fun u h => ?_
  exact bounded_pure (shortEnding_of ⟨h, by simp, h⟩ (bounded_whileLoaded (bounded_toPublic u)))

/-- `get_user`, or 404. -/
theorem bounded_found {α : Type} {userId : Int} {f : UserRow → Query α} {Q : α → Prop}
    (hf : ∀ u, ShortUser u → Bounded (f u) Q) :
    Bounded (getUser userId >>= fun o =>
      Prog.ofOption (notFound "User" (idText userId)) o >>= f) Q :=
  bounded_bind (bounded_getUser userId) fun _ ho => bounded_bind (bounded_ofOption ho) hf

theorem bounded_deleteAccount (hu : ShortPrincipal user) (userId : Int) :
    Bounded (Audited.deleteUser user userId) ShortEnding := by
  refine bounded_found fun u h => ?_
  refine bounded_bind bounded_raiseIf fun _ _ => ?_
  refine bounded_bind (bounded_quiet (quiet_isLastAdmin u)) fun _ _ => ?_
  refine bounded_bind bounded_raiseIf fun _ _ => ?_
  refine bounded_bind (bounded_deleteUser u) fun _ _ => ?_
  exact bounded_pure (shortEnding_of ⟨hu, by simp, h⟩ fun _ => bounded_any ())

theorem bounded_setUserStatus (hu : ShortPrincipal user) (userId : Int) (isActive : Bool) :
    Bounded (Audited.setUserStatus user userId isActive) ShortEnding := by
  refine bounded_found fun u _ => ?_
  refine bounded_bind bounded_raiseIf fun _ _ => ?_
  refine bounded_bind (bounded_setActive u isActive) fun v h => ?_
  refine bounded_pure (shortEnding_of ⟨hu, ?_, h⟩ (bounded_whileLoaded (bounded_toPublic v)))
  cases isActive <;> simp

theorem bounded_changePassword (hu : ShortPrincipal user) (userId : Int)
    (payload : PasswordChangeRequest) (hash : Option Str) :
    Bounded (Audited.changePassword user userId payload hash) ShortEnding := by
  refine bounded_found fun u _ => ?_
  refine bounded_bind bounded_raiseIf fun _ _ => ?_
  refine bounded_bind (bounded_setPassword u hash) fun v h => ?_
  exact bounded_pure (shortEnding_of ⟨hu, by simp, h⟩ (bounded_whileLoaded (bounded_toPublic v)))

theorem bounded_createPat {digest : Str → Str} {patMaxPerUser now : Int}
    {secret : PatService.Secret} {account : UserRow} {payload : PatService.PatCreate} :
    Bounded (PatService.create digest patMaxPerUser now secret account payload.name
      payload.expiresInDays) fun r => r.1.name.length ≤ 255 := by
  have hname : (strip payload.name).length ≤ 255 :=
    (length_strip_le _).trans payload.name_length.2
  refine bounded_bind bounded_raiseIf fun _ _ => ?_
  refine bounded_bind (bounded_execute (c := .patsOfUser account.id) trivial) fun _ _ => ?_
  refine bounded_bind bounded_raiseIf fun _ _ => ?_
  refine bounded_bind (bounded_execute (c := .insertPat ..) hname) fun _ _ => ?_
  refine bounded_bind (bounded_ofOption (P := fun _ => True) fun _ _ => trivial) fun p _ => ?_
  refine bounded_bind bounded_commit fun _ _ => ?_
  refine bounded_bind (P := fun p : PatRow => p.name.length ≤ 255) ?_ fun _ h => bounded_pure h
  exact bounded_bind (bounded_execute (c := .patById p.id) trivial) fun _ ho => bounded_ofOption ho

theorem bounded_createOwnPat (digest : Str → Str) (showTime : Int → Str) (patMaxPerUser now : Int)
    (secret : PatService.Secret) (user : SessionUser) (payload : PatService.PatCreate) :
    Bounded (Audited.createOwnPat digest showTime patMaxPerUser now secret user payload)
      ShortEnding := by
  refine bounded_bind (bounded_ownAccount user) fun account hu => ?_
  refine bounded_bind bounded_createPat fun r h => ?_
  refine bounded_pure (shortEnding_of ⟨hu, by simp, h⟩ (bounded_whileLoaded ?_))
  exact bounded_ofOption fun _ _ => trivial

theorem bounded_revokeOwnPat (user : SessionUser) (patId : Int) :
    Bounded (Audited.revokeOwnPat user patId) ShortEnding := by
  refine bounded_bind (bounded_ownAccount user) fun account hu => ?_
  have hget : Bounded (PatService.getForUser patId account.id)
      fun o => ∀ p ∈ o, p.name.length ≤ 255 := by
    refine bounded_bind (bounded_execute (c := .patById patId) trivial) fun o ho => ?_
    exact bounded_pure fun p hp => ho p (Option.mem_filter_iff.mp hp).1
  refine bounded_bind hget fun o ho => ?_
  refine bounded_bind (bounded_ofOption ho) fun p h => ?_
  have hdelete : Bounded (PatService.deletePat p) fun _ => True :=
    bounded_bind (bounded_execute (c := .deletePat p.id) trivial) fun _ _ => bounded_commit
  refine bounded_bind hdelete fun _ _ => ?_
  exact bounded_pure (shortEnding_of ⟨hu, by simp, h⟩ fun _ => bounded_any ())

end

/-- What the endpoints of accounts and tokens record is short. -/
theorem bounded_userCall {τ : Type} (env : Env τ) (showTime : Int → Str) (patMaxPerUser now : Int)
    (cred : Credentials τ) (elapsed : Nat) (call : UserCall) :
    Bounded (call.principal env now cred elapsed >>= fun user =>
      call.handle env showTime patMaxPerUser now user) ShortEnding := by
  have hadmin := bounded_requireAdmin env now cred
  have hsession : Bounded (requireSessionLogin env now cred elapsed) fun _ => True :=
    bounded_quiet (quiet_requireSessionLogin env now cred elapsed)
  cases call with
  | createUser payload hash =>
    exact bounded_bind hadmin fun _ hu => bounded_answering (bounded_createUser hu payload hash)
  | changeOwnPassword payload hash =>
    exact bounded_bind (bounded_requireUser env now cred) fun user _ =>
      bounded_answering (bounded_changeOwn _ user payload hash)
  | createOwnPat secret payload =>
    exact bounded_bind hsession fun user _ =>
      bounded_answering (bounded_createOwnPat _ _ _ _ secret user payload)
  | revokeOwnPat patId =>
    exact bounded_bind hsession fun user _ => bounded_answering (bounded_revokeOwnPat user patId)
  | deleteUser userId =>
    exact bounded_bind hadmin fun _ hu => bounded_answering (bounded_deleteAccount hu userId)
  | setUserStatus userId isActive =>
    exact bounded_bind hadmin fun _ hu =>
      bounded_answering (bounded_setUserStatus hu userId isActive)
  | changePassword userId payload hash =>
    exact bounded_bind hadmin fun _ hu =>
      bounded_answering (bounded_changePassword hu userId payload hash)

/-! ### Sign-ins and settings -/

theorem bounded_login (verifyPassword : Str → Str → Bool) (config : OidcSettings)
    (payload : LoginRequest) :
    Bounded (Audited.login verifyPassword config payload) ShortEnding := by
  have hlong := payload.username_length.2
  refine bounded_bind bounded_raiseIf fun _ _ => ?_
  refine bounded_bind (bounded_authenticateLocal _ _ _) fun o ho => ?_
  cases o with
  | none =>
    exact bounded_pure (shortEnding_of ⟨hlong, by simp, hlong⟩ fun _ => Prog.yields_raise)
  | some p =>
    have hp := ho p rfl
    exact bounded_pure (shortEnding_of ⟨hp, by simp, hp⟩ fun _ => bounded_any p)

theorem bounded_logout {user : SessionUser} (hu : ShortPrincipal user) :
    Bounded (Audited.logout user) ShortEnding :=
  bounded_pure (shortEnding_of ⟨hu, by simp, hu⟩ fun _ => bounded_any ())

/-- Where the name that the provider asserts is short. -/
theorem bounded_oidcCallback {config : OidcSettings} {claims : Claims}
    (h : ∀ p ∈ mapClaimsToUser config claims, config.enabled = true → ShortPrincipal p) :
    Bounded (Audited.oidcCallback config claims) ShortEnding := by
  refine bounded_bind bounded_raiseIf fun _ he => ?_
  cases hm : mapClaimsToUser config claims with
  | none => exact bounded_pure ⟨fun x hx => (by cases hx), fun _ => bounded_any none⟩
  | some principal =>
    have hp := h principal hm (by simpa using he)
    refine bounded_bind (Prog.yields_attempt (bounded_upsertOidcUser hp)) fun r hr => ?_
    cases r with
    | error exc =>
      refine bounded_bind (bounded_ofOption (P := fun _ => True) fun _ _ => trivial) fun _ _ => ?_
      exact bounded_pure (shortEnding_of ⟨hp, by simp, hp⟩ fun _ => bounded_any none)
    | ok user =>
      have hu := hr user rfl
      exact bounded_pure (shortEnding_of ⟨hu, by simp, hu⟩ fun _ => bounded_any (some user))

section
variable {admin : SessionUser}

theorem bounded_updateOidc (ha : ShortPrincipal admin) (payload : OidcConfig) :
    Bounded (Audited.updateOidc admin payload) ShortEnding := by
  have hupdate : Bounded (updateOidcSettings payload) fun _ => True :=
    bounded_bind bounded_raiseIf fun _ _ => bounded_any payload
  refine bounded_bind hupdate fun config _ => ?_
  exact bounded_pure (shortEnding_of ⟨ha, by simp, by simp⟩
    (bounded_whileLoaded (bounded_any config)))

theorem bounded_validateMail (payload : MailSettings) :
    Bounded (validateMail payload) fun _ => True := by
  unfold validateMail
  split
  · refine bounded_bind bounded_raiseIf fun _ _ => ?_
    refine bounded_bind bounded_raiseIf fun _ _ => ?_
    refine bounded_bind bounded_raiseIf fun _ _ => ?_
    exact Prog.yields_mono bounded_raiseIf fun _ _ => trivial
  · exact bounded_any ()

theorem bounded_updateMail (ha : ShortPrincipal admin) (payload : MailSettings) :
    Bounded (Audited.updateMail admin payload) ShortEnding := by
  have hupdate : Bounded (updateMailSettings payload) fun _ => True :=
    bounded_bind (bounded_validateMail payload) fun _ _ => bounded_any payload
  refine bounded_bind hupdate fun config _ => ?_
  exact bounded_pure (shortEnding_of ⟨ha, by simp, by simp⟩
    (bounded_whileLoaded (bounded_any config)))

/-- Where the recipients, joined, are short. -/
theorem bounded_testMail (ha : ShortPrincipal admin) (config : MailSettings)
    (payload : MailTestRequest) (delivery : Delivery) :
    Bounded (Audited.testMail config delivery admin payload) fun e =>
      ((joined (testRecipients config payload)).length ≤ 255 → ∀ x ∈ e.entry, ShortEntry x) ∧
        ∀ loaded, Bounded (e.answer loaded) fun _ => True := by
  unfold Audited.testMail
  simp only
  split
  · exact Prog.yields_raise
  · refine bounded_pure ⟨fun h x hx => ?_, fun _ => bounded_any _⟩
    cases hx
    exact ⟨ha, by simp, h⟩
  · refine bounded_pure ⟨fun h x hx => ?_, fun _ => bounded_any _⟩
    cases hx
    exact ⟨ha, by simp, h⟩

end

end MailserverUi.L4.RecordedNames
