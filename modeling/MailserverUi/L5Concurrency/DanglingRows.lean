import MailserverUi.Core.Stale
import MailserverUi.L3Service.References
import MailserverUi.L4App.Instance
import MailserverUi.L4App.Statements

/-!
# Concurrent creations and deletions

A request looks up the account or the group and inserts the row that refers to
it some statements later, and the cascade of a deletion runs once. SQLite lets
another session delete in between, and hands the id out again.

Results:
* `keeps_prog`: every request guarantees the references, where its inserts find
  what they refer to.
* `intact_of_timely`: so does every interleaving of such requests, and nothing
  refers to an account that is inserted.
* `timely_of_fresh`: an insert finds what it refers to where no deletion has been
  committed since its request began to look it up.
* `dangling`: a token can be inserted for an account that is gone.
-/
namespace MailserverUi.L5.DanglingRows

open Py L2.Errors L2.Database L3 Auth GroupService UserService Oidc AccountSpec References
open L4 Requests Statements Instance

/-! ## What a request guarantees -/

/-- An account is inserted where the references hold. -/
def FindsIntact : Sql → Db → Prop
  | .insertUser .., d => Intact d
  | _, _ => True

theorem findsIntact {d : Db} (h : Intact d) (c : Sql) : FindsIntact c d := by
  cases c with
  | insertUser => exact h
  | _ => trivial

theorem adds_of_quiet {c : Sql} (h : Quiet c) : Adds c := by
  cases c <;> trivial

/-- Where its inserts find what they refer to, a query keeps the references, and
inserts accounts where they hold. -/
def Guarantees {α : Type} (q : Query α) : Prop :=
  q.Keeps statements Sql.kind Intact Timely FindsIntact

/-- Statements that delete no account and no group keep the references one by one. -/
theorem keeps_adds {α : Type} {q : Query α} (h : q.Issues Adds) : Guarantees q :=
  h.keeps fun c _ hc hd ht => ⟨findsIntact hd c, intact_exec hc hd ht⟩

theorem keeps_quiet {α : Type} {q : Query α} (h : q.Issues Quiet) : Guarantees q :=
  keeps_adds (h.mono fun _ => adds_of_quiet)

theorem keeps_bind {α β : Type} {q : Query α} {f : α → Query β} (hq : Guarantees q)
    (hf : ∀ a, Guarantees (f a)) : Guarantees (q >>= f) :=
  Prog.Keeps.bind hq hf

theorem keeps_execute {c : Sql} (h : Adds c) : Guarantees (execute c) :=
  keeps_adds (Prog.issues_request h)

theorem keeps_ofOption {α : Type} {e : ApiError} {o : Option α} :
    Guarantees (Prog.ofOption e o : Query α) :=
  keeps_adds Prog.issues_ofOption

theorem keeps_raiseIf {b : Prop} [Decidable b] {e : ApiError} :
    Guarantees (Prog.raiseIf b e : Query Unit) :=
  keeps_adds Prog.issues_raiseIf

theorem keeps_pure {α : Type} (a : α) : Guarantees (Prog.pure a : Query α) := keeps_adds trivial

/-! ### Accounts -/

/-- The cascade and the deletion are one transaction. -/
theorem keeps_deleteRow (u : UserRow) : Guarantees (UserService.deleteUser u) := by
  intro w hw v hv _
  have h := intact_deleteUser (hw.of_sees hv) u.id
  refine ⟨trivial, fun hk => (by cases hk), fun v₁ hv₁ _ => ?_⟩
  cases hv₁
  refine ⟨trivial, fun hk => (by cases hk), fun v₂ hv₂ _ => ?_⟩
  cases hv₂
  refine ⟨trivial, fun hk => (by cases hk), fun v₃ hv₃ _ => ?_⟩
  cases hv₃
  exact ⟨trivial, fun _ => h, fun x hx => by cases hx⟩

theorem keeps_save {id : Int} {set : UserSet} : Guarantees (save id set) :=
  keeps_bind (keeps_execute trivial) fun _ =>
    keeps_bind keeps_raiseIf fun _ => keeps_execute trivial

theorem keeps_saveNew {username displayName role provider : Str} {hash : Option Str} :
    Guarantees (saveNew username displayName role provider hash) :=
  keeps_bind (keeps_execute trivial) fun _ => keeps_bind keeps_ofOption fun _ =>
    keeps_bind (keeps_execute trivial) fun _ => keeps_quiet (quiet_refresh _)

theorem keeps_createUser (payload : UserCreate) (hash : Option Str) :
    Guarantees (createUser payload hash) := by
  refine keeps_bind ?_ fun u => keeps_quiet (quiet_toPublic u)
  refine keeps_bind keeps_raiseIf fun _ => keeps_bind (keeps_execute trivial) fun existing => ?_
  exact keeps_bind keeps_raiseIf fun _ => keeps_bind keeps_ofOption fun _ => keeps_saveNew

theorem keeps_deleteUser (admin : SessionUser) (userId : Int) :
    Guarantees (deleteUser admin userId) := by
  refine keeps_bind (keeps_execute trivial) fun o => keeps_bind keeps_ofOption fun u => ?_
  refine keeps_bind keeps_raiseIf fun _ => ?_
  refine keeps_bind (keeps_quiet (quiet_isLastAdmin u)) fun last => ?_
  exact keeps_bind keeps_raiseIf fun _ => keeps_deleteRow u

theorem keeps_setUserStatus (admin : SessionUser) (userId : Int) (isActive : Bool) :
    Guarantees (setUserStatus admin userId isActive) := by
  refine keeps_bind (keeps_execute trivial) fun o => keeps_bind keeps_ofOption fun u => ?_
  refine keeps_bind keeps_raiseIf fun _ => ?_
  refine keeps_bind ?_ fun updated => keeps_quiet (quiet_toPublic updated)
  refine keeps_bind (keeps_quiet (quiet_locksOut u isActive)) fun last => ?_
  refine keeps_bind keeps_raiseIf fun _ => ?_
  exact keeps_bind keeps_save fun _ => keeps_quiet (quiet_refresh _)

theorem keeps_login {τ : Type} {env : Env τ} {config : OidcSettings} {username password : Str} :
    Guarantees (login env config username password) := by
  refine keeps_bind keeps_raiseIf fun _ => keeps_bind ?_ fun _ => keeps_ofOption
  refine keeps_bind (keeps_execute trivial) fun o => ?_
  split
  · exact keeps_pure _
  split
  · exact keeps_pure _
  split
  · exact keeps_pure _
  split
  · exact keeps_pure _
  · refine keeps_bind keeps_save fun _ => ?_
    exact keeps_bind (keeps_quiet (quiet_toSessionUser _)) fun _ => keeps_pure _

theorem keeps_oidcCallback {config : OidcSettings} {claims : Claims} :
    Guarantees (oidcCallback config claims) := by
  refine keeps_bind keeps_raiseIf fun _ => ?_
  split
  · exact keeps_pure _
  refine keeps_bind ?_ fun _ => keeps_pure _
  refine keeps_bind (keeps_execute trivial) fun o => ?_
  split
  · exact keeps_bind keeps_saveNew fun u => keeps_quiet (quiet_toSessionUser u)
  · refine keeps_bind keeps_raiseIf fun _ => keeps_bind keeps_raiseIf fun _ => ?_
    refine keeps_bind keeps_save fun _ => ?_
    exact keeps_bind (keeps_quiet (quiet_refresh _)) fun u => keeps_quiet (quiet_toSessionUser u)

/-! ### Groups -/

theorem keeps_createGroup (payload : GroupWrite) : Guarantees (createGroup payload) :=
  keeps_bind (keeps_execute trivial) fun _ => keeps_bind keeps_ofOption fun _ =>
    keeps_bind (keeps_execute trivial) fun _ =>
      keeps_bind (keeps_execute trivial) fun _ => keeps_ofOption

theorem keeps_updateGroup (groupId : Int) (payload : GroupWrite) :
    Guarantees (updateGroup groupId payload) :=
  keeps_bind (keeps_quiet (quiet_requireGroup groupId)) fun _ =>
    keeps_bind (keeps_execute trivial) fun _ => keeps_bind keeps_raiseIf fun _ =>
      keeps_bind (keeps_execute trivial) fun _ =>
      keeps_bind (keeps_execute trivial) fun _ => keeps_ofOption

/-- The memberships and the group go in one transaction. -/
theorem keeps_deleteGroupRow (g : GroupRow) : Guarantees (GroupService.deleteGroup g) := by
  intro w hw v hv _
  have h := intact_deleteGroup (hw.of_sees hv) g.id
  refine ⟨trivial, fun hk => (by cases hk), fun v₁ hv₁ _ => ?_⟩
  cases hv₁
  refine ⟨trivial, fun hk => (by cases hk), fun v₂ hv₂ _ => ?_⟩
  cases hv₂
  exact ⟨trivial, fun _ => h, fun x hx => by cases hx⟩

theorem keeps_insertLinks (groupId : Int) (userIds : List Int) :
    Guarantees (insertLinks groupId userIds) := by
  induction userIds with
  | nil => exact keeps_pure ()
  | cons userId userIds ih => exact keeps_bind (keeps_execute trivial) fun _ => ih

theorem keeps_handle (admin : SessionUser) (req : Request) : Guarantees (req.handle admin) := by
  cases req with
  | createUser payload hash =>
    exact keeps_bind (keeps_createUser payload hash) fun _ => keeps_pure ()
  | deleteUser userId => exact keeps_deleteUser admin userId
  | setUserStatus userId isActive =>
    exact keeps_bind (keeps_setUserStatus admin userId isActive) fun _ => keeps_pure ()
  | createGroup payload => exact keeps_bind (keeps_createGroup payload) fun _ => keeps_pure ()
  | updateGroup groupId payload =>
    exact keeps_bind (keeps_updateGroup groupId payload) fun _ => keeps_pure ()
  | deleteGroup groupId =>
    exact keeps_bind (keeps_quiet (quiet_requireGroup groupId)) fun g => keeps_deleteGroupRow g
  | addUsersToGroup groupId userIds =>
    refine keeps_bind (keeps_quiet (quiet_requireGroup groupId)) fun _ => ?_
    refine keeps_bind (keeps_quiet (quiet_requireAccounts userIds)) fun _ => ?_
    exact keeps_bind (keeps_insertLinks groupId userIds) fun _ => keeps_execute trivial
  | addUserToGroup groupId userId =>
    refine keeps_bind (keeps_quiet (quiet_requireGroup groupId)) fun _ => ?_
    refine keeps_bind (keeps_quiet (quiet_requireAccount userId)) fun _ => ?_
    exact keeps_bind (keeps_execute trivial) fun _ => keeps_execute trivial
  | removeUserFromGroup groupId userId =>
    refine keeps_bind (keeps_quiet (quiet_requireGroup groupId)) fun _ => ?_
    exact keeps_bind (keeps_execute trivial) fun _ => keeps_execute trivial

/-! ### Tokens -/

theorem keeps_createOwnPat {digest : Str → Str} {patMaxPerUser now : Int}
    {secret : PatService.Secret} {user : SessionUser} {payload : PatService.PatCreate} :
    Guarantees (createOwnPat digest patMaxPerUser now secret user payload) := by
  refine keeps_bind (keeps_bind (keeps_execute trivial) fun _ => keeps_ofOption) fun u => ?_
  refine keeps_bind keeps_raiseIf fun _ => keeps_bind (keeps_execute trivial) fun pats => ?_
  refine keeps_bind keeps_raiseIf fun _ => keeps_bind (keeps_execute trivial) fun o => ?_
  refine keeps_bind keeps_ofOption fun pat => keeps_bind (keeps_execute trivial) fun _ => ?_
  refine keeps_bind ?_ fun _ => keeps_pure _
  exact keeps_bind (keeps_execute trivial) fun _ => keeps_ofOption

theorem keeps_revokeOwnPat (user : SessionUser) (patId : Int) :
    Guarantees (revokeOwnPat user patId) := by
  refine keeps_bind (keeps_bind (keeps_execute trivial) fun _ => keeps_ofOption) fun u => ?_
  refine keeps_bind (keeps_bind (keeps_execute trivial) fun _ => keeps_pure _) fun o => ?_
  exact keeps_bind keeps_ofOption fun pat =>
    keeps_bind (keeps_execute trivial) fun _ => keeps_execute trivial

/-! ## Interleavings -/

/-- The requests that write accounts, groups, memberships and tokens. -/
inductive Job (τ : Type) where
  | admin (now : Int) (cred : Credentials τ) (req : Request)
  | createOwnPat (now : Int) (cred : Credentials τ) (elapsed : Nat) (secret : PatService.Secret)
    (payload : PatService.PatCreate)
  | revokeOwnPat (now : Int) (cred : Credentials τ) (elapsed : Nat) (patId : Int)
  | login (config : OidcSettings) (username password : Str)
  | oidcCallback (config : OidcSettings) (claims : Claims)

section
variable {ι τ : Type} [DecidableEq ι] (env : Env τ) (patMaxPerUser : Int)

def Job.prog : Job τ → Query Unit
  | .admin now cred req => req.serve env now cred
  | .createOwnPat now cred elapsed secret payload => do
    let user ← requireSessionLogin env now cred elapsed
    void (Requests.createOwnPat env.digest patMaxPerUser now secret user payload)
  | .revokeOwnPat now cred elapsed patId => do
    let user ← requireSessionLogin env now cred elapsed
    Requests.revokeOwnPat user patId
  | .login config username password => void (Requests.login env config username password)
  | .oidcCallback config claims => void (Requests.oidcCallback config claims)

theorem keeps_prog (job : Job τ) : Guarantees (job.prog env patMaxPerUser) := by
  cases job with
  | admin now cred req =>
    refine keeps_bind (keeps_quiet (quiet_requireAdmin env now cred)) fun admin => ?_
    exact keeps_handle admin req
  | createOwnPat now cred elapsed secret payload =>
    refine keeps_bind (keeps_quiet (quiet_requireSessionLogin env now cred elapsed)) fun user => ?_
    exact keeps_bind keeps_createOwnPat fun _ => keeps_pure ()
  | revokeOwnPat now cred elapsed patId =>
    refine keeps_bind (keeps_quiet (quiet_requireSessionLogin env now cred elapsed)) fun user => ?_
    exact keeps_revokeOwnPat user patId
  | login config username password => exact keeps_bind keeps_login fun _ => keeps_pure ()
  | oidcCallback config claims => exact keeps_bind keeps_oidcCallback fun _ => keeps_pure ()

abbrev Sessions (ι : Type) := Shared ι Sql Reply ApiError Unit Db

/-- All requests at their start. -/
def start (jobs : ι → Job τ) (d : Db) : Sessions ι :=
  ⟨d, none, fun i => (jobs i).prog env patMaxPerUser⟩

/-- Nothing dangles at the start. -/
def Ready (jobs : ι → Job τ) (s : Sessions ι) : Prop :=
  ∃ d, Intact d ∧ s = start env patMaxPerUser jobs d

def race (jobs : ι → Job τ) : LTS (Sessions ι) (Turn ι ApiError) :=
  Shared.lts statements Sql.kind (Ready env patMaxPerUser jobs)

variable {env patMaxPerUser}

/-- In every interleaving, with requests failing anywhere, whose inserts find the
account and the group they refer to, no token and no membership ever dangles.
An account that a session is about to insert gets no role but its own, and no
token. -/
theorem intact_of_timely {jobs : ι → Job τ} {s : Sessions ι}
    (h : ((race env patMaxPerUser jobs).guard (Shared.Meets Timely)).Reachable s) :
    Intact s.committed ∧
      ∀ i username displayName role provider hash k u d',
        s.prog i = .call (.insertUser username displayName role provider hash) k →
        (s.tx i).view.insertUser username displayName role provider hash = some (u, d') →
        roleOf d' u = normalizeRole role ∧ (role = Role.guest.str → roleOf d' u = .guest) ∧
          ∀ p ∈ d'.pats, p.userId ≠ u.id := by
  have hind : ((race env patMaxPerUser jobs).guard (Shared.Meets Timely)).Inductive
      (Shared.Kept statements Sql.kind Intact Timely FindsIntact) := by
    refine Shared.kept_inductive ?_
    rintro s ⟨d, hd, rfl⟩
    exact Shared.kept_start hd fun i => keeps_prog env patMaxPerUser (jobs i)
  have hkept := hind.reachable s h
  refine ⟨hkept.committed, fun i username displayName role provider hash k u d' hp hi => ?_⟩
  have hmeets : s.Meets Timely (.exec i) := (Shared.meets_of hp).mpr trivial
  have hview : Intact (s.tx i).view := (Shared.meets_of hp).mp (hkept.meets hmeets)
  obtain ⟨hrole, hpats⟩ := hview.new_account hi
  exact ⟨hrole, fun e => by rw [hrole, e, normalizeRole_str], hpats⟩

end

/-! ## Look-ups and deletions -/

/-- A look-up of an account by its name or of a group is where a request begins to
make sure of what it refers to; a deletion makes that stale. -/
def roles (ι : Type) : Roles ι Sql where
  begins
    | _, .userByName _ | _, .groupById _ => true
    | _, _ => false
  rests
    | .insertPat .. | .insertLink .. => true
    | _ => false
  harms
    | .deleteUser _ | .deleteGroup _ => true
    | _ => false

def HasUser (id : Int) (d : Db) : Prop := ∃ u ∈ d.users, u.id = id

def HasGroup (id : Int) (d : Db) : Prop := ∃ g ∈ d.groups, g.id = id

/-- No account and no group goes. -/
structure Stays (d d' : Db) : Prop where
  users : ∀ n, HasUser n d → HasUser n d'
  groups : ∀ n, HasGroup n d → HasGroup n d'

theorem Stays.refl (d : Db) : Stays d d := ⟨fun _ h => h, fun _ h => h⟩

theorem Stays.trans {d d' d'' : Db} (h : Stays d d') (h' : Stays d' d'') : Stays d d'' :=
  ⟨fun n hn => h'.users n (h.users n hn), fun n hn => h'.groups n (h.groups n hn)⟩

/-- Only a deletion takes an account or a group away. -/
theorem stays_exec {ι : Type} {c : Sql} (hc : (roles ι).harms c = false) (d : Db) :
    Stays d (c.exec d).2 := by
  have same {d' : Db} (hu : d'.users = d.users) (hg : d'.groups = d.groups) : Stays d d' :=
    ⟨fun n h => by rwa [HasUser, hu], fun n h => by rwa [HasGroup, hg]⟩
  cases c with
  | deleteUser | deleteGroup => cases hc
  | insertUser =>
    rw [Sql.exec]
    split
    · rename_i hi
      obtain ⟨-, hmem, hg, -⟩ := insertUser_spec hi
      constructor
      · rintro n ⟨u, hu, e⟩
        exact ⟨u, (hmem u).mpr (.inl hu), e⟩
      · intro n h
        rwa [HasGroup, hg]
    · exact Stays.refl d
  | updateUser id set =>
    constructor
    · rintro n ⟨u, hu, e⟩
      refine ⟨_, mem_updateUser.mpr ⟨u, hu, rfl⟩, ?_⟩
      split <;> exact e
    · exact fun n h => h
  | insertGroup =>
    rw [Sql.exec]
    split
    · rename_i hi
      obtain ⟨hmem, hu, -⟩ := insertGroup_spec d hi
      constructor
      · intro n h
        rwa [HasUser, hu]
      · rintro n ⟨g, hg, e⟩
        exact ⟨g, (hmem g).mpr (.inl hg), e⟩
    · exact Stays.refl d
  | updateGroup =>
    rw [Sql.exec]
    split
    · rename_i hi
      obtain ⟨hmem, hu, -⟩ := mem_updateGroup d hi
      constructor
      · intro n h
        rwa [HasUser, hu]
      · rintro n ⟨g, hg, e⟩
        refine ⟨_, (hmem _).mpr ⟨g, hg, rfl⟩, ?_⟩
        split <;> exact e
    · exact Stays.refl d
  | insertPat =>
    rw [Sql.exec]
    split
    · rename_i hi
      obtain ⟨-, -, hu, hg, -⟩ := mem_insertPat hi
      exact same hu hg
    · exact Stays.refl d
  | insertLink userId groupId =>
    show Stays d (d.insertLink userId groupId)
    unfold Db.insertLink
    split
    · exact Stays.refl d
    · exact same rfl rfl
  | _ => exact same rfl rfl

/-! ### Requests that insert nothing that refers -/

/-- The query inserts no token and no membership. -/
def Free {α : Type} (q : Query α) : Prop := q.Issues fun c => (roles Unit).rests c = false

theorem free_execute {c : Sql} (h : (roles Unit).rests c = false) : Free (execute c) :=
  Prog.issues_request h

theorem roles_of_quiet {ι : Type} {c : Sql} (h : Quiet c) :
    (roles ι).rests c = false ∧ (roles ι).harms c = false := by
  cases c <;> first | exact ⟨rfl, rfl⟩ | cases h

theorem free_quiet {α : Type} {q : Query α} (h : q.Issues Quiet) : Free q :=
  h.mono fun _ hc => (roles_of_quiet hc).1

theorem free_bind {α β : Type} {q : Query α} {f : α → Query β} (hq : Free q)
    (hf : ∀ a, Free (f a)) : Free (q >>= f) := Prog.issues_bind hq hf

theorem free_void {α : Type} {q : Query α} (h : Free q) : Free (void q) :=
  free_bind h fun _ => trivial

theorem free_save {id : Int} {set : UserSet} : Free (save id set) :=
  free_bind (free_execute rfl) fun _ => free_bind Prog.issues_raiseIf fun _ => free_execute rfl

theorem free_saveNew {username displayName role provider : Str} {hash : Option Str} :
    Free (saveNew username displayName role provider hash) :=
  free_bind (free_execute rfl) fun _ => free_bind Prog.issues_ofOption fun _ =>
    free_bind (free_execute rfl) fun _ => free_quiet (quiet_refresh _)

theorem free_login {τ : Type} {env : Env τ} {config : OidcSettings} {username password : Str} :
    Free (login env config username password) := by
  refine free_bind Prog.issues_raiseIf fun _ => free_bind ?_ fun _ => Prog.issues_ofOption
  refine free_bind (free_execute rfl) fun o => ?_
  split
  · trivial
  split
  · trivial
  split
  · trivial
  split
  · trivial
  · exact free_bind free_save fun _ => free_bind (free_quiet (quiet_toSessionUser _)) fun _ =>
      trivial

theorem free_oidcCallback {config : OidcSettings} {claims : Claims} :
    Free (oidcCallback config claims) := by
  refine free_bind Prog.issues_raiseIf fun _ => ?_
  split
  · trivial
  refine free_bind ?_ fun _ => trivial
  refine free_bind (free_execute rfl) fun o => ?_
  split
  · exact free_bind free_saveNew fun u => free_quiet (quiet_toSessionUser u)
  · refine free_bind Prog.issues_raiseIf fun _ => free_bind Prog.issues_raiseIf fun _ => ?_
    refine free_bind free_save fun _ => ?_
    exact free_bind (free_quiet (quiet_refresh _)) fun u => free_quiet (quiet_toSessionUser u)

theorem free_revokeOwnPat (user : SessionUser) (patId : Int) : Free (revokeOwnPat user patId) := by
  refine free_bind (free_bind (free_execute rfl) fun _ => Prog.issues_ofOption) fun u => ?_
  refine free_bind (free_bind (free_execute rfl) fun _ => trivial) fun o => ?_
  exact free_bind Prog.issues_ofOption fun pat =>
    free_bind (free_execute rfl) fun _ => free_execute rfl

/-! ### Requests that do -/

section
variable {ι : Type} {i : ι} {K : Db → Prop} {w o : Option Db}

abbrev Checks {α : Type} (ι : Type) (i : ι) (Q : α → Option Db → Prop) (q : Query α) :
    Option Db → Option Db → Prop :=
  q.Checks statements Sql.kind Intact Stays Timely ((roles ι).begins i) (roles ι).rests
    fun a _ o => Q a o

theorem checks_free {α : Type} {q : Query α} (h : Free q) (w o : Option Db) :
    Checks ι i (fun _ _ => True) q w o := Prog.checks_of_free h w o

/-- A statement that deletes no account and no group. -/
theorem checks_execute {c : Sql} (hh : (roles ι).harms c = false)
    (hK : ∀ d d', K d → Stays d d' → K d')
    (hc : (roles ι).rests c = true → ∀ d, K d → Timely c d) (h : Known K o) :
    Checks ι i (fun _ => Known K) (execute c) w o := by
  intro d _ hm
  have hd := h.now hm hK
  refine ⟨fun hr => hc hr d hd, known_lastSeen (.inl h.isSome) ?_⟩
  unfold storedBy
  split
  · exact hK d _ hd (stays_exec hh d)
  · exact hd

/-- `ofOption` of a look-up: what is known where it has found something. -/
theorem checks_found {α : Type} {q : Query (Option α)} {e : ApiError}
    (h : Checks ι i (fun r o => ∀ a, r = some a → Known K o) q w o) :
    Checks ι i (fun _ => Known K) (q >>= fun r => Prog.ofOption e r) w o := by
  refine Prog.checks_bind (Prog.checks_mono h fun r w o hr => ?_)
  cases r with
  | none => trivial
  | some a => exact hr a rfl

/-- The check begins with the look-up of the group. -/
theorem checks_requireGroup (groupId : Int) :
    Checks ι i (fun _ => Known (HasGroup groupId)) (requireGroup groupId) w o := by
  refine checks_found fun d _ _ => ⟨fun h => (by cases h), fun g hg => ?_⟩
  obtain ⟨hg, hid⟩ := Table.find_eq_some.mp hg
  exact known_lastSeen (.inr rfl) ⟨g, hg, hid⟩

/-- What was known is still known, and the account is there. -/
theorem checks_requireAccount (userId : Int) (hK : ∀ d d', K d → Stays d d' → K d')
    (h : Known K o) :
    Checks ι i (fun _ => Known fun d => K d ∧ HasUser userId d) (requireAccount userId) w o := by
  refine checks_found fun d _ hm => ⟨fun h => (by cases h), fun u hu => ?_⟩
  obtain ⟨hu, hid⟩ := Table.find_eq_some.mp hu
  exact known_lastSeen (.inl h.isSome) ⟨h.now hm hK, u, hu, hid⟩

/-- By induction on the ids: each look-up keeps what the ones before it have found. -/
theorem checks_requireAccounts {userIds : List Int} (hK : ∀ d d', K d → Stays d d' → K d')
    (h : Known K o) :
    Checks ι i (fun _ => Known fun d => K d ∧ ∀ n ∈ userIds, HasUser n d)
      (requireAccounts userIds) w o := by
  induction userIds generalizing K w o with
  | nil => exact h.mono fun d hd => ⟨hd, fun n hn => by cases hn⟩
  | cons userId userIds ih =>
    refine Prog.checks_bind (Prog.checks_mono (checks_requireAccount userId hK h)
      fun _ w o hk => Prog.checks_mono (ih (fun d d' hd hs => ?_) hk) fun _ _ o hk => ?_)
    · exact ⟨hK d d' hd.1 hs, hs.users userId hd.2⟩
    · refine hk.mono fun d hd => ⟨hd.1.1, fun n hn => ?_⟩
      rcases List.mem_cons.mp hn with rfl | hn
      · exact hd.1.2
      · exact hd.2 n hn

/-- The group and the accounts are there. -/
def Member (groupId : Int) (userIds : List Int) (d : Db) : Prop :=
  HasGroup groupId d ∧ ∀ n ∈ userIds, HasUser n d

theorem Member.stays {groupId : Int} {userIds : List Int} {d d' : Db}
    (h : Member groupId userIds d) (hs : Stays d d') : Member groupId userIds d' :=
  ⟨hs.groups groupId h.1, fun n hn => hs.users n (h.2 n hn)⟩

/-- Each insert finds the group and its account, and leaves them for the next one. -/
theorem checks_insertLinks {groupId : Int} {all userIds : List Int} (hsub : userIds ⊆ all)
    (h : Known (Member groupId all) o) :
    Checks ι i (fun _ _ => True) (insertLinks groupId userIds) w o := by
  induction userIds generalizing w o with
  | nil => trivial
  | cons userId userIds ih =>
    refine Prog.checks_bind (Prog.checks_mono (checks_execute rfl (fun d d' hd => hd.stays)
      (fun _ d hd => ?_) h) fun _ w o hk => ih (List.subset_of_cons_subset hsub) hk)
    exact ⟨hd.2 userId (hsub List.mem_cons_self), hd.1⟩

theorem checks_addUsersToGroup (groupId : Int) (userIds : List Int) :
    Checks ι i (fun _ _ => True) (Requests.addUsersToGroup groupId userIds) w o := by
  refine Prog.checks_bind (Prog.checks_mono (checks_requireGroup groupId) fun _ w o hg => ?_)
  refine Prog.checks_bind (Prog.checks_mono
    (checks_requireAccounts (fun d d' hd hs => hs.groups groupId hd) hg) fun _ w o hk => ?_)
  refine Prog.checks_bind (Prog.checks_mono (checks_insertLinks (List.Subset.refl _) hk)
    fun _ w o _ => ?_)
  exact checks_free (free_execute rfl) w o

theorem checks_addUserToGroup (groupId userId : Int) :
    Checks ι i (fun _ _ => True) (Requests.addUserToGroup groupId userId) w o := by
  refine Prog.checks_bind (Prog.checks_mono (checks_requireGroup groupId) fun _ w o hg => ?_)
  refine Prog.checks_bind (Prog.checks_mono
    (checks_requireAccount userId (fun d d' hd hs => hs.groups groupId hd) hg) fun _ w o hk => ?_)
  refine Prog.checks_bind (Prog.checks_mono (checks_execute rfl
    (fun d d' hd hs => ⟨hs.groups groupId hd.1, hs.users userId hd.2⟩)
    (fun _ d hd => ⟨hd.2, hd.1⟩) hk) fun _ w o _ => ?_)
  exact checks_free (free_execute rfl) w o

/-- The account of a session is looked up by its name. -/
theorem checks_ownAccount (user : SessionUser) :
    Checks ι i (fun u => Known (HasUser u.id)) (ownAccount user) w o := by
  refine Prog.checks_bind fun d _ _ => ⟨fun h => (by cases h), ?_⟩
  show Checks ι i (fun u => Known (HasUser u.id))
    (Prog.ofOption _ (d.users.findKey user.username)) _ _
  cases hf : d.users.findKey user.username with
  | none => trivial
  | some u => exact known_lastSeen (.inr rfl) ⟨u, (Table.findKey_eq_some.mp hf).1, rfl⟩

/-- Between the look-up and the insert the tokens are counted, which takes no account
away. -/
theorem checks_createOwnPat {digest : Str → Str} {patMaxPerUser now : Int}
    {secret : PatService.Secret} {user : SessionUser} {payload : PatService.PatCreate} :
    Checks ι i (fun _ _ => True)
      (createOwnPat digest patMaxPerUser now secret user payload) w o := by
  refine Prog.checks_bind (Prog.checks_mono (checks_ownAccount user) fun u w o hu => ?_)
  have hK : ∀ d d', HasUser u.id d → Stays d d' → HasUser u.id d' := fun d d' hd hs =>
    hs.users u.id hd
  refine Prog.checks_raiseIf_bind fun _ => Prog.checks_bind (Prog.checks_mono
    (checks_execute rfl hK (fun h => by cases h) hu) fun pats w o hu => ?_)
  refine Prog.checks_raiseIf_bind fun _ => Prog.checks_bind (Prog.checks_mono
    (checks_execute rfl hK (fun _ d hd => hd) hu) fun o' w o _ => checks_free ?_ w o)
  refine free_bind Prog.issues_ofOption fun pat => free_bind (free_execute rfl) fun _ => ?_
  exact free_bind (free_bind (free_execute rfl) fun _ => Prog.issues_ofOption) fun _ => trivial

/-- Two requests insert memberships, and the others nothing that refers to a row. -/
theorem checks_handle (admin : SessionUser) (req : Request) :
    Checks ι i (fun _ _ => True) (req.handle admin) w o := by
  cases req with
  | createUser payload hash =>
    refine checks_free (free_void (free_bind ?_ fun u => free_quiet (quiet_toPublic u))) w o
    refine free_bind Prog.issues_raiseIf fun _ => free_bind (free_execute rfl) fun existing => ?_
    exact free_bind Prog.issues_raiseIf fun _ => free_bind Prog.issues_ofOption fun _ =>
      free_saveNew
  | deleteUser userId =>
    refine checks_free (free_bind (free_execute rfl) fun r => free_bind Prog.issues_ofOption
      fun u => free_bind Prog.issues_raiseIf fun _ => ?_) w o
    refine free_bind (free_quiet (quiet_isLastAdmin u)) fun last =>
      free_bind Prog.issues_raiseIf fun _ => ?_
    exact free_bind (free_execute rfl) fun _ => free_bind (free_execute rfl) fun _ =>
      free_bind (free_execute rfl) fun _ => free_execute rfl
  | setUserStatus userId isActive =>
    refine checks_free (free_void (free_bind (free_execute rfl) fun r =>
      free_bind Prog.issues_ofOption fun u => free_bind Prog.issues_raiseIf fun _ => ?_)) w o
    refine free_bind ?_ fun updated => free_quiet (quiet_toPublic updated)
    refine free_bind (free_quiet (quiet_locksOut u isActive)) fun last =>
      free_bind Prog.issues_raiseIf fun _ => ?_
    exact free_bind free_save fun _ => free_quiet (quiet_refresh _)
  | createGroup payload =>
    refine checks_free (free_void (free_bind (free_execute rfl) fun r => ?_)) w o
    exact free_bind Prog.issues_ofOption fun g => free_bind (free_execute rfl) fun _ =>
      free_bind (free_execute rfl) fun _ => Prog.issues_ofOption
  | updateGroup groupId payload =>
    refine checks_free (free_void (free_bind (free_quiet (quiet_requireGroup groupId))
      fun g => ?_)) w o
    exact free_bind (free_execute rfl) fun _ => free_bind Prog.issues_raiseIf fun _ =>
      free_bind (free_execute rfl) fun _ => free_bind (free_execute rfl) fun _ =>
        Prog.issues_ofOption
  | deleteGroup groupId =>
    refine checks_free (free_bind (free_quiet (quiet_requireGroup groupId)) fun g => ?_) w o
    exact free_bind (free_execute rfl) fun _ => free_bind (free_execute rfl) fun _ =>
      free_execute rfl
  | addUsersToGroup groupId userIds => exact checks_addUsersToGroup groupId userIds
  | addUserToGroup groupId userId => exact checks_addUserToGroup groupId userId
  | removeUserFromGroup groupId userId =>
    refine checks_free (free_bind (free_quiet (quiet_requireGroup groupId)) fun _ => ?_) w o
    exact free_bind (free_execute rfl) fun _ => free_execute rfl

theorem checks_prog {τ : Type} (env : Env τ) (patMaxPerUser : Int) (job : Job τ) :
    Checks ι i (fun _ _ => True) (job.prog env patMaxPerUser) w o := by
  cases job with
  | admin now cred req =>
    exact Prog.checks_bind (Prog.checks_mono (checks_free (free_quiet
      (quiet_requireAdmin env now cred)) w o) fun admin w o _ => checks_handle admin req)
  | createOwnPat now cred elapsed secret payload =>
    refine Prog.checks_bind (Prog.checks_mono (checks_free (free_quiet
      (quiet_requireSessionLogin env now cred elapsed)) w o) fun user w o _ => ?_)
    exact Prog.checks_bind (Prog.checks_mono checks_createOwnPat fun _ _ _ _ => trivial)
  | revokeOwnPat now cred elapsed patId =>
    exact checks_free (free_bind (free_quiet (quiet_requireSessionLogin env now cred elapsed))
      fun user => free_revokeOwnPat user patId) w o
  | login config username password =>
    exact checks_free (free_void free_login) w o
  | oidcCallback config claims =>
    exact checks_free (free_void free_oidcCallback) w o

/-- Deletions alone do harm, and only the two inserts need anything. -/
theorem setting : Marked.Setting statements (roles ι) Stays Timely fun _ => True where
  refl := Stays.refl
  trans := Stays.trans
  mild_exec _ d _ hh := stays_exec hh d
  needs c _ hr := by
    cases c with
    | insertPat | insertLink => cases hr
    | _ => trivial

end

section
variable {ι τ : Type} [DecidableEq ι] (env : Env τ) (patMaxPerUser : Int)

/-- The race, with what each request knows of its look-ups. -/
def watched (jobs : ι → Job τ) :
    LTS (Marked ι Sql Reply ApiError Unit Db) (Turn ι ApiError) :=
  Marked.lts statements Sql.kind (roles ι) (Ready env patMaxPerUser jobs)

variable {env patMaxPerUser}

theorem issues_true {α : Type} (q : Query α) : q.Issues fun _ => True := by
  induction q with
  | pure a => trivial
  | raise e => trivial
  | call c k ih => exact ⟨trivial, ih⟩

/-- Every run in which no request inserts after a deletion has been committed since
its first look-up is one whose inserts find what they refer to. -/
theorem timely_of_fresh {jobs : ι → Job τ} {s : Marked ι Sql Reply ApiError Unit Db}
    (h : ((watched env patMaxPerUser jobs).guard (Marked.Fresh (roles ι))).Reachable s) :
    ((race env patMaxPerUser jobs).guard (Shared.Meets Timely)).Reachable s.shared := by
  refine Marked.meets_of_fresh (I := Intact) (A := FindsIntact) setting ?_ h
  rintro s ⟨d, hd, rfl⟩
  exact Marked.attentive_start hd (fun i => keeps_prog env patMaxPerUser (jobs i))
    (fun i => issues_true _) fun i => checks_prog env patMaxPerUser (jobs i)

end

/-! ### A token for an account that is being deleted -/

/-- The administrator, and `bob` with id 2. -/
def twoAccounts : Db := (withBob.foldl (Instance.step plainEnv) seeded).db

theorem length_secret : (List.replicate 43 'a').length = 43 := List.length_replicate

theorem urlsafe_secret : ∀ c ∈ List.replicate 43 'a', c.isAlphanum = true ∨ c = '-' ∨ c = '_' :=
  fun c hc => by simp [(List.mem_replicate.mp hc).2]

def secret : PatService.Secret := ⟨List.replicate 43 'a', length_secret, urlsafe_secret⟩

theorem name_script : 1 ≤ "script".toList.length ∧ "script".toList.length ≤ 255 := by decide

def script : PatService.PatCreate := ⟨"script".toList, none, name_script, by decide⟩

/-- `bob` issues a token to itself, and `admin` deletes `bob`. -/
def farewell : Bool → Job Payload
  | false => .createOwnPat 0 (cookie "bob" .guest) 0 secret script
  | true => .admin 0 (cookie "admin" .admin) (.deleteUser 2)

def turns (n : Nat) (w : Bool) : List (Turn Bool ApiError) := List.replicate n (.exec w)

def bothOver (s : Sessions Bool) : Bool := (s.prog false).isOver && (s.prog true).isOver

theorem ready_farewell : Ready plainEnv 10 farewell (start plainEnv 10 farewell twoAccounts) :=
  ⟨twoAccounts, by decide, rfl⟩

/-- The token is inserted first, and goes with the account. -/
theorem intact_of_timely_farewell :
    ∃ s, ((race plainEnv 10 farewell).guard (Shared.Meets Timely)).Reachable s ∧
      bothOver s = true ∧ s.committed.users.rows.length = 1 ∧ Intact s.committed := by
  obtain ⟨s, hs, hp⟩ := LTS.guard_reachable_of_exec (f := Shared.step statements Sql.kind)
    (G := Shared.Meets Timely) ready_farewell (turns 7 false ++ turns 8 true)
    (fun s => bothOver s = true ∧ s.committed.users.rows.length = 1) (by decide +kernel)
  obtain ⟨hover, hlen⟩ := of_decide_eq_true hp
  exact ⟨s, hs, hover, hlen, (intact_of_timely hs).1⟩

/-- Between the look-up and the insert, the account goes: the token waits for the
next account that gets the id. -/
theorem dangling :
    ∃ s, (race plainEnv 10 farewell).Reachable s ∧ bothOver s = true ∧
      ¬ Intact s.committed ∧
      ∃ p ∈ s.committed.pats, p.userId = s.committed.users.nextId := by
  obtain ⟨s, hs, hp⟩ := LTS.reachable_of_exec (f := Shared.step statements Sql.kind)
    ready_farewell (turns 4 false ++ turns 8 true ++ turns 3 false)
    (fun s => bothOver s = true ∧ ¬ Intact s.committed ∧
      ∃ p ∈ s.committed.pats.rows, p.userId = s.committed.users.nextId) (by decide +kernel)
  exact ⟨s, hs, of_decide_eq_true hp⟩

end MailserverUi.L5.DanglingRows
