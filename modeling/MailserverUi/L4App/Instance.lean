import MailserverUi.Core.LTS
import MailserverUi.L4App.RequestsSpec

/-!
# A running instance

The database, the clock and the session tokens handed out so far. Requests come
one after the other: sign-ins, and requests to the routers of accounts and
groups, with any credentials. The OIDC settings come with each sign-in, so that
they may change in between.

A token in `issued` carries as a ghost the `born` of the account it was issued
to.

* `effect_step`: what one event does, by what it commits.
-/
namespace MailserverUi.L4.Instance

open Py L2.Errors L2.Database L3 Auth UserService Oidc AccountSpec Requests RequestsSpec

structure Issued (τ : Type) where
  token : τ
  username : Str
  /-- the second in its `exp` claim -/
  expires : Int
  /-- ghost: the account it was issued to -/
  born : Nat

structure State (τ : Type) where
  db : Db
  /-- in microseconds -/
  now : Int
  issued : List (Issued τ)

inductive Event (τ : Type) where
  | login (config : OidcSettings) (username password : Str)
  | oidcCallback (config : OidcSettings) (claims : Claims)
  | request (cred : Credentials τ) (req : Request)
  | wait (microseconds : Nat)

section
variable {τ : Type} (env : Env τ)

/-- The session cookie that a sign-in of an account sets. -/
def issue (now : Int) (user : SessionUser) (account : UserRow) : Issued τ :=
  ⟨sessionToken env now user, user.username,
    now / 1000000 + env.accessTokenExpireMinutes * 60, account.born⟩

/-- Signed in, when there is a principal. -/
def signIn (s : State τ) (db : Db) (user : Option SessionUser) : State τ :=
  { s with
    db := db
    issued := (user.bind fun p => (db.users.findKey p.username).map (issue env s.now p)).toList ++
      s.issued }

def step (s : State τ) : Event τ → State τ
  | .login config username password =>
    let out := session (login env config username password) s.db
    signIn env s out.2 out.1.toOption
  | .oidcCallback config claims =>
    let out := session (oidcCallback config claims) s.db
    signIn env s out.2 (out.1.toOption.bind id)
  | .request cred req => { s with db := (session (req.serve env s.now cred) s.db).2 }
  | .wait microseconds => { s with now := s.now + microseconds }

def events (init : State τ → Prop) : LTS (State τ) (Event τ) :=
  LTS.ofFn init fun s e => some (step env s e)

/-- What an event does to the instance. -/
inductive Effect (s : State τ) : Event τ → State τ → Prop where
  /-- the last use of a token, or nothing at all -/
  | unchanged (e : Event τ) (pats : Pats) : Effect s e { s with db := { s.db with pats := pats } }
  | wait (n : Nat) : Effect s (.wait n) { s with now := s.now + n }
  | login {config : OidcSettings} {username password : Str} {u : UserRow} (hu : u ∈ s.db.users) :
      Effect s (.login config username password)
        { s with issued := issue env s.now (sessionUser s.db u) u :: s.issued }
  | oidcNew {config : OidcSettings} {claims : Claims} {p : SessionUser} {u : UserRow} {d : Db}
      (hp : oidcPrincipal config claims = some p)
      (hi : s.db.insertUser p.username p.displayName p.role.str "oidc".toList none = some (u, d)) :
      Effect s (.oidcCallback config claims)
        { s with db := d, issued := issue env s.now (sessionUser d u) u :: s.issued }
  | oidcOld {config : OidcSettings} {claims : Claims} {p : SessionUser} {u : UserRow}
      (hp : oidcPrincipal config claims = some p) (hu : u ∈ s.db.users)
      (hn : u.username = p.username) (ho : u.provider = "oidc".toList) :
      Effect s (.oidcCallback config claims)
        { s with
          db := s.db.updateUser u.id (oidcSet p)
          issued := issue env s.now (sessionUser (s.db.updateUser u.id (oidcSet p))
            ((oidcSet p).on u)) u :: s.issued }
  | request {cred : Credentials τ} {req : Request} {pats : Pats} {d : Db}
      (ha : Authorised env s.now cred s.db) (hd : Done { s.db with pats := pats } req d) :
      Effect s (.request cred req) { s with db := d }

theorem signIn_row {s : State τ} {d : Db} {u : UserRow} (hu : u ∈ d.users) :
    signIn env s d (some (sessionUser d u)) =
      { s with db := d, issued := issue env s.now (sessionUser d u) u :: s.issued } := by
  have hf : d.users.findKey u.username = some u := Table.findKey_eq_some.mpr ⟨hu, rfl⟩
  simp only [signIn, sessionUser, Option.bind_some, hf, Option.map_some, Option.toList_some,
    List.singleton_append]

theorem effect_step (s : State τ) (e : Event τ) : Effect env s e (step env s e) := by
  cases e with
  | login config username password =>
    obtain ⟨r, hr, hm⟩ := login_cases env s.db config username password
    simp only [step, hr]
    cases r with
    | error err => exact .unchanged _ s.db.pats
    | ok p =>
      obtain ⟨u, hu, -, -, rfl⟩ := hm p rfl
      simp only [Except.toOption, signIn_row env hu]
      exact .login hu
  | oidcCallback config claims =>
    rcases oidcCallback_cases s.db config claims with
      ⟨r, hr, hno⟩ | ⟨p, hp, ⟨u, d, hi, hr⟩ | ⟨u, hu, hn, ho, -, hr⟩⟩
    · simp only [step, hr]
      cases r with
      | error err => exact .unchanged _ s.db.pats
      | ok o =>
        cases o with
        | none => exact .unchanged _ s.db.pats
        | some p => exact absurd rfl (hno p)
    · have hu : u ∈ d.users := ((insertUser_spec hi).2.1 u).mpr (.inr rfl)
      simp only [step, hr, Except.toOption, Option.bind_some, id, signIn_row env hu]
      exact .oidcNew hp hi
    · have hon : (oidcSet p).on u ∈ (s.db.updateUser u.id (oidcSet p)).users :=
        mem_updateUser.mpr ⟨u, hu, (if_pos rfl).symm⟩
      simp only [step, hr, Except.toOption, Option.bind_some, id, signIn_row env hon]
      exact .oidcOld hp hu hn ho
  | request cred req =>
    obtain ⟨pats, -, h | ⟨ha, hd⟩⟩ := serve_cases env s.now s.db cred req
    · simp only [step, h]
      exact .unchanged _ pats
    · exact .request ha hd
  | wait n => exact .wait n

end

/-! ## A concrete instance -/

/-- A token is its payload, and a password its own hash. -/
def plainEnv : Env Payload where
  jose := ⟨id, fun now p => if p.Valid now then some p else none⟩
  digest := id
  verifyPassword password hash := password = hash
  accessTokenExpireMinutes := 60
  patsEnabled := false

/-- The cookie of an account that signed in at the start. -/
def cookie (username : String) (role : Role) : Credentials Payload :=
  ⟨some (sessionToken plainEnv 0 ⟨username.toList, username.toList, role, .local⟩), none⟩

/-- No OIDC. -/
def localOnly : OidcSettings := ⟨false, false, [], [], [], [], false⟩

def seeded : State Payload :=
  ⟨(session (ensureDefaultAdmin "admin".toList (some "secret".toList)) noRows).2, 0, []⟩

def bob : UserCreate :=
  ⟨"bob".toList, "bob".toList, "password".toList, by decide, by decide, by decide⟩

/-- The administrator signs in and creates `bob`. -/
def withBob : List (Event Payload) :=
  [.login localOnly "admin".toList "secret".toList,
    .request (cookie "admin" .admin) (.createUser bob (some bob.password))]

def ops : GroupWrite := ⟨"ops".toList, [], .admin, by decide, by decide⟩

/-- `bob` becomes an administrator by a group, and signs in. -/
def withAdmins : List (Event Payload) :=
  withBob ++ [.request (cookie "admin" .admin) (.createGroup ops),
    .request (cookie "admin" .admin) (.addUserToGroup 1 2),
    .login localOnly "bob".toList "password".toList]

end MailserverUi.L4.Instance
