import MailserverUi.Core.LTS
import MailserverUi.L3Service.SettingsRows
import MailserverUi.L4App.Instance
import MailserverUi.L4App.OidcState

/-!
# OIDC sign-ins, with browsers and messages in flight

A browser starts the flow, is sent to the provider with a state, and comes back
with a code and a state; the answer to the first request sets the state cookie,
and the answer to the second one the session cookie. Between being sent and being
served a request is in flight with the cookies its browser had, and an answer is
in flight until its browser has it; any number of flows overlap, in one browser
too. Anybody may make a browser visit the callback with any code and any state,
and make requests of his own with any cookie that he was handed or that does not
decode.

The provider is a parameter: what it answers comes with the request. `Fair` says
that `token_urlsafe` repeats no state, and that nobody else has the server's key.

Results:
* `exchange_state`: a check that passes compares with the state of the cookie, in
  time.
* `inv_step`: cookies, requests and answers are accounted for.
* `own_flow`: a browser has a code exchanged only with the state of a flow that it
  started itself at most ten minutes before, and is signed in by such an exchange
  only; nobody has one exchanged with a state that was handed to somebody else.
-/
namespace MailserverUi.L5.OidcFlow

open Py L2.Errors L2.Database L3 Auth Oidc SettingsRows L4 Requests OidcState

/-! ## The two handlers -/

/-- mirrors backend/app/exceptions.py:65-69 -/
def badGateway (detail : String) : ApiError := .api 502 [lit detail]

/-- How `_discover` ends for `authorization_url`: with the endpoint of a document,
if it has one, with an `OIDCError`, or with another exception. -/
inductive Discovered where
  | document (authorizationEndpoint : Option Str)
  | refused
  | raised

/-- mirrors backend/app/services/oidc.py:56-69 -/
structure AuthorizationUrl where
  endpoint : Str
  clientId : Str
  responseType : Str
  scope : Str
  redirectUri : Str
  state : Str
  nonce : Str
  deriving DecidableEq, Repr

/-- How `exchange_code` and `fetch_userinfo` end: with claims, with an `OIDCError`
or a token response without an access token, or with another exception. -/
inductive Exchange where
  | claims (claims : Claims)
  | refused
  | raised

/-- An answer to a browser, with the cookies it sets. -/
inductive Response (τ : Type) where
  | raised (e : ApiError)
  | toProvider (url : AuthorizationUrl) (stateCookie : τ)
  /-- `/login?error=…` -/
  | toLogin (error : String)
  /-- `/welcome`; the state cookie is cleared -/
  | welcome (sessionCookie : τ)

section
variable {τ : Type} (env : Env τ)

/-- mirrors backend/app/routers/auth.py:181-206 -/
def oidcLogin (config : OidcSettingsBase) (discovered : Discovered) (now : Int)
    (state nonce : Str) : Response τ :=
  if config.enabled = false then .raised (notFound "OIDC endpoint" "login".toList)
  else
    match discovered with
    | .refused => .raised (badGateway "OIDC provider unavailable")
    | .raised | .document none => .raised .internal
    | .document (some endpoint) =>
      .toProvider ⟨endpoint, config.clientId, config.responseType, config.scope,
        config.redirectUri, state, nonce⟩ (encodeState env.jose now state nonce)

/-- From the claims on.
mirrors backend/app/routers/auth.py:238-281 -/
def finish (config : OidcSettingsBase) (claims : Claims) (now : Int) (db : Db) :
    Response τ × Db :=
  let out := session (Requests.oidcCallback config.toOidcSettings claims) db
  (match out.1 with
    | .ok none => .toLogin "forbidden"
    | .ok (some user) =>
      .welcome (createSessionToken env.jose env.accessTokenExpireMinutes now user)
    | .error (.api 409 _) => .toLogin "conflict"
    | .error (.api 403 _) => .toLogin "disabled"
    | .error e => .raised e, out.2)

/-- The query of a callback. -/
structure Query where
  code : Option Str
  state : Option Str
  error : Option Str

/-- Whether the code is exchanged, the answer, and the accounts after it.
mirrors backend/app/routers/auth.py:209-281 -/
def oidcCallback (config : OidcSettingsBase) (exchange : Exchange) (now : Int)
    (cookie : Option τ) (q : Query) (db : Db) : Bool × Response τ × Db :=
  if config.enabled = false then
    (false, .raised (notFound "OIDC endpoint" "callback".toList), db)
  else
    match stateCheck env.jose now cookie q.error q.code q.state with
    | none => (false, .raised .internal, db)
    | some .oidc => (false, .toLogin "oidc", db)
    | some .state => (false, .toLogin "state", db)
    | some .exchange =>
      match exchange with
      | .refused => (true, .toLogin "oidc", db)
      | .raised => (true, .raised .internal, db)
      | .claims claims => (true, finish env config claims now db)

end

/-! ## Browsers -/

/-- A browser; `none` is anybody else, who keeps his own cookies. -/
abbrev Client (ι : Type) := Option ι

structure Jar (τ : Type) where
  state : Option τ
  session : Option τ

/-- A callback in flight, with the state cookie that was sent along. -/
structure Sent (ι τ : Type) where
  client : Client ι
  query : Query
  cookie : Option τ

/-- ghost: a flow that was started -/
structure Started (ι : Type) where
  client : Client ι
  state : Str
  at_ : Int

/-- ghost: a code that was exchanged, and the session cookie of the answer -/
structure Exchanged (ι τ : Type) where
  client : Client ι
  state : Str
  at_ : Int
  session : Option τ

structure State (ι τ : Type) where
  /-- in seconds -/
  now : Int
  db : Db
  jars : ι → Jar τ
  sent : List (Sent ι τ)
  answered : List (Client ι × Response τ)
  /-- ghost: every token that an answer carried -/
  signed : List τ
  started : List (Started ι)
  exchanged : List (Exchanged ι τ)

inductive Event (ι τ : Type) where
  /-- `/oidc/login` is served -/
  | login (client : Client ι) (config : OidcSettingsBase) (discovered : Discovered)
    (state nonce : Str)
  /-- a browser follows a link to the callback -/
  | visit (browser : ι) (q : Query)
  | forge (cookie : Option τ) (q : Query)
  /-- the callback at this place in flight is served -/
  | callback (n : Nat) (config : OidcSettingsBase) (exchange : Exchange)
  /-- the answer at this place in flight arrives -/
  | arrive (n : Nat)
  /-- a cookie of a browser expires or is deleted -/
  | forget (browser : ι) (session : Bool)
  /-- other requests change the accounts -/
  | accounts (db : Db)
  | wait (seconds : Nat)

section
variable {ι τ : Type} [DecidableEq ι] (env : Env τ)

def setJar (jars : ι → Jar τ) (b : ι) (jar : Jar τ) : ι → Jar τ := Function.update jars b jar

/-- The tokens that an answer carries. -/
def Response.tokens : Response τ → List τ
  | .toProvider _ token | .welcome token => [token]
  | .raised _ | .toLogin _ => []

/-- The session cookie of an answer. -/
def Response.session : Response τ → Option τ
  | .welcome token => some token
  | .raised _ | .toLogin _ | .toProvider .. => none

/-- What an answer does to the cookies of its browser. -/
def Response.store (jar : Jar τ) : Response τ → Jar τ
  | .toProvider _ token => { jar with state := some token }
  | .welcome token => ⟨none, some token⟩
  | .raised _ | .toLogin _ => jar

def respond (s : State ι τ) (client : Client ι) (r : Response τ) : State ι τ :=
  { s with answered := s.answered ++ [(client, r)], signed := r.tokens ++ s.signed }

/-- After the callback at place `n` is served. -/
def served (s : State ι τ) (n : Nat) (x : Sent ι τ) (config : OidcSettingsBase)
    (exchange : Exchange) : State ι τ :=
  let out := oidcCallback env config exchange s.now x.cookie x.query s.db
  let s := respond { s with sent := s.sent.eraseIdx n, db := out.2.2 } x.client out.2.1
  { s with
    exchanged := (if out.1 then [⟨x.client, x.query.state.getD [], s.now, out.2.1.session⟩]
      else []) ++ s.exchanged }

def step (s : State ι τ) : Event ι τ → Option (State ι τ)
  | .login client config discovered state nonce =>
    let r := oidcLogin env config discovered s.now state nonce
    let s := respond s client r
    some (match r with
      | .toProvider .. => { s with started := ⟨client, state, s.now⟩ :: s.started }
      | _ => s)
  | .visit browser q => some { s with sent := s.sent ++ [⟨some browser, q, (s.jars browser).state⟩] }
  | .forge cookie q => some { s with sent := s.sent ++ [⟨none, q, cookie⟩] }
  | .callback n config exchange =>
    (s.sent[n]?).map fun x => served env s n x config exchange
  | .arrive n =>
    (s.answered[n]?).map fun x =>
      let s := { s with answered := s.answered.eraseIdx n }
      match x.1 with
      | none => s
      | some b => { s with jars := setJar s.jars b (x.2.store (s.jars b)) }
  | .forget b session =>
    some { s with
      jars := setJar s.jars b
        (if session then { s.jars b with session := none } else { s.jars b with state := none }) }
  | .accounts db => some { s with db := db }
  | .wait seconds => some { s with now := s.now + seconds }

/-- No state is drawn twice, and a token that decodes was signed by the server. -/
def Fair (s : State ι τ) : Event ι τ → Prop
  | .login _ _ _ state _ => ∀ x ∈ s.started, x.state ≠ state
  | .forge cookie _ => ∀ token ∈ cookie, token ∈ s.signed ∨ ∀ t, env.jose.decode t token = none
  | _ => True

/-- No cookie that the server set, and nothing in flight. -/
structure Start (s : State ι τ) : Prop where
  jars : ∀ b, s.jars b = ⟨none, none⟩
  sent : s.sent = []
  answered : s.answered = []
  signed : s.signed = []
  started : s.started = []
  exchanged : s.exchanged = []

def flow : LTS (State ι τ) (Event ι τ) := (LTS.ofFn Start (step env)).guard (Fair env)

end

/-! ## What a check that passes has compared -/

section
variable {τ : Type} {jose : Jose τ}

theorem stateCheck_exchange {now : Int} {cookie : Option τ} {error code state : Option Str}
    (h : stateCheck jose now cookie error code state = some .exchange) :
    ∃ stored, cookie.bind (decodeState jose now) = some stored ∧
      stored.state.getD [] = state.getD [] ∧ state.getD [] ≠ [] := by
  unfold stateCheck at h
  split at h
  · cases h
  · rename_i hr
    obtain ⟨-, -, hst⟩ := not_or.mp hr |>.imp_right not_or.mp
    split at h
    · cases h
    · rename_i stored hd
      split at h
      · cases h
      · obtain ⟨same, hc, he⟩ := Option.map_eq_some_iff.mp h
        have hsame : same = true := by
          cases same
          · cases he
          · rfl
        unfold compareDigest at hc
        split at hc
        · rw [hsame, Option.some.injEq, decide_eq_true_eq] at hc
          exact ⟨stored, hd, hc, hst⟩
        · cases hc

/-- The state is that of the cookie, which is at most ten minutes old. -/
theorem exchange_state (hs : jose.Sound) (hg : jose.Genuine) {now issued : Int} {st nonce : Str}
    {error code state : Option Str}
    (h : stateCheck jose now (some (encodeState jose issued st nonce)) error code state =
      some .exchange) :
    state.getD [] = st ∧ now ≤ issued + oidcStateTtl := by
  obtain ⟨stored, hd, hst, -⟩ := stateCheck_exchange h
  obtain ⟨he, hv⟩ := hg now _ stored hd
  obtain rfl := encode_injective hs he
  exact ⟨hst.symm, hv _ rfl⟩

/-- No session cookie passes. -/
theorem not_exchange_session (hs : jose.Sound) (hg : jose.Genuine) {now minutes issued : Int}
    {user : SessionUser} {error code state : Option Str} :
    stateCheck jose now (some (createSessionToken jose minutes issued user)) error code state ≠
      some .exchange := by
  intro h
  obtain ⟨stored, hd, hst, hne⟩ := stateCheck_exchange h
  obtain ⟨he, -⟩ := hg now _ stored hd
  obtain rfl := encode_injective hs he
  exact hne hst.symm

end

section
variable {τ : Type} {env : Env τ} {config : OidcSettingsBase} {exchange : Exchange} {now : Int}
  {cookie : Option τ} {q : Query} {db : Db}

theorem oidcLogin_cases (env : Env τ) (config : OidcSettingsBase) (discovered : Discovered)
    (now : Int) (state nonce : Str) :
    (∃ url, oidcLogin env config discovered now state nonce =
      .toProvider url (encodeState env.jose now state nonce)) ∨
      ∃ e, oidcLogin env config discovered now state nonce = .raised e := by
  unfold oidcLogin
  split
  · exact .inr ⟨_, rfl⟩
  · split
    · exact .inr ⟨_, rfl⟩
    · exact .inr ⟨_, rfl⟩
    · exact .inr ⟨_, rfl⟩
    · exact .inl ⟨_, rfl⟩

variable (env config exchange now cookie q db)

theorem check_of_exchanged (h : (oidcCallback env config exchange now cookie q db).1 = true) :
    stateCheck env.jose now cookie q.error q.code q.state = some .exchange := by
  unfold oidcCallback at h
  split at h
  · cases h
  · split at h
    · cases h
    · cases h
    · cases h
    · assumption

/-- An answer to a callback carries a session, and that only where the code was
exchanged. -/
theorem tokens_callback :
    (∃ user token, token = createSessionToken env.jose env.accessTokenExpireMinutes now user ∧
        (oidcCallback env config exchange now cookie q db).1 = true ∧
        (oidcCallback env config exchange now cookie q db).2.1 = .welcome token) ∨
      (oidcCallback env config exchange now cookie q db).2.1.tokens = [] := by
  unfold oidcCallback
  split
  · exact .inr rfl
  · split
    · exact .inr rfl
    · exact .inr rfl
    · exact .inr rfl
    · split
      · exact .inr rfl
      · exact .inr rfl
      · unfold finish
        dsimp only
        split
        · exact .inr rfl
        · exact .inl ⟨_, _, rfl, rfl, rfl⟩
        all_goals exact .inr rfl

end

/-! ## The invariant -/

section
variable {ι τ : Type} {env : Env τ} {s s' : State ι τ}

variable (env) in
/-- The token is the state cookie of a flow that the client started. -/
def Own (s : State ι τ) (client : Client ι) (token : τ) : Prop :=
  ∃ x ∈ s.started, x.client = client ∧ ∃ nonce, token = encodeState env.jose x.at_ x.state nonce

/-- The token is the session of an exchange of the client. -/
def SignedIn (s : State ι τ) (client : Client ι) (token : τ) : Prop :=
  ∃ x ∈ s.exchanged, x.client = client ∧ x.session = some token

variable (env) in
/-- What an answer carries is its client's. -/
def Response.Due (s : State ι τ) (client : Client ι) : Response τ → Prop
  | .toProvider _ token => Own env s client token
  | .welcome token => SignedIn s client token
  | .raised _ | .toLogin _ => True

/-- The exchange was with the state of a flow, in time, and its own where the client
is a browser. -/
def FromOwn (s : State ι τ) (x : Exchanged ι τ) : Prop :=
  ∃ y ∈ s.started, y.state = x.state ∧ y.at_ ≤ x.at_ ∧ x.at_ ≤ y.at_ + oidcStateTtl ∧
    (x.client ≠ none → y.client = x.client)

variable (env) in
structure Inv (s : State ι τ) : Prop where
  clock : ∀ x ∈ s.started, x.at_ ≤ s.now
  distinct : (s.started.map Started.state).Nodup
  stateCookie : ∀ b, ∀ token ∈ (s.jars b).state, Own env s (some b) token
  sessionCookie : ∀ b, ∀ token ∈ (s.jars b).session, SignedIn s (some b) token
  sent : ∀ x ∈ s.sent, ∀ token ∈ x.cookie, x.client ≠ none → Own env s x.client token
  forged : ∀ x ∈ s.sent, ∀ token ∈ x.cookie, x.client = none →
    token ∈ s.signed ∨ ∀ t, env.jose.decode t token = none
  answered : ∀ x ∈ s.answered, x.2.Due env s x.1
  signed : ∀ token ∈ s.signed, (∃ client, Own env s client token) ∨
    ∃ now user, token = createSessionToken env.jose env.accessTokenExpireMinutes now user
  exchanged : ∀ x ∈ s.exchanged, FromOwn s x

theorem Own.mono {client : Client ι} {token : τ} (h : Own env s client token)
    (hs : ∀ x ∈ s.started, x ∈ s'.started) : Own env s' client token := by
  obtain ⟨x, hx, hrest⟩ := h
  exact ⟨x, hs x hx, hrest⟩

theorem SignedIn.mono {client : Client ι} {token : τ} (h : SignedIn s client token)
    (hs : ∀ x ∈ s.exchanged, x ∈ s'.exchanged) : SignedIn s' client token := by
  obtain ⟨x, hx, hrest⟩ := h
  exact ⟨x, hs x hx, hrest⟩

theorem Due.mono {client : Client ι} {r : Response τ} (h : r.Due env s client)
    (hs : ∀ x ∈ s.started, x ∈ s'.started) (he : ∀ x ∈ s.exchanged, x ∈ s'.exchanged) :
    r.Due env s' client := by
  cases r with
  | toProvider url token => exact Own.mono h hs
  | welcome token => exact SignedIn.mono h he
  | raised | toLogin => trivial

/-- What there was is still accounted for, so that only what is new is left. -/
theorem Inv.next (h : Inv env s) (hnow : s.now ≤ s'.now)
    (hstarted : s'.started = s.started ∨ ∃ x, s'.started = x :: s.started ∧ x.at_ ≤ s'.now ∧
      ∀ y ∈ s.started, x.state ≠ y.state)
    (hkept : ∀ x ∈ s.exchanged, x ∈ s'.exchanged) (hsigned : ∀ token ∈ s.signed, token ∈ s'.signed)
    (hstate : ∀ b, ∀ token ∈ (s'.jars b).state,
      token ∈ (s.jars b).state ∨ Own env s' (some b) token)
    (hsession : ∀ b, ∀ token ∈ (s'.jars b).session,
      token ∈ (s.jars b).session ∨ SignedIn s' (some b) token)
    (hsent : ∀ x ∈ s'.sent, x ∈ s.sent ∨ ∀ token ∈ x.cookie,
      if x.client = none then token ∈ s.signed ∨ ∀ t, env.jose.decode t token = none
      else Own env s' x.client token)
    (hanswered : ∀ x ∈ s'.answered, x ∈ s.answered ∨ x.2.Due env s' x.1)
    (hnew : ∀ token ∈ s'.signed, token ∈ s.signed ∨ (∃ client, Own env s' client token) ∨
      ∃ now user, token = createSessionToken env.jose env.accessTokenExpireMinutes now user)
    (hexchanged : ∀ x ∈ s'.exchanged, x ∈ s.exchanged ∨ FromOwn s' x) : Inv env s' := by
  have hs : ∀ x ∈ s.started, x ∈ s'.started := by
    rcases hstarted with e | ⟨x, e, -⟩
    · rw [e]
      exact fun _ hx => hx
    · rw [e]
      exact fun _ hx => List.mem_cons_of_mem _ hx
  refine ⟨fun x hx => ?_, ?_, fun b token ht => ?_, fun b token ht => ?_, fun x hx token ht hc => ?_,
    fun x hx token ht hc => ?_, fun x hx => ?_, fun token ht => ?_, fun x hx => ?_⟩
  · rcases hstarted with e | ⟨y, e, hy, -⟩
    · exact (h.clock x (e ▸ hx)).trans hnow
    · rw [e] at hx
      rcases List.mem_cons.mp hx with rfl | hx
      · exact hy
      · exact (h.clock x hx).trans hnow
  · rcases hstarted with e | ⟨y, e, -, hy⟩
    · rw [e]
      exact h.distinct
    · rw [e]
      refine List.nodup_cons.mpr ⟨fun hm => ?_, h.distinct⟩
      obtain ⟨z, hz, hst⟩ := List.mem_map.mp hm
      exact hy z hz hst.symm
  · rcases hstate b token ht with ht | ht
    · exact (h.stateCookie b token ht).mono hs
    · exact ht
  · rcases hsession b token ht with ht | ht
    · exact (h.sessionCookie b token ht).mono hkept
    · exact ht
  · rcases hsent x hx with hx | hx
    · exact (h.sent x hx token ht hc).mono hs
    · have := hx token ht
      rwa [if_neg hc] at this
  · rcases hsent x hx with hx | hx
    · exact (h.forged x hx token ht hc).imp (hsigned token) id
    · have := hx token ht
      rw [if_pos hc] at this
      exact this.imp (hsigned token) id
  · rcases hanswered x hx with hx | hx
    · exact Due.mono (h.answered x hx) hs hkept
    · exact hx
  · rcases hnew token ht with ht | ht
    · exact (h.signed token ht).imp (fun ⟨c, hc⟩ => ⟨c, hc.mono hs⟩) id
    · exact ht
  · rcases hexchanged x hx with hx | hx
    · obtain ⟨y, hy, hrest⟩ := h.exchanged x hx
      exact ⟨y, hs y hy, hrest⟩
    · exact hx

/-- A code is exchanged with the state of a flow, in time, that the browser which
sent the cookie started. -/
theorem fromOwn_of_check (hs : env.jose.Sound) (hg : env.jose.Genuine) (h : Inv env s)
    {x : Sent ι τ} (hx : x ∈ s.sent)
    (hc : stateCheck env.jose s.now x.cookie x.query.error x.query.code x.query.state =
      some .exchange) (session : Option τ) :
    FromOwn s ⟨x.client, x.query.state.getD [], s.now, session⟩ := by
  obtain ⟨stored, hd, -⟩ := stateCheck_exchange hc
  obtain ⟨token, hcookie, hdecode⟩ := Option.bind_eq_some_iff.mp hd
  -- a state cookie passes with its own state, and no other token that was signed does
  have hown : ∀ client, Own env s client token → ∃ y ∈ s.started, y.client = client ∧
      y.state = x.query.state.getD [] ∧ s.now ≤ y.at_ + oidcStateTtl := by
    intro client ho
    obtain ⟨y, hy, hclient, nonce, he⟩ := ho
    rw [hcookie, he] at hc
    obtain ⟨hst, hle⟩ := exchange_state hs hg hc
    exact ⟨y, hy, hclient, hst.symm, hle⟩
  by_cases hclient : x.client = none
  · rcases h.forged x hx token hcookie hclient with ht | ht
    · rcases h.signed token ht with ⟨client, ho⟩ | ⟨now, user, he⟩
      · obtain ⟨y, hy, -, hst, hle⟩ := hown client ho
        exact ⟨y, hy, hst, h.clock y hy, hle, fun hne => absurd hclient hne⟩
      · rw [hcookie, he] at hc
        exact absurd hc (not_exchange_session hs hg)
    · rw [decodeState, ht] at hdecode
      cases hdecode
  · obtain ⟨y, hy, hcl, hst, hle⟩ := hown x.client (h.sent x hx token hcookie hclient)
    exact ⟨y, hy, hst, h.clock y hy, hle, fun _ => hcl⟩

end

section
variable {ι τ : Type} [DecidableEq ι] {env : Env τ} {s s' : State ι τ}

/-- Where only the cookies of one browser change. -/
theorem inv_setJar (h : Inv env s) (b : ι) (jar : Jar τ) (answered : List (Client ι × Response τ))
    (ha : ∀ x ∈ answered, x ∈ s.answered)
    (hstate : ∀ token ∈ jar.state, token ∈ (s.jars b).state ∨ Own env s (some b) token)
    (hsession : ∀ token ∈ jar.session, token ∈ (s.jars b).session ∨ SignedIn s (some b) token) :
    Inv env { s with jars := setJar s.jars b jar, answered := answered } := by
  refine h.next le_rfl (.inl rfl) (fun _ hx => hx) (fun _ ht => ht) (fun c token ht => ?_)
    (fun c token ht => ?_) (fun _ hx => .inl hx) (fun x hx => .inl (ha x hx)) (fun _ ht => .inl ht)
    fun _ hx => .inl hx
  · change token ∈ (Function.update s.jars b jar c).state at ht
    rw [Function.update_apply] at ht
    split at ht
    · rename_i e
      subst e
      exact hstate token ht
    · exact .inl ht
  · change token ∈ (Function.update s.jars b jar c).session at ht
    rw [Function.update_apply] at ht
    split at ht
    · rename_i e
      subst e
      exact hsession token ht
    · exact .inl ht

theorem inv_login (h : Inv env s) {client : Client ι} {config : OidcSettingsBase}
    {discovered : Discovered} {state nonce : Str} (hf : ∀ x ∈ s.started, x.state ≠ state)
    (hst : step env s (.login client config discovered state nonce) = some s') : Inv env s' := by
  rcases oidcLogin_cases env config discovered s.now state nonce with ⟨url, hr⟩ | ⟨e, hr⟩
  · rw [step, hr] at hst
    cases hst
    have hown (t : State ι τ) (ht : t.started = ⟨client, state, s.now⟩ :: s.started) :
        Own env t client (encodeState env.jose s.now state nonce) :=
      ⟨⟨client, state, s.now⟩, ht ▸ List.mem_cons_self, rfl, nonce, rfl⟩
    refine h.next le_rfl (.inr ⟨_, rfl, le_rfl, fun y hy => (hf y hy).symm⟩) (fun _ hx => hx)
      (fun _ ht => List.mem_cons_of_mem _ ht) (fun _ _ ht => .inl ht) (fun _ _ ht => .inl ht)
      (fun _ hx => .inl hx) (fun x hx => ?_) (fun token ht => ?_) fun _ hx => .inl hx
    · rcases List.mem_append.mp hx with hx | hx
      · exact .inl hx
      · rw [List.mem_singleton.mp hx]
        exact .inr (hown _ rfl)
    · rcases List.mem_cons.mp ht with rfl | ht
      · exact .inr (.inl ⟨client, hown _ rfl⟩)
      · exact .inl ht
  · rw [step, hr] at hst
    cases hst
    refine h.next le_rfl (.inl rfl) (fun _ hx => hx) (fun _ ht => ht) (fun _ _ ht => .inl ht)
      (fun _ _ ht => .inl ht) (fun _ hx => .inl hx) (fun x hx => ?_) (fun _ ht => .inl ht)
      fun _ hx => .inl hx
    rcases List.mem_append.mp hx with hx | hx
    · exact .inl hx
    · rw [List.mem_singleton.mp hx]
      exact .inr trivial

omit [DecidableEq ι] in
/-- A callback that is served, with the state that its query has. -/
theorem inv_callback (hs : env.jose.Sound) (hg : env.jose.Genuine) (h : Inv env s) {x : Sent ι τ}
    (hx : x ∈ s.sent) (n : Nat) (config : OidcSettingsBase) (exchange : Exchange) :
    Inv env (served env s n x config exchange) := by
  have hfrom := fromOwn_of_check hs hg h hx
  have hcheck := check_of_exchanged env config exchange s.now x.cookie x.query s.db
  have htokens := tokens_callback env config exchange s.now x.cookie x.query s.db
  unfold served
  generalize oidcCallback env config exchange s.now x.cookie x.query s.db = out at hcheck htokens
  obtain ⟨exchanged, r, db⟩ := out
  have hrest : ∀ y ∈ s.sent.eraseIdx n, y ∈ s.sent := fun y hy => List.mem_of_mem_eraseIdx hy
  dsimp only at hcheck htokens ⊢
  refine h.next le_rfl (.inl rfl) (fun y hy => List.mem_append_right _ hy)
    (fun token ht => List.mem_append_right _ ht) (fun b token ht => .inl ht)
    (fun b token ht => .inl ht) (fun y hy => .inl (hrest y hy)) (fun y hy => ?_)
    (fun token ht => ?_) fun y hy => ?_
  · rcases List.mem_append.mp hy with hy | hy
    · exact .inl hy
    rw [List.mem_singleton.mp hy]
    refine .inr ?_
    rcases htokens with ⟨user, token, rfl, he, rfl⟩ | hno
    · rw [he]
      exact ⟨_, List.mem_cons_self, rfl, rfl⟩
    · cases r with
      | toProvider | welcome => cases hno
      | raised | toLogin => trivial
  · rcases List.mem_append.mp ht with ht | ht
    · rcases htokens with ⟨user, token', rfl, -, rfl⟩ | hno
      · exact .inr (.inr ⟨s.now, user, List.mem_singleton.mp ht⟩)
      · rw [hno] at ht
        cases ht
    · exact .inl ht
  · rcases List.mem_append.mp hy with hy | hy
    · split at hy
      · rename_i he
        rw [List.mem_singleton.mp hy]
        exact .inr (hfrom (hcheck he) r.session)
      · cases hy
    · exact .inl hy

/-- One event keeps the account. -/
theorem inv_step (hs : env.jose.Sound) (hg : env.jose.Genuine) (h : Inv env s) {e : Event ι τ}
    (hf : Fair env s e) (hst : step env s e = some s') : Inv env s' := by
  cases e with
  | login client config discovered state nonce =>
    exact inv_login h hf hst
  | visit browser q =>
    cases hst
    refine h.next le_rfl (.inl rfl) (fun _ hx => hx) (fun _ ht => ht) (fun _ _ ht => .inl ht)
      (fun _ _ ht => .inl ht) (fun x hx => ?_) (fun _ hx => .inl hx) (fun _ ht => .inl ht)
      fun _ hx => .inl hx
    rcases List.mem_append.mp hx with hx | hx
    · exact .inl hx
    · rw [List.mem_singleton.mp hx]
      refine .inr fun token ht => ?_
      rw [if_neg (Option.some_ne_none browser)]
      exact h.stateCookie browser token ht
  | forge cookie q =>
    cases hst
    refine h.next le_rfl (.inl rfl) (fun _ hx => hx) (fun _ ht => ht) (fun _ _ ht => .inl ht)
      (fun _ _ ht => .inl ht) (fun x hx => ?_) (fun _ hx => .inl hx) (fun _ ht => .inl ht)
      fun _ hx => .inl hx
    rcases List.mem_append.mp hx with hx | hx
    · exact .inl hx
    · rw [List.mem_singleton.mp hx]
      refine .inr fun token ht => ?_
      rw [if_pos rfl]
      exact hf token ht
  | callback n config exchange =>
    obtain ⟨x, hx, rfl⟩ := Option.map_eq_some_iff.mp hst
    exact inv_callback hs hg h (List.mem_of_getElem? hx) n config exchange
  | arrive n =>
    obtain ⟨⟨client, r⟩, hx, rfl⟩ := Option.map_eq_some_iff.mp hst
    have hmem := List.mem_of_getElem? hx
    have hdue := h.answered _ hmem
    have hrest : ∀ y ∈ s.answered.eraseIdx n, y ∈ s.answered := fun y hy =>
      List.mem_of_mem_eraseIdx hy
    cases client with
    | none =>
      exact h.next le_rfl (.inl rfl) (fun _ hx => hx) (fun _ ht => ht) (fun _ _ ht => .inl ht)
        (fun _ _ ht => .inl ht) (fun _ hx => .inl hx) (fun y hy => .inl (hrest y hy))
        (fun _ ht => .inl ht) fun _ hx => .inl hx
    | some b =>
      refine inv_setJar h b _ _ hrest (fun token ht => ?_) fun token ht => ?_
      · cases r with
        | toProvider url t =>
          cases ht
          exact .inr hdue
        | welcome t => cases ht
        | raised | toLogin => exact .inl ht
      · cases r with
        | toProvider url t => exact .inl ht
        | welcome t =>
          cases ht
          exact .inr hdue
        | raised | toLogin => exact .inl ht
  | forget b session =>
    cases hst
    refine inv_setJar h b _ s.answered (fun _ hx => hx) (fun token ht => ?_) fun token ht => ?_
    · cases session
      · cases ht
      · exact .inl ht
    · cases session
      · exact .inl ht
      · cases ht
  | accounts db =>
    cases hst
    exact h.next le_rfl (.inl rfl) (fun _ hx => hx) (fun _ ht => ht) (fun _ _ ht => .inl ht)
      (fun _ _ ht => .inl ht) (fun _ hx => .inl hx) (fun _ hx => .inl hx) (fun _ ht => .inl ht)
      fun _ hx => .inl hx
  | wait seconds =>
    cases hst
    exact h.next (Int.le_add_of_nonneg_right (Int.natCast_nonneg seconds)) (.inl rfl)
      (fun _ hx => hx) (fun _ ht => ht) (fun _ _ ht => .inl ht) (fun _ _ ht => .inl ht)
      (fun _ hx => .inl hx) (fun _ hx => .inl hx) (fun _ ht => .inl ht) fun _ hx => .inl hx

variable (env) in
omit [DecidableEq ι] in
theorem inv_start (h : Start s) : Inv env s where
  clock x hx := by rw [h.started] at hx; cases hx
  distinct := by rw [h.started]; exact List.nodup_nil
  stateCookie b token ht := by rw [h.jars] at ht; cases ht
  sessionCookie b token ht := by rw [h.jars] at ht; cases ht
  sent x hx := by rw [h.sent] at hx; cases hx
  forged x hx := by rw [h.sent] at hx; cases hx
  answered x hx := by rw [h.answered] at hx; cases hx
  signed token ht := by rw [h.signed] at ht; cases ht
  exchanged x hx := by rw [h.exchanged] at hx; cases hx

theorem inv_inductive (hs : env.jose.Sound) (hg : env.jose.Genuine) :
    (flow (ι := ι) env).Inductive (Inv env) where
  init _ h := inv_start env h
  step _ _ _ h hst := inv_step hs hg h hst.1 hst.2

end

/-- A code is exchanged only with the state of a flow that was started at most ten
minutes before, by a browser only with its own, and with no state that another client
was given too; and a browser that has a session was signed in by such an exchange of
its own. -/
structure OwnFlows {ι τ : Type} (s : State ι τ) : Prop where
  exchanged : ∀ x ∈ s.exchanged, ∃ y ∈ s.started, y.state = x.state ∧ y.at_ ≤ x.at_ ∧
    x.at_ ≤ y.at_ + oidcStateTtl ∧ (x.client ≠ none → y.client = x.client ∧
      ∀ z ∈ s.started, z.state = x.state → z.client = x.client)
  session : ∀ b, ∀ token ∈ (s.jars b).session, ∃ x ∈ s.exchanged, x.client = some b ∧
    x.session = some token

/-- However flows, forgeries and accounts interleave. -/
theorem own_flow {ι τ : Type} [DecidableEq ι] (env : Env τ) (hs : env.jose.Sound)
    (hg : env.jose.Genuine) (s : State ι τ) (hr : (flow env).Reachable s) : OwnFlows s := by
  have h := (inv_inductive hs hg).reachable s hr
  refine ⟨fun x hx => ?_, h.sessionCookie⟩
  obtain ⟨y, hy, hst, hle, httl, hclient⟩ := h.exchanged x hx
  refine ⟨y, hy, hst, hle, httl, fun hne => ⟨hclient hne, fun z hz hzst => ?_⟩⟩
  rw [List.inj_on_of_nodup_map h.distinct hz hy (hzst.trans hst.symm)]
  exact hclient hne

/-! ## A sign-in -/

def provider : OidcSettingsBase :=
  ⟨⟨⟨true, false, [], [], [], [], false⟩, "https://id.x.org".toList, "ui".toList⟩,
    [], [], "code".toList, "openid".toList⟩

def start : State Bool Payload := ⟨0, noRows, fun _ => ⟨none, none⟩, [], [], [], [], []⟩

/-- One browser signs in, while another one starts a flow. -/
def signIn : List (Event Bool Payload) :=
  [.login (some true) provider (.document (some "https://id.x.org/a".toList)) "s".toList [],
    .arrive 0, .visit true ⟨some "c".toList, some "s".toList, none⟩,
    .login (some false) provider (.document (some "https://id.x.org/a".toList)) "t".toList [],
    .wait 60, .callback 0 provider (.claims fun _ => some (.text "eve".toList)), .arrive 1]

theorem start_start : Start start :=
  ⟨fun _ => rfl, rfl, rfl, rfl, rfl, rfl⟩

theorem own_flow_signIn :
    ∃ s : State Bool Payload, (s.jars true).session.isSome = true ∧ OwnFlows s := by
  refine ⟨_, ?_, own_flow Instance.plainEnv plainJose_sound plainJose_genuine _
    ⟨start, signIn, start_start,
      .cons ⟨fun x hx => absurd hx List.not_mem_nil, rfl⟩ (.cons ⟨trivial, rfl⟩
        (.cons ⟨trivial, rfl⟩ (.cons ⟨fun x hx => ?_, rfl⟩ (.cons ⟨trivial, rfl⟩
          (.cons ⟨trivial, rfl⟩ (.cons ⟨trivial, rfl⟩ (.nil _)))))))⟩⟩
  · decide +kernel
  · rw [List.mem_singleton.mp hx]
    decide

end MailserverUi.L5.OidcFlow
