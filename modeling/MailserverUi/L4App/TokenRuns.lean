import MailserverUi.L3Service.TokenRows
import MailserverUi.L4App.Principals

/-!
# Whom a personal access token speaks for

The token table refers to accounts by ids that SQLite hands out again, and a
request only presents a string. A token in `tokens` is one that
`pat_service.create` returned, with the `born` of the account as a ghost, and
says whether it was revoked since.

Results:
* `createPat_cases`, `revokePat_cases`: what the token pages commit.
* `carried_step`: a request of another kind, a sign-in or a token in use issues and
  revokes nothing.
* `inv_inductive`: the rows are the tokens that were neither revoked nor removed
  with their account.
* `answered_iff`: in every run, a bearer string without a session cookie is
  answered as an account exactly when it is such a token of that account, when it
  has not expired, and when the account is active.
-/
namespace MailserverUi.L4.TokenRuns

open Py L2.Errors L2.Database L3 Auth UserService Oidc AccountSpec References TokenRows PatService
open Requests RequestsSpec Instance Principals

/-! ## The token pages -/

section
variable {τ : Type} (env : Env τ) (patMaxPerUser now : Int) (cred : Credentials τ) (elapsed : Nat)

/-- `POST /api/users/me/pats`, with its guard. -/
def createPat (secret : Secret) (payload : PatCreate) : Query (PatRow × Str) := do
  let user ← requireSessionLogin env now cred elapsed
  createOwnPat env.digest patMaxPerUser now secret user payload

/-- `DELETE /api/users/me/pats/{pat_id}`, with its guard. -/
def revokePat (patId : Int) : Query Unit := do
  let user ← requireSessionLogin env now cred elapsed
  revokeOwnPat user patId

variable (d : Db)

theorem run_requireSessionLogin : ∃ r pats, Touched d.pats pats ∧
    (requireSessionLogin env now cred elapsed).run sqlite ⟨d, none⟩ =
      (r, ⟨{ d with pats := pats }, none⟩) := by
  obtain ⟨o, pats, ht, ho, -⟩ := run_currentUserOptional env now cred d
  rw [requireSessionLogin, requireUser, Prog.run_bind, Prog.run_bind, ho]
  cases o with
  | none => exact ⟨_, pats, ht, rfl⟩
  | some p => exact ⟨_, pats, ht, run_ofOption _ _ _⟩

theorem run_ownAccount (user : SessionUser) : ∃ r,
    (ownAccount user).run sqlite ⟨d, none⟩ = (r, ⟨d, none⟩) ∧ ∀ u, r = .ok u → u ∈ d.users := by
  have hget : (getByUsername user.username).run sqlite ⟨d, none⟩ =
      (.ok (d.users.findKey user.username), ⟨d, none⟩) := rfl
  rw [ownAccount, Prog.run_bind, hget]
  refine ⟨_, run_ofOption _ _ _, fun u hu => ?_⟩
  cases hf : d.users.findKey user.username with
  | none => rw [hf] at hu; cases hu
  | some v => rw [hf] at hu; cases hu; exact (Table.findKey_eq_some.mp hf).1

/-- What `pat_service.create` commits. -/
theorem run_create (digest : Str → Str) (secret : Secret) (u : UserRow) (name : Str)
    (days : Option Nat) :
    (∃ e w, (create digest patMaxPerUser now secret u name days).run sqlite ⟨d, none⟩ =
      (.error e, ⟨d, w⟩)) ∨
    ∃ p d', strip name ≠ [] ∧
      d.insertPat u.id (strip name) (tokenHintOf (tokenPrefix ++ secret.chars))
        (digest (tokenPrefix ++ secret.chars)) now (expiry now days) = some (p, d') ∧
      (create digest patMaxPerUser now secret u name days).run sqlite ⟨d, none⟩ =
        (.ok (p, tokenPrefix ++ secret.chars), ⟨d', none⟩) := by
  unfold create
  dsimp only
  rw [Prog.run_raiseIf_bind]
  split
  · exact .inl ⟨_, _, rfl⟩
  rename_i hne
  have hlist : (listForUser u.id).run sqlite ⟨d, none⟩ = (.ok (d.patsOfUser u.id), ⟨d, none⟩) := rfl
  rw [Prog.run_bind, hlist]
  dsimp only
  rw [Prog.run_raiseIf_bind]
  split
  · exact .inl ⟨_, _, rfl⟩
  rw [Prog.run_bind, run_write rfl]
  cases hi : d.insertPat u.id (strip name) (tokenHintOf (tokenPrefix ++ secret.chars))
    (digest (tokenPrefix ++ secret.chars)) now (expiry now days) with
  | none =>
    simp only [Tx.view, Option.getD_none, Sql.exec, hi]
    exact .inl ⟨_, _, rfl⟩
  | some r =>
    obtain ⟨p, d'⟩ := r
    obtain ⟨-, hmem, -⟩ := mem_insertPat hi
    have hp : d'.pats.find p.id = some p :=
      Table.find_eq_some.mpr ⟨(hmem p).mpr (.inr rfl), rfl⟩
    refine .inr ⟨p, d', hne, rfl, ?_⟩
    simp only [Tx.view, Option.getD_none, Sql.exec, hi]
    change (refreshPat p.id >>= _).run sqlite ⟨d', none⟩ = _
    rw [refreshPat, Prog.bind_assoc]
    change (Prog.ofOption _ (d'.pats.find p.id) >>= _).run sqlite ⟨d', none⟩ = _
    rw [hp]
    rfl

theorem createPat_cases (secret : Secret) (payload : PatCreate) :
    ∃ pats, Touched d.pats pats ∧
      ((∃ e, session (createPat env patMaxPerUser now cred elapsed secret payload) d =
        (.error e, { d with pats := pats })) ∨
      ∃ u ∈ d.users, ∃ p d', Db.insertPat { d with pats := pats } u.id (strip payload.name)
          (tokenHintOf (tokenPrefix ++ secret.chars)) (env.digest (tokenPrefix ++ secret.chars)) now
          (expiry now payload.expiresInDays) = some (p, d') ∧
        session (createPat env patMaxPerUser now cred elapsed secret payload) d =
          (.ok (p, tokenPrefix ++ secret.chars), d')) := by
  obtain ⟨r, pats, ht, hr⟩ := run_requireSessionLogin env now cred elapsed d
  refine ⟨pats, ht, ?_⟩
  have hfail {e : ApiError} {w : Option Db}
      (h : (createPat env patMaxPerUser now cred elapsed secret payload).run sqlite ⟨d, none⟩ =
        (.error e, ⟨{ d with pats := pats }, w⟩)) :
      ∃ e, session (createPat env patMaxPerUser now cred elapsed secret payload) d =
        (.error e, { d with pats := pats }) := ⟨e, session_of_run h⟩
  cases r with
  | error e => exact .inl (hfail (by rw [createPat, Prog.run_bind, hr]))
  | ok user =>
    obtain ⟨r, ha, hm⟩ := run_ownAccount { d with pats := pats } user
    cases r with
    | error e =>
      refine .inl (hfail (w := none) (e := e) ?_)
      rw [createPat, Prog.run_bind, hr]
      dsimp only
      rw [createOwnPat, Prog.run_bind, ha]
    | ok u =>
      have hrun : (createPat env patMaxPerUser now cred elapsed secret payload).run sqlite
          ⟨d, none⟩ = (create env.digest patMaxPerUser now secret u payload.name
            payload.expiresInDays).run sqlite ⟨{ d with pats := pats }, none⟩ := by
        rw [createPat, Prog.run_bind, hr]
        dsimp only
        rw [createOwnPat, Prog.run_bind, ha]
      rcases run_create patMaxPerUser now { d with pats := pats } env.digest secret u payload.name
        payload.expiresInDays with ⟨e, w, h⟩ | ⟨p, d', -, hi, h⟩
      · exact .inl (hfail (hrun.trans h))
      · exact .inr ⟨u, hm u rfl, p, d', hi, session_of_run (hrun.trans h)⟩

theorem revokePat_cases (patId : Int) :
    ∃ pats, Touched d.pats pats ∧
      ((∃ e, session (revokePat env now cred elapsed patId) d =
        (.error e, { d with pats := pats })) ∨
      ∃ p ∈ pats, p.id = patId ∧ session (revokePat env now cred elapsed patId) d =
        (.ok (), Db.deletePat { d with pats := pats } p.id)) := by
  obtain ⟨r, pats, ht, hr⟩ := run_requireSessionLogin env now cred elapsed d
  refine ⟨pats, ht, ?_⟩
  cases r with
  | error e =>
    refine .inl ⟨e, session_of_run (t := ⟨_, none⟩) ?_⟩
    rw [revokePat, Prog.run_bind, hr]
  | ok user =>
    obtain ⟨r, ha, -⟩ := run_ownAccount { d with pats := pats } user
    cases r with
    | error e =>
      refine .inl ⟨e, session_of_run (t := ⟨_, none⟩) ?_⟩
      rw [revokePat, Prog.run_bind, hr]
      dsimp only
      rw [revokeOwnPat, Prog.run_bind, ha]
    | ok u =>
      have hget : (getForUser patId u.id).run sqlite ⟨{ d with pats := pats }, none⟩ =
          (.ok ((pats.find patId).filter fun p => p.userId = u.id),
            ⟨{ d with pats := pats }, none⟩) := rfl
      cases hp : (pats.find patId).filter fun p => p.userId = u.id with
      | none =>
        refine .inl ⟨notFound "Personal access token" (idText patId),
          session_of_run (t := ⟨_, none⟩) ?_⟩
        rw [revokePat, Prog.run_bind, hr]
        dsimp only
        rw [revokeOwnPat, Prog.run_bind, ha]
        dsimp only
        rw [Prog.run_bind, hget, hp]
        rfl
      | some p =>
        obtain ⟨hm, hid⟩ := Table.find_eq_some.mp (Option.filter_eq_some_iff.mp hp).1
        refine .inr ⟨p, hm, hid, session_of_run (t := ⟨_, none⟩) ?_⟩
        rw [revokePat, Prog.run_bind, hr]
        dsimp only
        rw [revokeOwnPat, Prog.run_bind, ha]
        dsimp only
        rw [Prog.run_bind, hget, hp]
        rfl

end

/-! ## Everything else -/

section
variable {d d' : Db}

theorem carried_done {req : Request} (hd : Done d req d') (hn : NoOrphans d) : Carried d d' := by
  cases hd with
  | createUser _ hi => exact carried_insertUser hi hn
  | deleteUser => exact carried_deleteUser _ hn
  | setUserStatus => exact carried_updateUser _ _ hn
  | createGroup hi =>
    obtain ⟨t, ht, he⟩ := Option.map_eq_some_iff.mp hi
    cases he
    exact carried_of_rows rfl rfl rfl hn
  | updateGroup _ hi =>
    obtain ⟨t, ht, rfl⟩ := Option.map_eq_some_iff.mp hi
    exact carried_of_rows rfl rfl rfl hn
  | deleteGroup => exact carried_of_rows rfl rfl rfl hn
  | addUsersToGroup groupId userIds =>
    exact carried_of_rows linked_rows.2.1 linked_rows.1 (congrArg keysOf linked_rows.2.2) hn
  | addUserToGroup groupId userId =>
    unfold Db.insertLink
    split <;> exact carried_of_rows rfl rfl rfl hn
  | removeUserFromGroup => exact carried_of_rows rfl rfl rfl hn

theorem noOrphans_touched {pats : Pats} (ht : Touched d.pats pats) (hn : NoOrphans d) :
    NoOrphans { d with pats := pats } := by
  intro k hk
  rw [keysOf_touched ht] at hk
  exact hn k hk

theorem carried_pats {pats : Pats} (ht : Touched d.pats pats) (hn : NoOrphans d) :
    Carried d { d with pats := pats } :=
  carried_touched ht (carried_of_rows rfl rfl rfl (noOrphans_touched ht hn))

end

section
variable {τ : Type} (env : Env τ)

/-- Account and group requests and sign-ins neither issue nor revoke. -/
theorem carried_step (s : State τ) (e : Event τ) (hn : NoOrphans s.db) :
    Carried s.db (Instance.step env s e).db := by
  cases e with
  | login config username password =>
    obtain ⟨r, hr, -⟩ := login_cases env s.db config username password
    simp only [Instance.step, hr, signIn]
    exact carried_of_rows rfl rfl rfl hn
  | oidcCallback config claims =>
    rcases oidcCallback_cases s.db config claims with
      ⟨r, hr, -⟩ | ⟨p, -, ⟨u, d, hi, hr⟩ | ⟨u, -, -, -, -, hr⟩⟩
    · simp only [Instance.step, hr, signIn]
      exact carried_of_rows rfl rfl rfl hn
    · simp only [Instance.step, hr, signIn]
      exact carried_insertUser hi hn
    · simp only [Instance.step, hr, signIn]
      exact carried_updateUser _ _ hn
  | request cred req =>
    obtain ⟨pats, ht, h | ⟨-, hd⟩⟩ := serve_cases env s.now s.db cred req
    · simp only [Instance.step, h]
      exact carried_pats ht hn
    · exact carried_touched ht (carried_done hd (noOrphans_touched ht hn))
  | wait n => exact carried_of_rows rfl rfl rfl hn

end

/-! ## Runs -/

/-- A token that `create` returned. -/
structure Token where
  raw : Str
  expiresAt : Option Int
  /-- ghost: the account it was issued to -/
  born : Nat
  revoked : Bool

structure Server (τ : Type) where
  inst : State τ
  tokens : List Token

inductive Action (τ : Type) where
  | account (e : Event τ)
  | use (cred : Credentials τ)
  | createPat (cred : Credentials τ) (elapsed : Nat) (secret : Secret) (payload : PatCreate)
  | revokePat (cred : Credentials τ) (elapsed : Nat) (patId : Int)

section
variable {τ : Type} (env : Env τ) (patMaxPerUser : Int)

/-- What `create` returned, with the account of its row. -/
def issuedTo (d : Db) (r : PatRow × Str) : Option Token :=
  (d.users.find r.1.userId).map fun u => ⟨r.2, r.1.expiresAt, u.born, false⟩

/-- The row is the one of the token. -/
def Token.revoke (digest : Str → Str) (p : PatRow) (tok : Token) : Token :=
  if digest tok.raw = p.tokenHash then { tok with revoked := true } else tok

def next (s : Server τ) : Action τ → Server τ
  | .account e => { s with inst := Instance.step env s.inst e }
  | .use cred =>
    { s with inst.db := (session (currentUserOptional env s.inst.now cred) s.inst.db).2 }
  | .createPat cred elapsed secret payload =>
    let out := session (createPat env patMaxPerUser s.inst.now cred elapsed secret payload)
      s.inst.db
    { inst := { s.inst with db := out.2 }
      tokens := (out.1.toOption.bind (issuedTo s.inst.db)).toList ++ s.tokens }
  | .revokePat cred elapsed patId =>
    let out := session (revokePat env s.inst.now cred elapsed patId) s.inst.db
    { inst := { s.inst with db := out.2 }
      tokens :=
        match out.1, s.inst.db.pats.find patId with
        | .ok _, some p => s.tokens.map (Token.revoke env.digest p)
        | _, _ => s.tokens }

/-- No token yet. -/
def Unissued (s : Server τ) : Prop := s.tokens = [] ∧ s.inst.db.pats.rows = []

def runs : LTS (Server τ) (Action τ) :=
  LTS.ofFn Unissued fun s a => some (next env patMaxPerUser s a)

/-- The rows are the tokens that are not revoked, of the accounts that are there. -/
structure Inv (s : Server τ) : Prop where
  noOrphans : NoOrphans s.inst.db
  rows : ∀ hash exp b, Owned s.inst.db hash exp b ↔
    (∃ tok ∈ s.tokens, env.digest tok.raw = hash ∧ tok.expiresAt = exp ∧ tok.born = b ∧
      tok.revoked = false) ∧ ∃ u ∈ s.inst.db.users, u.born = b
  raw : ∀ tok ∈ s.tokens, ∃ secret : Secret, tok.raw = tokenPrefix ++ secret.chars
  born : ∀ tok ∈ s.tokens, tok.born < s.inst.db.born

variable {env patMaxPerUser}

/-- A step that issues and revokes nothing. -/
theorem Inv.carried {s : Server τ} (h : Inv env s) {inst : State τ}
    (hc : Carried s.inst.db inst.db) : Inv env { s with inst := inst } where
  noOrphans := hc.noOrphans
  rows hash exp b := by
    rw [owned_carried hc h.noOrphans, h.rows, and_assoc, and_congr_right_iff]
    rintro ⟨tok, ht, -, -, rfl, -⟩
    refine ⟨fun hboth => hboth.2, fun hnew => ⟨?_, hnew⟩⟩
    obtain ⟨v, hv, hb⟩ := hnew
    obtain ⟨u, hu, -, e⟩ := hc.old hv (hb ▸ h.born tok ht)
    exact ⟨u, hu, e.trans hb⟩
  raw := h.raw
  born tok ht := (h.born tok ht).trans_le hc.born

/-- Only the last use of a token changed. -/
theorem Inv.touched {s : Server τ} (h : Inv env s) {pats : Pats}
    (ht : Touched s.inst.db.pats pats) : Inv env { s with inst.db.pats := pats } :=
  h.carried (carried_pats ht h.noOrphans)

theorem Inv.createPat {s : Server τ} (h : Inv env s) (cred : Credentials τ) (elapsed : Nat)
    (secret : Secret) (payload : PatCreate) :
    Inv env (next env patMaxPerUser s (.createPat cred elapsed secret payload)) := by
  obtain ⟨pats, ht, ⟨e, hr⟩ | ⟨u, hu, p, d', hi, hr⟩⟩ :=
    createPat_cases env patMaxPerUser s.inst.now cred elapsed s.inst.db secret payload
  · simp only [next, hr]
    exact h.touched ht
  have ht := h.touched ht
  obtain ⟨hp, -, husers, -, -⟩ := mem_insertPat hi
  have hborn : d'.born = s.inst.db.born := by
    obtain ⟨t, -, e⟩ := Option.map_eq_some_iff.mp hi
    cases e
    rfl
  have hfind : s.inst.db.users.find p.userId = some u :=
    Table.find_eq_some.mpr ⟨hu, by rw [hp]⟩
  simp only [next, hr, Except.toOption, Option.bind_some, issuedTo, hfind, Option.map_some,
    Option.toList_some, List.singleton_append]
  constructor
  · intro k hk
    rw [husers]
    rcases (keysOf_insertPat hi k).mp hk with hk | rfl
    · exact ht.noOrphans k hk
    · exact ⟨u, hu, rfl⟩
  · intro hash exp b
    have howned := owned_insertPat (d := { s.inst.db with pats := pats }) hu hi
      (h := hash) (e := exp) (b := b)
    rw [howned, ht.rows, husers]
    have hexp : p.expiresAt = expiry s.inst.now payload.expiresInDays := by rw [hp]
    simp only [List.mem_cons, exists_eq_or_imp, hexp]
    constructor
    · rintro (⟨hold, hrow⟩ | ⟨rfl, rfl, rfl⟩)
      · exact ⟨.inr hold, hrow⟩
      · exact ⟨.inl ⟨rfl, rfl, rfl, trivial⟩, u, hu, rfl⟩
    · rintro ⟨⟨rfl, rfl, rfl, -⟩ | hold, hrow⟩
      · exact .inr ⟨rfl, rfl, rfl⟩
      · exact .inl ⟨hold, hrow⟩
  · intro tok htok
    rcases List.mem_cons.mp htok with rfl | htok
    · exact ⟨secret, rfl⟩
    · exact h.raw tok htok
  · intro tok htok
    rw [hborn]
    rcases List.mem_cons.mp htok with rfl | htok
    · exact s.inst.db.born_lt u hu
    · exact h.born tok htok

theorem mem_of_touched {pats pats' : Pats} (ht : Touched pats pats') {p : PatRow} (hp : p ∈ pats') :
    ∃ q ∈ pats, q.id = p.id ∧ q.tokenHash = p.tokenHash := by
  have hm : ({ p with lastUsedAt := none } : PatRow) ∈
      pats.rows.map fun q => { q with lastUsedAt := none } := by
    rw [← ht]
    exact List.mem_map.mpr ⟨p, hp, rfl⟩
  obtain ⟨q, hq, e⟩ := List.mem_map.mp hm
  have hid := congrArg PatRow.id e
  have hhash := congrArg PatRow.tokenHash e
  exact ⟨q, hq, hid, hhash⟩

theorem Token.revoke_eq {digest : Str → Str} {p : PatRow} {tok : Token} :
    (tok.revoke digest p).raw = tok.raw ∧ (tok.revoke digest p).expiresAt = tok.expiresAt ∧
      (tok.revoke digest p).born = tok.born ∧ ((tok.revoke digest p).revoked = false ↔
        tok.revoked = false ∧ digest tok.raw ≠ p.tokenHash) := by
  unfold Token.revoke
  split
  · rename_i h
    exact ⟨rfl, rfl, rfl, iff_of_false (by simp) fun hn => hn.2 h⟩
  · rename_i h
    exact ⟨rfl, rfl, rfl, ⟨fun hr => ⟨hr, h⟩, fun hr => hr.1⟩⟩

theorem Inv.revokePat {s : Server τ} (h : Inv env s) (cred : Credentials τ) (elapsed : Nat)
    (patId : Int) : Inv env (next env patMaxPerUser s (.revokePat cred elapsed patId)) := by
  obtain ⟨pats, ht, ⟨e, hr⟩ | ⟨p, hp, rfl, hr⟩⟩ :=
    revokePat_cases env s.inst.now cred elapsed s.inst.db patId
  · simp only [next, hr]
    exact h.touched ht
  obtain ⟨q, hq, hid, hhash⟩ := mem_of_touched ht hp
  have hfind : s.inst.db.pats.find p.id = some q := Table.find_eq_some.mpr ⟨hq, hid⟩
  have ht := h.touched ht
  simp only [next, hr, hfind]
  constructor
  · rintro k hk
    obtain ⟨r, hr, rfl⟩ := List.mem_map.mp hk
    exact ht.noOrphans _ (List.mem_map_of_mem (Table.mem_filter.mp hr).1)
  · intro hash exp b
    have hdel : Owned (Db.deletePat { s.inst.db with pats := pats } p.id) hash exp b ↔
        Owned { s.inst.db with pats := pats } hash exp b ∧ hash ≠ p.tokenHash := owned_deletePat hp
    rw [hdel, ht.rows, and_right_comm]
    refine and_congr_left fun _ => ?_
    simp only [List.mem_map, exists_exists_and_eq_and, Token.revoke_eq, hhash]
    constructor
    · rintro ⟨⟨tok, htok, rfl, rfl, rfl, hrev⟩, hne⟩
      exact ⟨tok, htok, rfl, rfl, rfl, hrev, hne⟩
    · rintro ⟨tok, htok, rfl, rfl, rfl, hrev, hne⟩
      exact ⟨⟨tok, htok, rfl, rfl, rfl, hrev⟩, hne⟩
  · intro tok htok
    obtain ⟨tok', htok', rfl⟩ := List.mem_map.mp htok
    rw [Token.revoke_eq.1]
    exact h.raw tok' htok'
  · intro tok htok
    obtain ⟨tok', htok', rfl⟩ := List.mem_map.mp htok
    rw [Token.revoke_eq.2.2.1]
    exact h.born tok' htok'

theorem inv_inductive : (runs env patMaxPerUser).Inductive (Inv env) where
  init s h := by
    obtain ⟨htok, hrows⟩ := h
    have hkeys : keysOf s.inst.db.pats = [] := by rw [keysOf, hrows, List.map_nil]
    refine ⟨fun k hk => ?_, fun hash exp b => ?_, ?_, ?_⟩
    · rw [hkeys] at hk
      cases hk
    · simp only [Owned, hkeys, htok, List.not_mem_nil, false_and, and_false, exists_false]
    · simp only [htok, List.not_mem_nil, false_imp_iff, implies_true]
    · simp only [htok, List.not_mem_nil, false_imp_iff, implies_true]
  step s a s' h hs := by
    cases hs
    cases a with
    | account e => exact h.carried (carried_step env s.inst e h.noOrphans)
    | use cred =>
      obtain ⟨r, pats, ht, hr, -⟩ := run_currentUserOptional env s.inst.now cred s.inst.db
      simp only [next, session_of_run hr]
      exact h.touched ht
    | createPat cred elapsed secret payload => exact h.createPat cred elapsed secret payload
    | revokePat cred elapsed patId => exact h.revokePat cred elapsed patId

/-! ## What a bearer string is answered as -/

theorem bare_raw (secret : Secret) : bare (tokenPrefix ++ secret.chars) = secret.chars := by
  rw [bare, if_pos (by simp), List.drop_left]

theorem bare_raw_ne_nil (secret : Secret) : bare (tokenPrefix ++ secret.chars) ≠ [] := by
  intro h
  have := secret.length_chars
  rw [← bare_raw secret, h] at this
  cases this

/-- An account is found under a token that it owns and that has not expired. -/
theorem accountOf_eq_some {d : Db} {digest : Str → Str} {now : Int} {raw : Str} {u : UserRow} :
    accountOf d digest now raw = some u ↔ bare (strip raw) ≠ [] ∧ u ∈ d.users ∧
      ∃ exp, Owned d (digest (strip raw)) exp u.born ∧ ∀ e ∈ exp, now < e := by
  have hexpired {p : PatRow} : isExpired p now = false ↔ ∀ e ∈ p.expiresAt, now < e := by
    rw [isExpired]
    cases p.expiresAt <;> simp
  rw [accountOf, Option.ite_none_left_eq_some, Option.bind_eq_some_iff]
  refine and_congr_right fun _ => ?_
  simp only [Option.filter_eq_some_iff, Table.findKey_eq_some, Table.find_eq_some,
    decide_eq_true_eq, hexpired]
  constructor
  · rintro ⟨p, ⟨⟨hp, hk⟩, he⟩, hu, hid⟩
    refine ⟨hu, p.expiresAt, ⟨u, hu, List.mem_map.mpr ⟨p, hp, ?_⟩, rfl⟩, he⟩
    rw [key, hk, hid]
  · rintro ⟨hu, exp, ⟨v, hv, hk, hb⟩, he⟩
    obtain rfl := d.born_inj v hv u hu hb
    obtain ⟨p, hp, e⟩ := List.mem_map.mp hk
    simp only [key, Prod.mk.injEq] at e
    obtain ⟨hid, hhash, rfl⟩ := e
    exact ⟨p, ⟨⟨hp, hhash⟩, he⟩, hv, hid.symm⟩

theorem presentedPat_eq_some {cred : Credentials τ} {raw : Str} :
    presentedPat env cred = some raw ↔
      env.patsEnabled = true ∧ cred.bearer = some raw ∧ tokenPrefix <+: raw := by
  rw [presentedPat, Option.ite_none_right_eq_some, Option.filter_eq_some_iff,
    List.isPrefixOf_iff_prefix]

/-- In every state of every run, whatever the digest of an issued token: without a
session cookie that decodes, a request is answered as an account, if as anybody,
and as the account `u` exactly when tokens are enabled, the bearer string starts
like a token and is, stripped, one that was issued to `u` and not revoked since,
its expiry is later than now, and `u` is active. -/
theorem answered_iff (hdigest : Function.Injective env.digest) {s : Server τ}
    (hs : (runs env patMaxPerUser).Reachable s) (cred : Credentials τ)
    (hc : cookieUser env s.inst.now cred = none) :
    (∃ r, answeredAs env s.inst.now cred s.inst.db = .ok r ∧
      ∀ p, r = some p → ∃ u ∈ s.inst.db.users, p = sessionUser s.inst.db u) ∧
    ∀ u ∈ s.inst.db.users,
      answeredAs env s.inst.now cred s.inst.db = .ok (some (sessionUser s.inst.db u)) ↔
        env.patsEnabled = true ∧ (∃ b, cred.bearer = some b ∧ tokenPrefix <+: b ∧
          ∃ tok ∈ s.tokens, tok.raw = strip b ∧ tok.born = u.born ∧ tok.revoked = false ∧
            ∀ e ∈ tok.expiresAt, s.inst.now < e) ∧ u.isActive = true := by
  have hinv := inv_inductive.reachable s hs
  obtain ⟨pats, -, hr⟩ := run_currentUser_pat env s.inst.now cred s.inst.db hc
  rw [answeredAs, session_of_run hr]
  refine ⟨⟨_, rfl, fun p hp => ?_⟩, fun u hu => ?_⟩
  · obtain ⟨u, hu, -, rfl⟩ := of_principal hp
    obtain ⟨raw, -, hm⟩ := Option.bind_eq_some_iff.mp hu
    exact ⟨u, mem_of_accountOf _ hm, rfl⟩
  have hsame : ∀ v ∈ s.inst.db.users, sessionUser s.inst.db v = sessionUser s.inst.db u → v = u :=
    fun v hv e => Table.eq_of_key hv hu (congrArg SessionUser.username e)
  -- the token that the bearer string is
  have htok : ∀ b, accountOf s.inst.db env.digest s.inst.now b = some u ↔
      ∃ tok ∈ s.tokens, tok.raw = strip b ∧ tok.born = u.born ∧ tok.revoked = false ∧
        ∀ e ∈ tok.expiresAt, s.inst.now < e := by
    intro b
    simp only [accountOf_eq_some, hu, true_and, hinv.rows]
    constructor
    · rintro ⟨-, exp, ⟨⟨tok, ht, hd, rfl, hb, hrev⟩, -⟩, he⟩
      exact ⟨tok, ht, hdigest hd, hb, hrev, he⟩
    · rintro ⟨tok, ht, hraw, hb, hrev, he⟩
      obtain ⟨secret, hsec⟩ := hinv.raw tok ht
      refine ⟨?_, tok.expiresAt, ⟨⟨tok, ht, by rw [hraw], rfl, hb, hrev⟩, u, hu, rfl⟩, he⟩
      rw [← hraw, hsec]
      exact bare_raw_ne_nil secret
  rw [Except.ok.injEq]
  constructor
  · intro h
    obtain ⟨v, hv, ha, e⟩ := of_principal h
    obtain ⟨b, hb, hm⟩ := Option.bind_eq_some_iff.mp hv
    obtain rfl := hsame v (mem_of_accountOf _ hm) e.symm
    obtain ⟨hen, hbearer, hpre⟩ := presentedPat_eq_some.mp hb
    exact ⟨hen, ⟨b, hbearer, hpre, (htok b).mp hm⟩, ha⟩
  · rintro ⟨hen, ⟨b, hbearer, hpre, htk⟩, ha⟩
    have hb : presentedPat env cred = some b := presentedPat_eq_some.mpr ⟨hen, hbearer, hpre⟩
    rw [hb, Option.bind_some, (htok b).mpr htk, Option.filter, if_pos ha]
    rfl

end

/-! ## A token of `bob` -/

def secret : Secret :=
  ⟨List.replicate 43 'a', rfl, fun c hc => by simp [(List.mem_replicate.mp hc).2]⟩

/-- For one day. -/
def script : PatCreate := ⟨"script".toList, some 1, by decide, by decide⟩

/-- `bob` issues a token, revokes it, and issues another one, which is used. -/
def useOfTokens : List (Action Payload) :=
  withBob.map .account ++ [.createPat (cookie "bob" .guest) 0 secret script,
    .revokePat (cookie "bob" .guest) 0 1, .createPat (cookie "bob" .guest) 0 secret script,
    .account (.wait 3600000000), .use ⟨none, some (tokenPrefix ++ secret.chars)⟩]

/-- With a line break behind, as a script may send it. -/
def presented : Credentials Payload := ⟨none, some (tokenPrefix ++ secret.chars ++ ['\n'])⟩

theorem answered_iff_bob : ∃ s, (runs patEnv 10).Reachable s ∧ s.tokens.length = 2 ∧
    ∃ u ∈ s.inst.db.users, u.username = "bob".toList ∧
      answeredAs patEnv s.inst.now presented s.inst.db = .ok (some (sessionUser s.inst.db u)) := by
  obtain ⟨s, hs, hp⟩ := LTS.reachable_of_exec (f := fun s a => some (next patEnv 10 s a))
    (I := Unissued) (s := ⟨seeded, []⟩) ⟨rfl, by decide +kernel⟩ useOfTokens
    (fun s => s.tokens.length = 2 ∧ ∃ u ∈ s.inst.db.users.rows, u.username = "bob".toList ∧
      u.isActive = true ∧ ∃ tok ∈ s.tokens,
        tok.raw = strip (tokenPrefix ++ secret.chars ++ ['\n']) ∧ tok.born = u.born ∧
          tok.revoked = false ∧ ∀ e ∈ tok.expiresAt, s.inst.now < e) (by decide +kernel)
  obtain ⟨hlen, u, hu, hname, ha, htok⟩ := of_decide_eq_true hp
  have hanswer := (@answered_iff _ patEnv 10 Function.injective_id s hs presented rfl).2 u hu
  exact ⟨s, hs, hlen, u, hu, hname, hanswer.mpr ⟨rfl, ⟨_, rfl, by decide +kernel, htok⟩, ha⟩⟩

end MailserverUi.L4.TokenRuns
