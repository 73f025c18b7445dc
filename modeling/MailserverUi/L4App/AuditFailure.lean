import MailserverUi.L4App.Audited
import MailserverUi.L4App.EffectiveRole
import MailserverUi.L4App.TokenRuns

/-!
# An entry that cannot be written

`record` swallows the failure of its commit, so that the action it describes is
answered as if nothing had happened. The rollback that goes with it expires the
instances of the session, and five of the seven handlers of accounts and tokens
read the row they changed once more, for their answer.

Results:
* `serve_user`: the answer made of a row, with the entry written and without.
* `same_response_iff`: for every state, principal and action that succeeds, the
  answer is the same exactly where it is not made of the row, or where the row
  cannot be answered either way.
* `lost_answer`: an account is created, and the answer is an error.
-/
namespace MailserverUi.L4.AuditFailure

open Py L2.Errors L2.Database L3 Auth UserService AccountSpec AuditService Requests Audited
open EffectiveRole Instance

/-! ## Answers -/

/-- The answer is that of the row, where it fits the schema. -/
theorem run_toPublic_fits (t : Tx Db) {u : UserRow} (h : u.id ≠ 0) :
    (toPublic u).run sqlite t = (if Fits u then .ok (.ofRow u (roleOf t.view u))
      else .error .internal, t) := by
  rw [toPublic, Prog.run_bind, run_resolveRole t h]
  refine (run_ofOption t _ _).trans ?_
  have hpublic : publicOf u (roleOf t.view u) =
      if Fits u then some (.ofRow u (roleOf t.view u)) else none := rfl
  rw [hpublic]
  split <;> rfl

theorem run_answering {α : Type} (f : α → Body) (h : Query (Ending α)) (t : Tx Db) :
    (answering f h).run sqlite t = ((h.run sqlite t).1.map (Ending.map f), (h.run sqlite t).2) := by
  rw [answering, Prog.run_bind]
  generalize h.run sqlite t = r
  obtain ⟨r, t'⟩ := r
  cases r <;> rfl

section
variable (now : Int) (clientIp : Option Str) (d : Db) (trail : AuditTable)

/-- What a client is answered. -/
def response (h : Query (Ending Body)) (commits : Bool) : Except ApiError Body :=
  (serve h commits now clientIp d trail).1

/-- The client cannot tell whether the entry was written. -/
def Same (h : Query (Ending Body)) : Prop :=
  response now clientIp d trail h true = response now clientIp d trail h false

/-- The action is done. -/
def Succeeds (h : Query (Ending Body)) : Prop := (session h d).1.isOk = true

/-- The action is done, and the answer is made of the row `u`. -/
def AnswersWith (h : Query (Ending UserPublic)) (u : UserRow) : Prop :=
  ∃ entry d', u ∈ d'.users ∧ h.run sqlite ⟨d, none⟩ =
    (.ok ⟨some entry, fun loaded => whileLoaded loaded (toPublic u)⟩, ⟨d', none⟩)

variable {d}

theorem isOk_of_succeeds {α : Type} {f : α → Body} {h : Query (Ending α)}
    (hs : Succeeds d (answering f h)) : (h.run sqlite ⟨d, none⟩).1.isOk = true := by
  unfold Succeeds session at hs
  rw [run_answering] at hs
  generalize (h.run sqlite ⟨d, none⟩).1 = r at hs
  cases r with
  | error e => cases hs
  | ok a => rfl

/-- Where the action returns a row, it is there and as `P` says. -/
def Returns (d : Db) (q : Query UserRow) (P : UserRow → Prop) : Prop :=
  ∀ u t, q.run sqlite ⟨d, none⟩ = (.ok u, t) → ∃ d', t = ⟨d', none⟩ ∧ u ∈ d'.users ∧ P u

/-- A handler whose action returns a row. -/
theorem answersWith_bind {q : Query UserRow} {P : UserRow → Prop} (hq : Returns d q P)
    {e : UserRow → Entry}
    (hs : Succeeds d (answering .user (q >>= fun u =>
      return ⟨some (e u), fun loaded => whileLoaded loaded (toPublic u)⟩))) :
    ∃ u, P u ∧ AnswersWith d (q >>= fun u =>
      return ⟨some (e u), fun loaded => whileLoaded loaded (toPublic u)⟩) u := by
  have hok := isOk_of_succeeds hs
  rw [Prog.run_bind] at hok
  cases hr : q.run sqlite ⟨d, none⟩ with
  | mk r t =>
    rw [hr] at hok
    cases r with
    | error err => cases hok
    | ok u =>
      obtain ⟨d', rfl, hu, hp⟩ := hq u t hr
      refine ⟨u, hp, e u, d', hu, ?_⟩
      rw [Prog.run_bind, hr]
      rfl

/-- With the entry written the row is answered, without it nothing is. -/
theorem serve_user {h : Query (Ending UserPublic)} {u : UserRow} (ha : AnswersWith d h u) :
    Same now clientIp d trail (answering .user h) ↔ ¬ Fits u := by
  obtain ⟨entry, d', hu, hr⟩ := ha
  have hrun : (answering .user h).run sqlite ⟨d, none⟩ =
      (.ok (Ending.map .user ⟨some entry, fun loaded => whileLoaded loaded (toPublic u)⟩),
        ⟨d', none⟩) := by
    rw [run_answering, hr]
    rfl
  have htrue : response now clientIp d trail (answering .user h) true =
      if Fits u then .ok (.user (.ofRow u (roleOf d' u))) else .error .internal := by
    rw [response, serve_ok hrun rfl]
    change ((toPublic u >>= fun p => (return Body.user p : Query Body)).run sqlite
      ⟨d', none⟩).1 = _
    rw [Prog.run_bind, run_toPublic_fits _ (id_ne_zero hu)]
    by_cases hf : Fits u
    · rw [if_pos hf, if_pos hf]
      rfl
    · rw [if_neg hf, if_neg hf]
  have hfalse : response now clientIp d trail (answering .user h) false = .error .internal := by
    rw [response, serve_ok hrun rfl]
    rfl
  rw [Same, htrue, hfalse]
  by_cases hf : Fits u
  · rw [if_pos hf]
    exact iff_of_false (fun h => by cases h) fun hn => hn hf
  · rw [if_neg hf]
    exact iff_of_true rfl hf

theorem yields_any {α : Type} (q : Query α) :
    q.Yields statements Sql.kind (fun _ => True) fun _ => True :=
  fun _ _ => ⟨⟨trivial, trivial⟩, fun _ _ => trivial⟩

/-- A handler that reads nothing after `record`. -/
theorem same_of_done {h : Query (Ending Unit)}
    (hy : h.Yields statements Sql.kind (fun _ => True) fun e =>
      ∀ loaded, e.answer loaded = .pure ()) (f : Unit → Body) : Same now clientIp d trail (answering f h) := by
  have he := (hy ⟨d, none⟩ ⟨trivial, trivial⟩).2
  unfold Same response serve
  rw [run_answering]
  change (∀ a, (h.run sqlite ⟨d, none⟩).1 = .ok a → _) at he
  generalize h.run sqlite ⟨d, none⟩ = r at he
  obtain ⟨r, t⟩ := r
  cases r with
  | error e => rfl
  | ok ending =>
    obtain ⟨entry, answer⟩ := ending
    obtain rfl : answer = fun _ => .pure () := funext (he _ rfl)
    cases entry <;> rfl

end

/-! ## The actions -/

section
variable {d : Db}

theorem fits_on {u : UserRow} {set : UserSet} (h : set.displayName = none) :
    Fits (set.on u) ↔ Fits u := by
  unfold Fits UserSet.on
  rw [h]
  rfl

theorem returns_createLocalUser (payload : UserCreate) (hash : Option Str) :
    Returns d (createLocalUser payload.username payload.displayName hash) Fits := by
  intro u t h
  rcases run_createLocalUser d payload.username payload.displayName hash with
    ⟨e, w, hr⟩ | ⟨_, v, d', rfl, hne, hi, hr⟩
  · rw [hr] at h
    cases h
  · rw [hr] at h
    cases h
    obtain ⟨rfl, hmem, -, -⟩ := insertUser_spec hi
    refine ⟨d', rfl, (hmem _).mpr (.inr rfl), List.length_pos_of_ne_nil hne, ?_, ?_⟩
    · exact (length_strip_le _).trans payload.username_length.2
    · exact (length_strip_le _).trans payload.displayName_length

/-- The row that an update returns fits as it did before. -/
theorem returns_set {u : UserRow} (hu : u ∈ d.users) {q : Query UserRow} (set : UserSet)
    (hset : set.displayName = none)
    (hq : ∀ v t, q.run sqlite ⟨d, none⟩ = (.ok v, t) →
      v = set.on u ∧ t = ⟨d.updateUser u.id set, none⟩) :
    Returns d q fun v => Fits v ↔ Fits u := by
  intro v t h
  obtain ⟨rfl, rfl⟩ := hq v t h
  exact ⟨_, rfl, mem_updateUser.mpr ⟨u, hu, (if_pos rfl).symm⟩, fits_on hset⟩

theorem returns_setPassword {u : UserRow} (hu : u ∈ d.users) (hash : Option Str) :
    Returns d (setPassword u hash) fun v => Fits v ↔ Fits u := by
  cases hash with
  | none => exact fun v t h => by cases h
  | some hash =>
    refine returns_set hu { passwordHash := some hash } rfl fun v t h => ?_
    rw [run_setPassword d hu hash] at h
    cases h
    exact ⟨rfl, rfl⟩

theorem returns_setActive {u : UserRow} (hu : u ∈ d.users) (isActive : Bool) :
    Returns d (setActive u isActive) fun v => Fits v ↔ Fits u := by
  refine returns_set hu
    { isActive := if u.isActive = isActive then none else some isActive } rfl
    fun v t h => ?_
  rcases run_setActive d hu isActive with ⟨e, hr⟩ | ⟨-, hr⟩
  · rw [hr] at h
    cases h
  · rw [hr] at h
    cases h
    exact ⟨rfl, rfl⟩

theorem returns_raiseIf {b : Prop} [Decidable b] {e : ApiError} {q : Query UserRow}
    {P : UserRow → Prop} (h : ¬ b → Returns d q P) :
    Returns d (Prog.raiseIf b e >>= fun _ => q) P := by
  intro u t hr
  rw [Prog.run_raiseIf_bind] at hr
  split at hr
  · cases hr
  · exact h ‹_› u t hr

/-- A row is looked up, or there is an error. -/
theorem returns_found {q : Query (Option UserRow)} {o : Option UserRow} {e : ApiError}
    {f : UserRow → Query UserRow} {P : UserRow → Prop}
    (hq : q.run sqlite ⟨d, none⟩ = (.ok o, ⟨d, none⟩))
    (hf : ∀ u, o = some u → Returns d (f u) P) :
    Returns d (q >>= fun o => Prog.ofOption e o >>= f) P := by
  intro v t h
  rw [Prog.run_bind, hq] at h
  cases o with
  | none => cases h
  | some u => exact hf u rfl v t h

end

/-! ## The seven handlers -/

section
variable (now : Int) (clientIp : Option Str) {d : Db} (trail : AuditTable)

/-- The answer is the same where the row that the action returned does not fit. -/
theorem same_of_returns {q : Query UserRow} {P : UserRow → Prop} (hq : Returns d q P)
    {e : UserRow → Entry} {h : Query (Ending UserPublic)}
    (he : h = q >>= fun u => return ⟨some (e u), fun loaded => whileLoaded loaded (toPublic u)⟩)
    (hs : Succeeds d (answering .user h)) :
    ∃ u, P u ∧ (Same now clientIp d trail (answering .user h) ↔ ¬ Fits u) := by
  subst he
  obtain ⟨u, hp, ha⟩ := answersWith_bind hq hs
  exact ⟨u, hp, serve_user now clientIp trail ha⟩

theorem not_same_createUser {admin : SessionUser} {payload : UserCreate} {hash : Option Str}
    (hs : Succeeds d (answering .user (Audited.createUser admin payload hash))) :
    ¬ Same now clientIp d trail (answering .user (Audited.createUser admin payload hash)) := by
  obtain ⟨u, hf, hiff⟩ := same_of_returns now clientIp trail
    (returns_createLocalUser payload hash) rfl hs
  exact fun h => hiff.mp h hf

theorem same_changeOwnPassword {verifyPassword : Str → Str → Bool} {user : SessionUser}
    {payload : SelfPasswordChangeRequest} {hash : Option Str}
    (hs : Succeeds d (answering .user
      (Audited.changeOwnPassword verifyPassword user payload hash))) :
    Same now clientIp d trail (answering .user
        (Audited.changeOwnPassword verifyPassword user payload hash)) ↔
      ∃ u ∈ d.users, u.username = user.username ∧ ¬ Fits u := by
  have hq : Returns d (UserService.changeOwnPassword verifyPassword user.username
      payload.currentPassword payload.newPassword hash)
      fun v => ∃ u, d.users.findKey user.username = some u ∧ (Fits v ↔ Fits u) := by
    refine returns_found (o := d.users.findKey user.username) rfl fun u hf => ?_
    have hu := (Table.findKey_eq_some.mp hf).1
    refine returns_raiseIf fun _ => returns_raiseIf fun _ => returns_raiseIf fun _ => ?_
    intro v t h
    obtain ⟨d', ht, hv, hfit⟩ := returns_setPassword hu hash v t h
    exact ⟨d', ht, hv, u, hf, hfit⟩
  obtain ⟨v, ⟨u, hf, hfit⟩, hiff⟩ := same_of_returns now clientIp trail hq rfl hs
  obtain ⟨hu, hn⟩ := Table.findKey_eq_some.mp hf
  refine (hiff.trans (not_congr hfit)).trans ⟨fun h => ⟨u, hu, hn, h⟩, ?_⟩
  rintro ⟨w, hw, hwn, hwf⟩
  rwa [← Table.eq_of_key hw hu (hwn.trans hn.symm)]

/-- The two handlers that look an account up by its id. -/
theorem same_of_found {userId : Int} {e : ApiError} {f : UserRow → Query UserRow}
    (hf : ∀ u ∈ d.users, Returns d (f u) fun v => Fits v ↔ Fits u)
    {h : Query (Ending UserPublic)}
    (he : ∃ entry : UserRow → Entry,
      h = (getUser userId >>= fun o => Prog.ofOption e o >>= f) >>= fun u =>
        return ⟨some (entry u), fun loaded => whileLoaded loaded (toPublic u)⟩)
    (hs : Succeeds d (answering .user h)) :
    Same now clientIp d trail (answering .user h) ↔ ∃ u ∈ d.users, u.id = userId ∧ ¬ Fits u := by
  obtain ⟨entry, he⟩ := he
  have hq : Returns d (getUser userId >>= fun o => Prog.ofOption e o >>= f)
      fun v => ∃ u, d.users.find userId = some u ∧ (Fits v ↔ Fits u) := by
    refine returns_found (o := d.users.find userId) rfl fun u hfind => ?_
    intro v t h
    obtain ⟨d', ht, hv, hfit⟩ := hf u (Table.find_eq_some.mp hfind).1 v t h
    exact ⟨d', ht, hv, u, hfind, hfit⟩
  obtain ⟨v, ⟨u, hfind, hfit⟩, hiff⟩ := same_of_returns now clientIp trail hq he hs
  obtain ⟨hu, hid⟩ := Table.find_eq_some.mp hfind
  refine (hiff.trans (not_congr hfit)).trans ⟨fun h => ⟨u, hu, hid, h⟩, ?_⟩
  rintro ⟨w, hw, hwid, hwf⟩
  rwa [← Table.eq_of_id hw hu (hwid.trans hid.symm)]

theorem same_setUserStatus {admin : SessionUser} {userId : Int} {isActive : Bool}
    (hs : Succeeds d (answering .user (Audited.setUserStatus admin userId isActive))) :
    Same now clientIp d trail (answering .user (Audited.setUserStatus admin userId isActive)) ↔
      ∃ u ∈ d.users, u.id = userId ∧ ¬ Fits u := by
  refine same_of_found now clientIp trail (e := notFound "User" (idText userId)) (f := fun user =>
    Prog.raiseIf (isActive = false ∧ user.username = admin.username)
      (conflict [lit "You cannot deactivate your own account"]) >>= fun _ =>
        setActive user isActive) (fun u hu => ?_) ?_ hs
  · exact returns_raiseIf fun _ => returns_setActive hu isActive
  · simp only [Prog.bind_assoc]
    exact ⟨_, rfl⟩

theorem same_changePassword {admin : SessionUser} {userId : Int} {payload : PasswordChangeRequest}
    {hash : Option Str}
    (hs : Succeeds d (answering .user (Audited.changePassword admin userId payload hash))) :
    Same now clientIp d trail (answering .user
        (Audited.changePassword admin userId payload hash)) ↔
      ∃ u ∈ d.users, u.id = userId ∧ ¬ Fits u := by
  refine same_of_found now clientIp trail (e := notFound "User" (idText userId)) (f := fun user =>
    Prog.raiseIf (user.provider ≠ "local".toList)
      (conflict [lit "Password is managed by the identity provider for OIDC users"]) >>= fun _ =>
        setPassword user hash) (fun u hu => ?_) ?_ hs
  · exact returns_raiseIf fun _ => returns_setPassword hu hash
  · simp only [Prog.bind_assoc]
    exact ⟨_, rfl⟩

/-- A token that is created has a name that its answer accepts. -/
theorem not_same_createOwnPat {digest : Str → Str} {showTime : Int → Str} {patMaxPerUser : Int}
    {secret : PatService.Secret} {user : SessionUser} {payload : PatService.PatCreate}
    (hs : Succeeds d (answering .pat
      (Audited.createOwnPat digest showTime patMaxPerUser now secret user payload))) :
    ¬ Same now clientIp d trail (answering .pat
      (Audited.createOwnPat digest showTime patMaxPerUser now secret user payload)) := by
  have hok := isOk_of_succeeds hs
  obtain ⟨r, ha, -⟩ := TokenRuns.run_ownAccount d user
  unfold Audited.createOwnPat at hok ⊢
  rw [Prog.run_bind, ha] at hok
  cases r with
  | error e => cases hok
  | ok account =>
    rcases TokenRuns.run_create patMaxPerUser now d digest secret account payload.name
      payload.expiresInDays with ⟨e, w, hr⟩ | ⟨p, d', hne, hi, hr⟩
    · simp only [Prog.run_bind, hr] at hok
      cases hok
    · obtain ⟨rfl, -⟩ := References.mem_insertPat hi
      have hname : 1 ≤ (strip payload.name).length ∧ (strip payload.name).length ≤ 255 :=
        ⟨List.length_pos_of_ne_nil hne, (length_strip_le _).trans payload.name_length.2⟩
      unfold Same response serve
      simp only [run_answering, Prog.run_bind, ha, hr]
      simp only [Except.map, Prog.run, pure, Ending.map, whileLoaded, patCreated, hname, and_self,
        if_true]
      intro h
      cases h

theorem same_deleteUser (admin : SessionUser) (userId : Int) :
    Same now clientIp d trail (answering (fun _ => .noContent)
      (Audited.deleteUser admin userId)) := by
  refine same_of_done now clientIp trail ?_ _
  refine Prog.yields_bind (yields_any _) fun o _ => ?_
  refine Prog.yields_bind (yields_any _) fun u _ => ?_
  refine Prog.yields_bind (yields_any _) fun _ _ => ?_
  refine Prog.yields_bind (yields_any _) fun last _ => ?_
  refine Prog.yields_bind (yields_any _) fun _ _ => ?_
  exact Prog.yields_bind (yields_any _) fun _ _ => Prog.yields_pure fun _ => rfl

theorem same_revokeOwnPat (user : SessionUser) (patId : Int) :
    Same now clientIp d trail (answering (fun _ => .noContent)
      (Audited.revokeOwnPat user patId)) := by
  refine same_of_done now clientIp trail ?_ _
  refine Prog.yields_bind (yields_any _) fun account _ => ?_
  refine Prog.yields_bind (yields_any _) fun o _ => ?_
  refine Prog.yields_bind (yields_any _) fun pat _ => ?_
  exact Prog.yields_bind (yields_any _) fun _ _ => Prog.yields_pure fun _ => rfl

end

/-! ## All of them -/

section
variable {τ : Type} (env : Env τ) (showTime : Int → Str) (patMaxPerUser now : Int)
variable (clientIp : Option Str) (d : Db) (trail : AuditTable) (user : SessionUser)

/-- The answer is not made of a row, or of one that does not fit. -/
def Indifferent : UserCall → Prop
  | .deleteUser _ | .revokeOwnPat _ => True
  | .createUser .. | .createOwnPat .. => False
  | .changeOwnPassword .. => ∃ u ∈ d.users, u.username = user.username ∧ ¬ Fits u
  | .setUserStatus userId _ | .changePassword userId _ _ => ∃ u ∈ d.users, u.id = userId ∧ ¬ Fits u

/-- For every state, principal and request whose action succeeds, the response is
the same whether the commit of the entry succeeds or not exactly when it is not
made of the row that was changed, or when that row fits no response. -/
theorem same_response_iff (call : UserCall)
    (h : Succeeds d (call.handle env showTime patMaxPerUser now user)) :
    response now clientIp d trail (call.handle env showTime patMaxPerUser now user) true =
        response now clientIp d trail (call.handle env showTime patMaxPerUser now user) false ↔
      Indifferent d user call := by
  cases call with
  | createUser payload hash => exact iff_of_false (not_same_createUser now clientIp trail h) id
  | changeOwnPassword payload hash => exact same_changeOwnPassword now clientIp trail h
  | createOwnPat secret payload =>
    exact iff_of_false (not_same_createOwnPat now clientIp trail h) id
  | revokeOwnPat patId =>
    exact iff_of_true (same_revokeOwnPat now clientIp trail user patId) trivial
  | deleteUser userId => exact iff_of_true (same_deleteUser now clientIp trail user userId) trivial
  | setUserStatus userId isActive => exact same_setUserStatus now clientIp trail h
  | changePassword userId payload hash => exact same_changePassword now clientIp trail h

end

/-- The principal of the seeded account. -/
def root : SessionUser := ⟨"admin".toList, "admin".toList, .admin, .local⟩

/-- `bob` is created by the seeded administrator. -/
def createBob : UserCall := .createUser bob (some bob.password)

def noTime : Int → Str := fun _ => []

theorem same_response_iff_bob :
    response 0 none seeded.db .empty (createBob.handle plainEnv noTime 10 0 root) true =
        response 0 none seeded.db .empty (createBob.handle plainEnv noTime 10 0 root) false ↔
      Indifferent seeded.db root createBob :=
  same_response_iff plainEnv noTime 10 0 none seeded.db .empty root createBob (by
    unfold Succeeds
    decide +kernel)

/-- The account is there, and the client is told of an error. -/
theorem lost_answer :
    Succeeds seeded.db (createBob.handle plainEnv noTime 10 0 root) ∧
      ((serve (createBob.handle plainEnv noTime 10 0 root) false 0 none seeded.db .empty).2.1.users
        |>.findKey "bob".toList).isSome = true ∧
      response 0 none seeded.db .empty (createBob.handle plainEnv noTime 10 0 root) false =
        .error .internal ∧
      ¬ response 0 none seeded.db .empty (createBob.handle plainEnv noTime 10 0 root) true =
        response 0 none seeded.db .empty (createBob.handle plainEnv noTime 10 0 root) false := by
  have hs : Succeeds seeded.db (createBob.handle plainEnv noTime 10 0 root) := by
    unfold Succeeds
    decide +kernel
  have hfalse : response 0 none seeded.db .empty
      (createBob.handle plainEnv noTime 10 0 root) false = .error .internal := by
    decide +kernel
  have htrue : (response 0 none seeded.db .empty
      (createBob.handle plainEnv noTime 10 0 root) true).isOk = true := by
    decide +kernel
  refine ⟨hs, by decide +kernel, hfalse, fun h => ?_⟩
  rw [h, hfalse] at htrue
  cases htrue

end MailserverUi.L4.AuditFailure
