import MailserverUi.L4App.AuditPages
import MailserverUi.L4App.ClientIp
import MailserverUi.L4App.Instance
import MailserverUi.L4App.RecordedNames

/-!
# Whether the audit trail can be read

An entry is written as it comes and validated when it is read, and one that does
not fit takes its page with it. `Server` is the instance with its trail and its
two settings rows; its events are the audited actions, the requests on groups,
the passing of time and a restart with its purge.

Results:
* `serve_keeps`: an action whose entry is short, from an address that is, leaves
  a trail of entries that fit.
* `inv_inductive`: the names in the rows stay short, and every entry fits.
* `readable_of_fitting`: in every run whose recorded actions name nobody at length
  and come from no long address, a page is answered for every offset that SQLite
  takes.
* `unreadable`: a test message to a long recipient makes the trail unreadable.
-/
namespace MailserverUi.L4.AuditTrail

open Py L2.Errors L2.Database L3 Auth UserService Oidc AccountSpec AuditService MailService
open SettingsService Requests RequestsSpec Instance Audited AuditPages RecordedNames

/-! ## Actions -/

inductive Action where
  | login (payload : LoginRequest)
  | oidcCallback (claims : Claims)
  | logout
  | user (call : UserCall)
  | updateOidc (payload : OidcConfig)
  | updateMail (payload : MailSettings)
  | testMail (payload : MailTestRequest) (delivery : Delivery)

/-- A request that is audited. `commits` is whether the commit of its entry
succeeds. -/
structure Incoming (τ : Type) where
  cred : Credentials τ
  elapsed : Nat
  request : ClientIp.Request
  action : Action
  commits : Bool

structure Server where
  db : Db
  /-- in microseconds -/
  now : Int
  trail : AuditTable
  oidc : OidcConfig
  mail : MailSettings

/-- The requests of the router of groups, which are not audited. -/
def ofGroups : Request → Bool
  | .createUser .. | .deleteUser _ | .setUserStatus .. => false
  | _ => true

inductive Event (τ : Type) where
  | audited (i : Incoming τ)
  | group (cred : Credentials τ) (req : Request) (h : ofGroups req = true)
  | wait (microseconds : Nat)
  | restart (retentionDays : Int)

/-- The parameters of an instance. -/
structure Setup (τ : Type) where
  env : Env τ
  trustedProxies : Str
  patMaxPerUser : Int
  showTime : Int → Str

def silent {α : Type} (h : Query (Ending α)) : Query (Ending Unit) := do
  return (← h).map fun _ => ()

section
variable {τ : Type} (setup : Setup τ) (s : Server) (i : Incoming τ)

/-- The dependency and the handler. -/
def Incoming.handler : Query (Ending Unit) :=
  match i.action with
  | .login payload => silent (Audited.login setup.env.verifyPassword s.oidc.toOidcSettings payload)
  | .oidcCallback claims => silent (Audited.oidcCallback s.oidc.toOidcSettings claims)
  | .logout => do
    let user ← requireUser setup.env s.now i.cred
    silent (Audited.logout user)
  | .user call =>
    silent (call.principal setup.env s.now i.cred i.elapsed >>= fun user =>
      call.handle setup.env setup.showTime setup.patMaxPerUser s.now user)
  | .updateOidc payload => do
    let admin ← requireAdmin setup.env s.now i.cred
    silent (Audited.updateOidc admin payload)
  | .updateMail payload => do
    let admin ← requireAdmin setup.env s.now i.cred
    silent (Audited.updateMail admin payload)
  | .testMail payload delivery => do
    let admin ← requireAdmin setup.env s.now i.cred
    silent (Audited.testMail s.mail delivery admin payload)

def Incoming.clientIp : Option Str := ClientIp.getClientIp setup.trustedProxies i.request

/-- The action gets as far as its entry. -/
def Incoming.carriedOut : Bool :=
  ((session (i.handler setup s) s.db).1.toOption.bind Ending.entry).isSome

/-- The entry is written. -/
def Incoming.recorded : Bool := i.carriedOut setup s && i.commits

def step : Event τ → Server
  | .audited i =>
    let out := serve (i.handler setup s) i.commits s.now (i.clientIp setup) s.db s.trail
    { s with
      db := out.2.1
      trail := out.2.2
      oidc :=
        match i.action with
        | .updateOidc payload => if i.carriedOut setup s then payload else s.oidc
        | _ => s.oidc
      mail :=
        match i.action with
        | .updateMail payload => if i.carriedOut setup s then payload else s.mail
        | _ => s.mail }
  | .group cred req _ => { s with db := (session (req.serve setup.env s.now cred) s.db).2 }
  | .wait microseconds => { s with now := s.now + microseconds }
  | .restart retentionDays => { s with trail := purge s.trail retentionDays s.now }

def events (init : Server → Prop) : LTS Server (Event τ) :=
  LTS.ofFn init fun s e => some (step setup s e)

/-! ## Conditions -/

/-- What an action names is short, where that depends on more than the schemas: the
name that an identity provider asserts, and the recipients of a test message. -/
def Named : Prop :=
  match i.action with
  | .oidcCallback claims =>
    ∀ p ∈ oidcPrincipal s.oidc.toOidcSettings claims, p.username.length ≤ 255
  | .testMail payload _ =>
    i.recorded setup s = true → (joined (testRecipients s.mail payload)).length ≤ 255
  | _ => True

instance : Decidable (Named setup s i) := by
  unfold Named
  split <;> infer_instance

/-- And a request whose action is recorded comes from a short address. -/
def Fitting : Event τ → Prop
  | .audited i =>
    Named setup s i ∧
      (i.recorded setup s = true → ∀ ip ∈ i.clientIp setup, ip.length ≤ 64)
  | _ => True

instance (e : Event τ) : Decidable (Fitting setup s e) :=
  match e with
  | .audited i => inferInstanceAs (Decidable (Named setup s i ∧ (_ → _)))
  | .group .. | .wait _ | .restart _ => isTrue trivial

end

/-! ## One action -/

theorem length_category (c : AuditCategory) : c.str.length ≤ 32 := by
  cases c <;> decide

theorem length_status (x : AuditStatus) : x.str.length ≤ 16 := by
  cases x <;> decide

theorem fits_row {e : Entry} (he : ShortEntry e) {clientIp : Option Str}
    (hip : ∀ ip ∈ clientIp, ip.length ≤ 64) (id now : Int) : Fits (e.row clientIp id now) := by
  refine ⟨?_, length_category _, he.action, he.target, length_status _, ?_, ?_⟩
  · change (if e.actor = [] then _ else e.actor).length ≤ 255
    split
    · decide
    · exact he.actor
  · exact List.length_take_le _ _
  · cases clientIp with
    | none => exact Nat.zero_le _
    | some ip => exact hip ip rfl

/-- A handler that keeps the names short, and whose entry is short if `P`. -/
def Keeps {α : Type} (h : Query (Ending α)) (P : Prop) : Prop :=
  Bounded h fun e => (P → ∀ x ∈ e.entry, ShortEntry x) ∧
    ∀ loaded, Bounded (e.answer loaded) fun _ => True

theorem keeps_of_short {α : Type} {h : Query (Ending α)} (hb : Bounded h ShortEnding) (P : Prop) :
    Keeps h P :=
  Prog.yields_mono hb fun _ he => ⟨fun _ => he.entry, he.answer⟩

theorem keeps_silent {α : Type} {h : Query (Ending α)} {P : Prop} (hk : Keeps h P) :
    Keeps (silent h) P :=
  bounded_bind hk fun _ he => bounded_pure
    ⟨he.1, fun loaded => bounded_bind (he.2 loaded) fun _ _ => bounded_any ()⟩

section
variable {α : Type} {h : Query (Ending α)} {P : Prop} {d : Db} {trail : AuditTable}

/-- An action whose entry is short leaves short names, and entries that fit. -/
theorem serve_keeps (hk : Keeps h P) (hd : ShortNames d) (ht : ∀ r ∈ trail, Fits r)
    {commits : Bool} {clientIp : Option Str}
    (hrec : ((session h d).1.toOption.bind Ending.entry).isSome = true → commits = true →
      P ∧ ∀ ip ∈ clientIp, ip.length ≤ 64) (now : Int) :
    ShortNames (serve h commits now clientIp d trail).2.1 ∧
      ∀ r ∈ (serve h commits now clientIp d trail).2.2, Fits r := by
  obtain ⟨hm, hq⟩ := hk ⟨d, none⟩ (Tx.meets_start hd)
  unfold serve
  unfold session at hrec
  change (h.run sqlite ⟨d, none⟩).2.Meets _ at hm
  change ∀ a, (h.run sqlite ⟨d, none⟩).1 = .ok a → _ at hq
  generalize h.run sqlite ⟨d, none⟩ = r at hm hq hrec
  obtain ⟨r, t⟩ := r
  cases r with
  | error e => exact ⟨hm.1, ht⟩
  | ok ending =>
    obtain ⟨hentry, hanswer⟩ := hq ending rfl
    obtain ⟨entry, answer⟩ := ending
    cases entry with
    | none => exact ⟨(hanswer true t hm).1.1, ht⟩
    | some entry =>
      have hstart : ShortNames (if commits then t.view else t.committed) := by
        split
        · exact hm.2
        · exact hm.1
      refine ⟨(hanswer commits _ (Tx.meets_start hstart)).1.1, fun r hr => ?_⟩
      rcases (mem_record trail now clientIp entry).mp hr with hr | ⟨hc, rfl⟩
      · exact ht r hr
      · obtain ⟨hp, hip⟩ := hrec rfl hc
        exact fits_row (hentry hp entry rfl) hip _ _

end

/-! ## Runs -/

section
variable {τ : Type} {setup : Setup τ}

/-- What an action names is short if `Named` says so of a recorded test. -/
theorem keeps_handler {s : Server} {i : Incoming τ} (hn : Named setup s i) :
    Keeps (i.handler setup s) (i.recorded setup s = true) := by
  obtain ⟨cred, elapsed, request, action, commits⟩ := i
  have hadmin := bounded_requireAdmin setup.env s.now cred
  cases action with
  | login payload => exact keeps_silent (keeps_of_short (bounded_login _ _ payload) _)
  | oidcCallback claims =>
    refine keeps_silent (keeps_of_short (bounded_oidcCallback fun p hp he => hn p ?_) _)
    rw [oidcPrincipal, if_pos he]
    exact hp
  | logout =>
    exact bounded_bind (bounded_requireUser setup.env s.now cred) fun _ hu =>
      keeps_silent (keeps_of_short (bounded_logout hu) _)
  | user call =>
    exact keeps_silent (keeps_of_short (bounded_userCall setup.env setup.showTime
      setup.patMaxPerUser s.now cred elapsed call) _)
  | updateOidc payload =>
    exact bounded_bind hadmin fun _ ha =>
      keeps_silent (keeps_of_short (bounded_updateOidc ha payload) _)
  | updateMail payload =>
    exact bounded_bind hadmin fun _ ha =>
      keeps_silent (keeps_of_short (bounded_updateMail ha payload) _)
  | testMail payload delivery =>
    refine bounded_bind hadmin fun _ ha => keeps_silent ?_
    exact Prog.yields_mono (bounded_testMail ha s.mail payload delivery) fun _ he =>
      ⟨fun hr => he.1 (hn hr), he.2⟩

/-- The names in the rows are short, and every entry fits. -/
structure Inv (s : Server) : Prop where
  names : ShortNames s.db
  entries : ∀ r ∈ s.trail, Fits r

theorem shortNames_done {d d' : Db} {req : Request} (hg : ofGroups req = true)
    (hd : Done d req d') (h : ShortNames d) : ShortNames d' := by
  cases hd with
  | createUser | deleteUser | setUserStatus => cases hg
  | createGroup hi =>
    obtain ⟨t, -, he⟩ := Option.map_eq_some_iff.mp hi
    cases he
    exact h.of_rows rfl fun p hp => hp
  | updateGroup _ hi =>
    obtain ⟨t, -, rfl⟩ := Option.map_eq_some_iff.mp hi
    exact h.of_rows rfl fun p hp => hp
  | deleteGroup => exact h.of_rows rfl fun p hp => hp
  | addUsersToGroup => exact h.of_rows linked_rows.2.1 fun p hp => linked_rows.2.2 ▸ hp
  | addUserToGroup groupId userId =>
    unfold Db.insertLink
    split
    · exact h
    · exact h.of_rows rfl fun p hp => hp
  | removeUserFromGroup => exact h.of_rows rfl fun p hp => hp

/-- The last use of a token is not its name. -/
theorem shortNames_touched {d : Db} {pats : Pats} (ht : Touched d.pats pats) (h : ShortNames d) :
    ShortNames { d with pats := pats } := by
  refine ⟨h.users, fun p hp => ?_⟩
  have hm : ({ p with lastUsedAt := none } : PatRow) ∈
      pats.rows.map fun p => { p with lastUsedAt := none } :=
    List.mem_map.mpr ⟨p, hp, rfl⟩
  rw [ht] at hm
  obtain ⟨q, hq, he⟩ := List.mem_map.mp hm
  have hname := congrArg PatRow.name he
  exact (show q.name = p.name from hname) ▸ h.pats q hq

theorem inv_step {s : Server} {e : Event τ} (hf : Fitting setup s e) (h : Inv s) :
    Inv (step setup s e) := by
  cases e with
  | audited i =>
    obtain ⟨hn, hip⟩ := hf
    have hrec : i.carriedOut setup s = true → i.commits = true →
        i.recorded setup s = true ∧ ∀ ip ∈ i.clientIp setup, ip.length ≤ 64 := by
      intro hcarried hcommits
      have hr : i.recorded setup s = true := by
        rw [Incoming.recorded, hcarried, hcommits]
        rfl
      exact ⟨hr, hip hr⟩
    obtain ⟨hd, ht⟩ := serve_keeps (keeps_handler hn) h.names h.entries hrec s.now
    exact ⟨hd, ht⟩
  | group cred req hg =>
    obtain ⟨pats, ht, hd | ⟨-, hd⟩⟩ := serve_cases setup.env s.now s.db cred req
    · refine ⟨?_, h.entries⟩
      simp only [step, hd]
      exact shortNames_touched ht h.names
    · exact ⟨shortNames_done hg hd (shortNames_touched ht h.names), h.entries⟩
  | wait microseconds => exact ⟨h.names, h.entries⟩
  | restart retentionDays => exact ⟨h.names, fun r hr => h.entries r (mem_purge hr)⟩

theorem inv_inductive : ((events setup Inv).guard (Fitting setup)).Inductive Inv where
  init _ h := h
  step s e s' h hs := by
    obtain ⟨hf, hs⟩ := hs
    cases hs
    exact inv_step hf h

/-- No event but a restart removes an entry. -/
theorem mem_step {s : Server} {e : Event τ} (he : ∀ n, e ≠ .restart n) {r : AuditRow}
    (h : r ∈ s.trail) : r ∈ (step setup s e).trail := by
  cases e with
  | audited i =>
    simp only [step, serve]
    split
    · exact h
    · split
      · exact h
      · exact (mem_record ..).mpr (.inl h)
  | group => exact h
  | wait => exact h
  | restart n => exact absurd rfl (he n)

/-- An entry that does not fit keeps a page of the trail from being answered until
the next restart. -/
theorem unanswered_of_run {init : Server → Prop} {s s' : Server} {es : List (Event τ)}
    (hrun : (events setup init).Run s es s') (hes : ∀ e ∈ es, ∀ n, e ≠ .restart n)
    {r : AuditRow} (h : r ∈ s.trail) (hf : ¬ Fits r) :
    ∃ q : PageQuery, q.offset < total s'.trail q.toFilters ∧ listAuditEntries s'.trail q = none := by
  induction hrun with
  | nil s => exact ⟨only s.trail r, unanswered_of_mem h hf⟩
  | cons hs _ ih =>
    cases hs
    exact ih (fun e he => hes e (List.mem_cons_of_mem _ he))
      (mem_step (hes _ List.mem_cons_self) h)

/-- In every run, from any short names and entries that fit, whose recorded actions
name nobody at length and come from no long address: whatever the filters and the
limit, a page is answered exactly for the offsets that SQLite takes. -/
theorem readable_of_fitting (s : Server)
    (h : ((events setup Inv).guard (Fitting setup)).Reachable s) (q : PageQuery) :
    (∃ p, listAuditEntries s.trail q = some p) ↔ q.offset ≤ maxInteger := by
  constructor
  · rintro ⟨p, hp⟩
    exact (listAuditEntries_eq_some.mp hp).1.1
  · intro ho
    refine ⟨_, listAuditEntries_eq_some.mpr ⟨⟨ho, fun r hr => ?_⟩, rfl⟩⟩
    have hm := List.mem_of_mem_drop (List.mem_of_mem_take hr)
    exact (inv_inductive.reachable s h).entries r (mem_matching.mp hm).1

end

/-! ## A long list of recipients -/

/-- No trusted proxies. -/
def plainSetup : Setup Payload := ⟨plainEnv, [], 10, fun _ => []⟩

def noMail : MailSettings := ⟨false, [], 587, true, false, [], [], false, false⟩

/-- The seeded instance. -/
def start : Server := ⟨seeded.db, 0, .empty, ⟨localOnly, [], []⟩, noMail⟩

theorem inv_start : Inv start := by
  have husers : ∀ u ∈ seeded.db.users.rows, u.username.length ≤ 255 := by decide
  have hpats : ∀ p ∈ seeded.db.pats.rows, p.name.length ≤ 255 := by decide
  exact ⟨⟨husers, hpats⟩, fun r hr => absurd hr List.not_mem_nil⟩

/-- An action of the seeded administrator. -/
def byAdmin (action : Action) : Event Payload :=
  .audited ⟨cookie "admin" .admin, 0, ⟨some "192.0.2.1".toList, [], [], [], []⟩, action, true⟩

theorem no_recipient : ([] : Str).length ≤ 255 := Nat.zero_le 255

/-- A test message to the stored recipients. -/
def testStored : MailTestRequest := ⟨[], no_recipient⟩

def firstPage : PageQuery := .unfiltered 50 0 (by decide)

/-- Two recipients are stored, and tested. -/
theorem readable_of_fitting_tested :
    ∃ s, ((events plainSetup Inv).guard (Fitting plainSetup)).Reachable s ∧
      s.trail.rows.length = 2 ∧ ∃ p, listAuditEntries s.trail firstPage = some p := by
  obtain ⟨s, hs, hp⟩ := LTS.guard_reachable_of_exec
    (f := fun s e => some (step plainSetup s e)) (G := Fitting plainSetup) inv_start
    [byAdmin (.updateMail { noMail with recipients := "a@x.org,b@x.org".toList }),
      byAdmin (.testMail testStored .delivered)]
    (fun s => s.trail.rows.length = 2) (by decide +kernel)
  exact ⟨s, hs, of_decide_eq_true hp,
    (readable_of_fitting s hs firstPage).mpr (by decide)⟩

/-- One recipient of 256 characters is. -/
theorem unreadable : ∃ s, (events plainSetup Inv).Reachable s ∧
    firstPage.offset ≤ maxInteger ∧ listAuditEntries s.trail firstPage = none := by
  obtain ⟨s, hs, hp⟩ := LTS.reachable_of_exec (I := Inv)
    (f := fun s e => some (step plainSetup s e)) inv_start
    [byAdmin (.updateMail { noMail with recipients := List.replicate 256 'x' }),
      byAdmin (.testMail testStored .delivered)]
    (fun s => listAuditEntries s.trail firstPage = none) (by decide +kernel)
  exact ⟨s, hs, by decide, of_decide_eq_true hp⟩

end MailserverUi.L4.AuditTrail
