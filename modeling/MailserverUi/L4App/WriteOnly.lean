import MailserverUi.Core.Service
import MailserverUi.L3Service.SettingsRows
import MailserverUi.L4App.Audited

/-!
# The two secrets of the settings are write-only

The settings router answers, records in the trail, and gives rise to mail
notifications. `service` is the whole of it: the two rows, the trail, and the
requests in any order, with any outcome of the commits of the entries.

A test message logs in with the stored password, so what the SMTP server makes of
the conversation is a function of that password, and the answer and the entry of
the test tell its outcome. Nothing else of a secret comes out.

Results:
* `serve_masked`: a request does the same where every secret is an asterisk and the
  server answers as it did.
* `answers_masked`: whatever the secrets are, in the rows, the environment and the
  payloads, and whatever the servers are, requests that otherwise agree and whose
  test messages come out alike have the same answers, entries and notifications.
* `rows_after`: the rows are those of the last accepted updates, with the last
  secret that was sent; an enabled connector that was updated can send.
-/
namespace MailserverUi.L4.WriteOnly

open Py L2.Errors L2.Database L3 Auth AuditService MailService SettingsRows Audited

/-! ## The router -/

/-- What a conversation is opened with; nobody logs in without a user name.
mirrors backend/app/services/mail_service.py:83-98 -/
structure Conversation where
  fields : MailSettingsBase
  login : Option (Str × Str)
  recipients : List Str

def conversation (config : Row MailSettingsBase) (recipients : List Str) : Conversation where
  fields := config.fields
  login := if config.fields.username ≠ [] then some (config.fields.username, config.secret) else none
  recipients := recipients

/-- The server that the connector names. -/
abbrev Smtp := Conversation → Delivery

inductive Action where
  | getOidc
  | updateOidc (payload : Update OidcSettingsBase)
  | getMail
  | updateMail (payload : Update MailSettingsBase)
  | testMail (payload : MailTestRequest) (smtp : Smtp)

/-- A request of an administrator; `commits` is whether the commit of its entry
succeeds. -/
structure Request where
  admin : SessionUser
  action : Action
  now : Int
  clientIp : Option Str
  commits : Bool

inductive Answer where
  | oidc (config : Public OidcSettingsBase)
  | mail (config : Public MailSettingsBase)
  | tested (sent : Bool) (detail : Str)
  deriving DecidableEq, Repr

/-- What a request shows: its answer, and the notification it gives rise to. -/
structure Output where
  answer : Except ApiError Answer
  message : Option Message

structure State where
  oidc : Option (Row OidcSettingsBase)
  mail : Option (Row MailSettingsBase)
  trail : AuditTable

structure Env where
  oidc : Seed OidcSettingsBase
  mail : Seed MailSettingsBase
  showTime : Int → Str

/-- What a handler that asks the database nothing hands to `record`. -/
def entryOf {α : Type} : Query (Ending α) → Option Entry
  | .pure ending => ending.entry
  | _ => none

/-- `MailTestResult(...)`. -/
def tested : Query (Bool × Str) → Except ApiError Answer
  | .pure (sent, detail) => .ok (.tested sent detail)
  | _ => .error .internal

section
variable (env : Env)

/-- `record`: the entry, where it is committed, and the notification by the row of
the connector, which is seeded for it.
mirrors backend/app/services/audit_service.py:32-72 -/
def recorded (s : State) (r : Request) (entry : Option Entry) : State × Option Message :=
  match entry with
  | none => (s, none)
  | some e =>
    if r.commits then
      let config := getSettings env.mail r.now s.mail
      ({ s with mail := some config, trail := record s.trail true r.now r.clientIp e },
        notify env.showTime config.fields.toMailSettings (e.row r.clientIp s.trail.nextId r.now))
    else (s, none)

/-- An update, its entry, and the answer, which reads the row again.
mirrors backend/app/routers/settings.py:51-72, 91-115 -/
def updated {β : Type} (s : State) (r : Request) (result : Except ApiError (Row β))
    (entry : Option Entry) (answer : Public β → Answer) : Output × State :=
  match result with
  | .error e => (⟨.error e, none⟩, s)
  | .ok config =>
    let (s, message) := recorded env s r entry
    (⟨if r.commits then .ok (answer (toPublic config)) else .error .internal, message⟩, s)

def serve (s : State) (r : Request) : Output × State :=
  match r.action with
  | .getOidc =>
    let config := getSettings env.oidc r.now s.oidc
    (⟨.ok (.oidc (toPublic config)), none⟩, { s with oidc := some config })
  | .updateOidc payload =>
    let (result, config) := updateSettings validate env.oidc r.now payload s.oidc
    updated env { s with oidc := some config } r result
      (entryOf (Audited.updateOidc r.admin payload.fields.toOidcConfig)) .oidc
  | .getMail =>
    let config := getSettings env.mail r.now s.mail
    (⟨.ok (.mail (toPublic config)), none⟩, { s with mail := some config })
  | .updateMail payload =>
    let (result, config) := updateSettings validateMail env.mail r.now payload s.mail
    updated env { s with mail := some config } r result
      (entryOf (Audited.updateMail r.admin payload.fields.toMailSettings)) .mail
  | .testMail payload smtp =>
    let config := getSettings env.mail r.now s.mail
    let s := { s with mail := some config }
    let recipients := testRecipients config.fields.toMailSettings payload
    let delivery := smtp (conversation config recipients)
    match Audited.testMail config.fields.toMailSettings delivery r.admin payload with
    | .pure ending =>
      let (s, message) := recorded env s r ending.entry
      (⟨tested (ending.answer r.commits), message⟩, s)
    | _ => (⟨.error .internal, none⟩, s)

def service : Service State Request Output := ⟨serve env⟩

/-- How the conversation of a test message comes out, where there is one. -/
def outcome (s : State) (r : Request) : Option Delivery :=
  match r.action with
  | .testMail payload smtp =>
    let config := getSettings env.mail r.now s.mail
    let recipients := testRecipients config.fields.toMailSettings payload
    if isSendable config.fields.toMailSettings = none ∧ recipients ≠ [] then
      some (smtp (conversation config recipients))
    else none
  | _ => none

def outcomes : State → List Request → List (Option Delivery)
  | _, [] => []
  | s, r :: rs => outcome env s r :: outcomes (serve env s r).2 rs

end

/-! ## Without the secrets -/

/-- A secret counts for whether it is set. -/
def mask (s : Str) : Str := if s = [] then [] else ['*']

section
variable {β : Type}

def maskRow (config : Row β) : Row β := { config with secret := mask config.secret }

def maskUpdate (payload : Update β) : Update β := { payload with secret := payload.secret.map mask }

def maskSeed (env : Seed β) : Seed β := { env with secret := mask env.secret }

end

def State.masked (s : State) : State :=
  { s with oidc := s.oidc.map maskRow, mail := s.mail.map maskRow }

/-- Without the server too. -/
def Action.masked : Action → Action
  | .updateOidc payload => .updateOidc (maskUpdate payload)
  | .updateMail payload => .updateMail (maskUpdate payload)
  | .testMail payload _ => .testMail payload fun _ => .raised
  | a => a

def Request.masked (r : Request) : Request := { r with action := r.action.masked }

/-- With a server that answers `o` whoever logs in. -/
def Action.answered (o : Option Delivery) : Action → Action
  | .testMail payload _ => .testMail payload fun _ => o.getD .raised
  | a => a

def Request.answered (o : Option Delivery) (r : Request) : Request :=
  { r with action := r.action.answered o }

def Env.masked (env : Env) : Env := { env with oidc := maskSeed env.oidc, mail := maskSeed env.mail }

theorem mask_eq_nil {s : Str} : mask s = [] ↔ s = [] := by
  unfold mask
  split
  · rename_i h
    exact iff_of_true rfl h
  · rename_i h
    exact iff_of_false (List.cons_ne_nil _ _) h

section
variable {β : Type} (env : Seed β) (now : Int) (stored : Option (Row β))

theorem toPublic_maskRow (config : Row β) : toPublic (maskRow config) = toPublic config := by
  unfold toPublic maskRow
  simp only [ne_eq, mask_eq_nil]

theorem getSettings_masked :
    getSettings (maskSeed env) now (stored.map maskRow) = maskRow (getSettings env now stored) := by
  cases stored <;> rfl

theorem newSecret_masked (payload : Update β) :
    newSecret (maskUpdate payload) = (newSecret payload).map mask := by
  unfold newSecret maskUpdate
  cases payload.secret with
  | none => rfl
  | some s =>
    rw [Option.map_some, Option.filter_some, Option.filter_some]
    by_cases h : s = []
    · rw [h]
      rfl
    · simp [h, mask_eq_nil]

theorem getD_map_mask (o : Option Str) (s : Str) : (o.map mask).getD (mask s) = mask (o.getD s) := by
  cases o <;> rfl

/-- An update of masked secrets is a masked update. -/
theorem updateSettings_masked (check : β → Option ApiError) (payload : Update β) :
    updateSettings check (maskSeed env) now (maskUpdate payload) (stored.map maskRow) =
      ((updateSettings check env now payload stored).1.map maskRow,
        maskRow (updateSettings check env now payload stored).2) := by
  unfold updateSettings
  rw [getSettings_masked, newSecret_masked]
  have hf : (maskUpdate payload).fields = payload.fields := rfl
  rw [hf]
  cases check payload.fields with
  | some e => rfl
  | none =>
    simp only [maskRow, getD_map_mask, Except.map]

end

/-- Without a conversation nothing is made of the server. -/
theorem testMail_congr {config : MailSettings} {payload : MailTestRequest} {d d' : Delivery}
    (admin : SessionUser)
    (h : isSendable config = none ∧ testRecipients config payload ≠ [] → d = d') :
    Audited.testMail config d admin payload = Audited.testMail config d' admin payload := by
  have hs : send config (testRecipients config payload) d =
      send config (testRecipients config payload) d' := by
    unfold send
    cases hc : isSendable config with
    | some reason => rfl
    | none =>
      dsimp only
      split
      · rfl
      · rename_i hr
        rw [h ⟨hc, hr⟩]
  unfold Audited.testMail
  dsimp only
  rw [hs]

section
variable (env : Env) (s : State) (r : Request) (o : Option Delivery)

theorem recorded_masked (entry : Option Entry) :
    recorded env.masked s.masked (r.masked.answered o) entry =
      ((recorded env s r entry).1.masked, (recorded env s r entry).2) := by
  have hg : getSettings env.masked.mail (r.masked.answered o).now s.masked.mail =
      maskRow (getSettings env.mail r.now s.mail) := getSettings_masked _ _ _
  cases entry with
  | none => rfl
  | some e =>
    unfold recorded
    dsimp only
    rw [hg]
    cases hc : r.commits
    · rw [if_neg (by simp [Request.masked, Request.answered, hc]), if_neg (by decide)]
    · rw [if_pos (by simp [Request.masked, Request.answered, hc]), if_pos rfl]
      rfl

theorem updated_masked {β : Type} (result : Except ApiError (Row β)) (entry : Option Entry)
    (answer : Public β → Answer) :
    updated env.masked s.masked (r.masked.answered o) (result.map maskRow) entry answer =
      ((updated env s r result entry answer).1, (updated env s r result entry answer).2.masked) := by
  cases result with
  | error e => rfl
  | ok config =>
    simp only [Except.map, updated, recorded_masked, toPublic_maskRow]
    rfl

/-- The server answered `outcome env s r`, and the secret is not looked at elsewhere. -/
theorem serve_masked : serve env.masked s.masked (r.masked.answered (outcome env s r)) =
    ((serve env s r).1, (serve env s r).2.masked) := by
  obtain ⟨admin, action, now, clientIp, commits⟩ := r
  cases action with
  | getOidc =>
    simp only [serve, Request.masked, Action.masked, Request.answered, Action.answered]
    rw [show env.masked.oidc = maskSeed env.oidc from rfl,
      show s.masked.oidc = s.oidc.map maskRow from rfl, getSettings_masked, toPublic_maskRow]
    rfl
  | updateOidc payload =>
    have hu := updateSettings_masked env.oidc now s.oidc validate payload
    rcases hx : updateSettings validate env.oidc now payload s.oidc with ⟨result, config⟩
    rw [hx] at hu
    simp only [serve, Request.masked, Action.masked, Request.answered, Action.answered, hx]
    rw [show env.masked.oidc = maskSeed env.oidc from rfl,
      show s.masked.oidc = s.oidc.map maskRow from rfl, hu]
    exact updated_masked env { s with oidc := some config }
      ⟨admin, .updateOidc payload, now, clientIp, commits⟩ none result _ _
  | getMail =>
    simp only [serve, Request.masked, Action.masked, Request.answered, Action.answered]
    rw [show env.masked.mail = maskSeed env.mail from rfl,
      show s.masked.mail = s.mail.map maskRow from rfl, getSettings_masked, toPublic_maskRow]
    rfl
  | updateMail payload =>
    have hu := updateSettings_masked env.mail now s.mail validateMail payload
    rcases hx : updateSettings validateMail env.mail now payload s.mail with ⟨result, config⟩
    rw [hx] at hu
    simp only [serve, Request.masked, Action.masked, Request.answered, Action.answered, hx]
    rw [show env.masked.mail = maskSeed env.mail from rfl,
      show s.masked.mail = s.mail.map maskRow from rfl, hu]
    exact updated_masked env { s with mail := some config }
      ⟨admin, .updateMail payload, now, clientIp, commits⟩ none result _ _
  | testMail payload smtp =>
    have hg := getSettings_masked env.mail now s.mail
    generalize ho : outcome env s ⟨admin, .testMail payload smtp, now, clientIp, commits⟩ = o
    simp only [outcome] at ho
    generalize hc : getSettings env.mail now s.mail = config at hg ho
    have htest : Audited.testMail config.fields.toMailSettings (o.getD .raised) admin payload =
        Audited.testMail config.fields.toMailSettings
          (smtp (conversation config (testRecipients config.fields.toMailSettings payload)))
          admin payload :=
      testMail_congr admin fun h => by
        rw [if_pos h] at ho
        rw [← ho, Option.getD_some]
    simp only [serve, Request.masked, Action.masked, Request.answered, Action.answered, hc]
    rw [show env.masked.mail = maskSeed env.mail from rfl,
      show s.masked.mail = s.mail.map maskRow from rfl, hg]
    rw [show (maskRow config).fields = config.fields from rfl, htest]
    rcases Audited.testMail config.fields.toMailSettings
      (smtp (conversation config (testRecipients config.fields.toMailSettings payload)))
      admin payload with ending | e | ⟨c, k⟩
    · have hr := recorded_masked env { s with mail := some config }
        ⟨admin, .testMail payload smtp, now, clientIp, commits⟩ o ending.entry
      dsimp only [State.masked, Request.masked, Action.masked, Request.answered, Action.answered,
        Option.map_some] at hr ⊢
      rw [hr]
    · rfl
    · rfl

end

/-! ## All requests -/

/-- The requests as they are without the secrets, with the servers' answers. -/
def seen (env : Env) (s : State) (rs : List Request) : List Request :=
  List.zipWith (fun o r => r.answered o) (outcomes env s rs) (rs.map Request.masked)

theorem run_masked (env : Env) (s : State) (rs : List Request) :
    (service env).answers s rs = (service env.masked).answers s.masked (seen env s rs) ∧
      ((service env).after s rs).masked =
        (service env.masked).after s.masked (seen env s rs) := by
  induction rs generalizing s with
  | nil => exact ⟨rfl, rfl⟩
  | cons r rs ih =>
    have hstep := serve_masked env s r
    obtain ⟨ha, hd⟩ := ih (serve env s r).2
    constructor
    · show (serve env s r).1 :: (service env).answers (serve env s r).2 rs =
        (serve env.masked s.masked (r.masked.answered (outcome env s r))).1 ::
          (service env.masked).answers
            (serve env.masked s.masked (r.masked.answered (outcome env s r))).2
            (seen env (serve env s r).2 rs)
      rw [hstep, ha]
    · show ((service env).after (serve env s r).2 rs).masked = (service env.masked).after
        (serve env.masked s.masked (r.masked.answered (outcome env s r))).2
        (seen env (serve env s r).2 rs)
      rw [hstep, hd]

/-- Two instances that differ in their secrets and SMTP servers alone, and requests
that do, have the same answers and notifications, and end with the same trail,
where the test messages come out alike. -/
theorem answers_masked (env env' : Env) (s s' : State) (rs rs' : List Request)
    (henv : env.masked = env'.masked) (hs : s.masked = s'.masked)
    (hrs : rs.map Request.masked = rs'.map Request.masked)
    (hout : outcomes env s rs = outcomes env' s' rs') :
    (service env).answers s rs = (service env').answers s' rs' ∧
      ((service env).after s rs).trail = ((service env').after s' rs').trail := by
  obtain ⟨ha, hd⟩ := run_masked env s rs
  obtain ⟨ha', hd'⟩ := run_masked env' s' rs'
  have hseen : seen env s rs = seen env' s' rs' := by
    unfold seen
    rw [hout, hrs]
  rw [henv, hs, hseen] at ha hd
  refine ⟨ha.trans ha'.symm, ?_⟩
  show (State.masked _).trail = (State.masked _).trail
  rw [hd, hd']

theorem length_noRecipient : ([] : Str).length ≤ 255 := Nat.zero_le _

def noOidc : OidcSettingsBase :=
  ⟨⟨⟨false, false, [], [], [], [], false⟩, [], []⟩, [], [], "code".toList, "openid".toList⟩

def connector : MailSettingsBase :=
  ⟨⟨true, "smtp.x.org".toList, 587, true, false, "a@x.org".toList, "b@x.org".toList, false, true⟩,
    "ui".toList⟩

def seededWith (secret : Str) : Env := ⟨⟨noOidc, secret⟩, ⟨connector, secret⟩, fun _ => []⟩

/-- It knows the connector's account by this password. -/
def accepting (password : Str) : Smtp := fun c =>
  if c.login = some ("ui".toList, password) then .delivered else .failed "535".toList

/-- The connector is updated, shown and tested. -/
def changing (secret accepted : Str) : List Request :=
  [.updateMail ⟨connector, some secret⟩, .getMail,
    .testMail ⟨[], length_noRecipient⟩ (accepting accepted)].map
    fun action => ⟨⟨"admin".toList, [], .admin, .local⟩, action, 0, none, true⟩

theorem answers_masked_changing :
    (service (seededWith "first".toList)).answers ⟨none, none, Table.empty⟩
        (changing "one".toList "one".toList) =
      (service (seededWith "second".toList)).answers ⟨none, none, Table.empty⟩
        (changing "other".toList "other".toList) ∧
    ((service (seededWith "first".toList)).after ⟨none, none, Table.empty⟩
        (changing "one".toList "one".toList)).trail =
      ((service (seededWith "second".toList)).after ⟨none, none, Table.empty⟩
        (changing "other".toList "other".toList)).trail :=
  answers_masked _ _ _ _ _ _ rfl rfl rfl rfl

/-- A server that knows one of two passwords tells them apart. -/
example : outcomes (seededWith []) ⟨none, none, Table.empty⟩
      (changing "one".toList "one".toList) ≠
    outcomes (seededWith []) ⟨none, none, Table.empty⟩
      (changing "other".toList "one".toList) := by
  decide

/-! ## What the rows are -/

section
variable {β : Type}

/-- What a row says, before it is seeded too. -/
def effective (env : Seed β) (stored : Option (Row β)) : β × Str :=
  (stored.map fun config => (config.fields, config.secret)).getD (env.fields, env.secret)

/-- The fields of the last update, and the last secret of any. -/
def following (base : β × Str) (payloads : List (Update β)) : β × Str :=
  ((payloads.getLast?.map Update.fields).getD base.1,
    (payloads.filterMap newSecret).getLast?.getD base.2)

theorem effective_getSettings (env : Seed β) (now : Int) (stored : Option (Row β)) :
    effective env (some (getSettings env now stored)) = effective env stored := by
  cases stored <;> rfl

theorem following_concat (base : β × Str) (payloads : List (Update β)) (payload : Update β) :
    following base (payloads ++ [payload]) =
      (payload.fields, (newSecret payload).getD (following base payloads).2) := by
  unfold following
  rw [List.getLast?_concat, Option.map_some, Option.getD_some, List.filterMap_append]
  cases h : newSecret payload with
  | none => simp [h]
  | some secret => simp [h]

/-- An update that passes its check is followed, and another one is not. -/
theorem effective_updateSettings (check : β → Option ApiError) (env : Seed β) (now : Int)
    (payload : Update β) (stored : Option (Row β)) :
    effective env (some (updateSettings check env now payload stored).2) =
      if check payload.fields = none then
        (payload.fields, (newSecret payload).getD (effective env stored).2)
      else effective env stored := by
  unfold updateSettings
  cases hc : check payload.fields with
  | none =>
    rw [if_pos rfl, ← effective_getSettings env now stored]
    rfl
  | some e =>
    rw [if_neg (Option.some_ne_none e)]
    exact effective_getSettings env now stored

end

/-- The update of the OIDC settings that a request makes. -/
def Request.oidcUpdate (r : Request) : Option (Update OidcSettingsBase) :=
  match r.action with
  | .updateOidc payload => if validate payload.fields = none then some payload else none
  | _ => none

def Request.mailUpdate (r : Request) : Option (Update MailSettingsBase) :=
  match r.action with
  | .updateMail payload => if validateMail payload.fields = none then some payload else none
  | _ => none

/-- What an update leaves of what a row said. -/
def followed {β : Type} (base : β × Str) : Option (Update β) → β × Str
  | none => base
  | some payload => (payload.fields, (newSecret payload).getD base.2)

section
variable (env : Env) (s : State) (r : Request)

/-- The notification of an entry seeds the row of the connector, at most. -/
theorem effective_recorded (entry : Option Entry) :
    (recorded env s r entry).1.oidc = s.oidc ∧
      effective env.mail (recorded env s r entry).1.mail = effective env.mail s.mail := by
  unfold recorded
  cases entry with
  | none => exact ⟨rfl, rfl⟩
  | some e =>
    dsimp only
    split
    · exact ⟨rfl, effective_getSettings env.mail r.now s.mail⟩
    · exact ⟨rfl, rfl⟩

theorem effective_updated {β : Type} (result : Except ApiError (Row β)) (entry : Option Entry)
    (answer : Public β → Answer) :
    (updated env s r result entry answer).2.oidc = s.oidc ∧
      effective env.mail (updated env s r result entry answer).2.mail =
        effective env.mail s.mail := by
  cases result with
  | error e => exact ⟨rfl, rfl⟩
  | ok config => exact effective_recorded env s r entry

theorem effective_serve :
    effective env.oidc (serve env s r).2.oidc = followed (effective env.oidc s.oidc) r.oidcUpdate ∧
      effective env.mail (serve env s r).2.mail =
        followed (effective env.mail s.mail) r.mailUpdate := by
  obtain ⟨admin, action, now, clientIp, commits⟩ := r
  cases action with
  | getOidc => exact ⟨effective_getSettings env.oidc now s.oidc, rfl⟩
  | getMail => exact ⟨rfl, effective_getSettings env.mail now s.mail⟩
  | updateOidc payload =>
    have hu := effective_updateSettings validate env.oidc now payload s.oidc
    rcases hx : updateSettings validate env.oidc now payload s.oidc with ⟨result, config⟩
    rw [hx] at hu
    simp only [serve, hx]
    obtain ⟨ho, hm⟩ := effective_updated env { s with oidc := some config }
      ⟨admin, .updateOidc payload, now, clientIp, commits⟩ result
      (entryOf (Audited.updateOidc admin payload.fields.toOidcConfig)) .oidc
    refine ⟨?_, hm⟩
    rw [ho, hu]
    unfold Request.oidcUpdate
    dsimp only
    split <;> rfl
  | updateMail payload =>
    have hu := effective_updateSettings validateMail env.mail now payload s.mail
    rcases hx : updateSettings validateMail env.mail now payload s.mail with ⟨result, config⟩
    rw [hx] at hu
    simp only [serve, hx]
    obtain ⟨ho, hm⟩ := effective_updated env { s with mail := some config }
      ⟨admin, .updateMail payload, now, clientIp, commits⟩ result
      (entryOf (Audited.updateMail admin payload.fields.toMailSettings)) .mail
    refine ⟨congrArg (effective env.oidc) ho, ?_⟩
    rw [hm, hu]
    unfold Request.mailUpdate
    dsimp only
    split <;> rfl
  | testMail payload smtp =>
    have hg := effective_getSettings env.mail now s.mail
    simp only [serve]
    generalize smtp _ = delivery
    rcases Audited.testMail (getSettings env.mail now s.mail).fields.toMailSettings delivery admin
      payload with ending | e | ⟨c, k⟩
    · obtain ⟨ho, hm⟩ := effective_recorded env
        { s with mail := some (getSettings env.mail now s.mail) }
        ⟨admin, .testMail payload smtp, now, clientIp, commits⟩ ending.entry
      exact ⟨congrArg (effective env.oidc) ho, hm.trans hg⟩
    · exact ⟨rfl, hg⟩
    · exact ⟨rfl, hg⟩

end

theorem following_filterMap {α β : Type} (base : β × Str) (f : α → Option (Update β)) (rs : List α)
    (r : α) : following base ((rs ++ [r]).filterMap f) =
      followed (following base (rs.filterMap f)) (f r) := by
  rw [List.filterMap_append]
  cases h : f r with
  | none => simp [h, followed]
  | some payload => simp only [List.filterMap_cons, h, List.filterMap_nil, following_concat, followed]

/-- After any requests, the rows say what the last updates that passed their check
said, with the last secret that one of them carried; and where the connector is
enabled since an update, a message can be sent with it. -/
theorem rows_after (env : Env) (s : State) (rs : List Request) :
    effective env.oidc ((service env).after s rs).oidc =
        following (effective env.oidc s.oidc) (rs.filterMap Request.oidcUpdate) ∧
      effective env.mail ((service env).after s rs).mail =
        following (effective env.mail s.mail) (rs.filterMap Request.mailUpdate) ∧
      (rs.filterMap Request.mailUpdate ≠ [] →
        (effective env.mail ((service env).after s rs).mail).1.enabled = true →
        isSendable (effective env.mail ((service env).after s rs).mail).1.toMailSettings = none) := by
  have hrows : effective env.oidc ((service env).after s rs).oidc =
        following (effective env.oidc s.oidc) (rs.filterMap Request.oidcUpdate) ∧
      effective env.mail ((service env).after s rs).mail =
        following (effective env.mail s.mail) (rs.filterMap Request.mailUpdate) := by
    induction rs using List.reverseRecOn with
    | nil => exact ⟨rfl, rfl⟩
    | append_singleton rs r ih =>
      have he := effective_serve env ((service env).after s rs) r
      have hafter : (service env).after s (rs ++ [r]) = (serve env ((service env).after s rs) r).2 := by
        unfold Service.after
        rw [List.foldl_concat]
        rfl
      rw [hafter, he.1, he.2, ih.1, ih.2]
      exact ⟨(following_filterMap _ _ rs r).symm, (following_filterMap _ _ rs r).symm⟩
  refine ⟨hrows.1, hrows.2, fun hne hen => ?_⟩
  rw [hrows.2] at hen ⊢
  obtain ⟨payload, hlast⟩ := List.getLast?_isSome.mpr hne |> Option.isSome_iff_exists.mp
  have hmem := List.mem_of_getLast? hlast
  obtain ⟨r, -, hr⟩ := List.mem_filterMap.mp hmem
  have hfields : (following (effective env.mail s.mail) (rs.filterMap Request.mailUpdate)).1 =
      payload.fields := by
    rw [following, hlast]
    rfl
  rw [hfields] at hen ⊢
  have hv : validateMail payload.fields = none := by
    unfold Request.mailUpdate at hr
    split at hr
    · obtain ⟨hv, he⟩ := Option.ite_none_right_eq_some.mp hr
      cases he
      exact hv
    · cases hr
  obtain ⟨hh, hf, -, -⟩ := validateMail_eq_none.mp hv hen
  unfold isSendable
  rw [if_neg (by rw [hen]; decide), if_neg hh, if_neg hf]

end MailserverUi.L4.WriteOnly
