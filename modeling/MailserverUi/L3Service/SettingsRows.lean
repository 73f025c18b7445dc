import MailserverUi.L3Service.AuditService
import MailserverUi.L3Service.SettingsService

/-!
# The rows of the settings (`settings_service.py`, `settings_models.py`, `mail_models.py`)

The OIDC configuration and the mail connector are one row each, seeded from the
environment when it is first read. They differ in their fields, in what an update
is checked for, and in the name of the secret they keep: `client_secret` and
`password`. `Row`, `Update` and `Public` are the three models of either group.

Then the notifications that an entry of the trail gives rise to, by the row of the
mail connector (`mail_service.py`).
-/
namespace MailserverUi.L3.SettingsRows

open Py L2.Errors L2.Database AuditService MailService SettingsService

/-! ## Fields -/

/-- mirrors backend/app/models/settings_models.py:25-46 -/
structure OidcSettingsBase extends OidcConfig where
  redirectUri : Str
  postLogoutRedirectUri : Str
  responseType : Str
  scope : Str
  deriving DecidableEq, Repr

/-- mirrors backend/app/models/mail_models.py:23-44 -/
structure MailSettingsBase extends MailSettings where
  username : Str
  deriving DecidableEq, Repr

/-- A row of the table, with the text that is never answered.
mirrors backend/app/models/settings_models.py:52-59 -/
structure Row (β : Type) where
  fields : β
  secret : Str
  updatedAt : Int
  deriving DecidableEq, Repr

/-- mirrors backend/app/models/settings_models.py:65-68 -/
structure Public (β : Type) where
  fields : β
  secretSet : Bool
  deriving DecidableEq, Repr

/-- mirrors backend/app/models/settings_models.py:71-78 -/
structure Update (β : Type) where
  fields : β
  secret : Option Str
  deriving DecidableEq, Repr

/-- The variables of the environment that a row is seeded from. -/
structure Seed (β : Type) where
  fields : β
  secret : Str
  deriving DecidableEq, Repr

/-! ## Checks -/

/-- The error of a check that asks the database nothing. -/
def rejection {α : Type} : Query α → Option ApiError
  | .raise e => some e
  | _ => none

/-- mirrors backend/app/services/settings_service.py:148-153 -/
def validate (payload : OidcSettingsBase) : Option ApiError :=
  rejection (updateOidcSettings payload.toOidcConfig)

/-- mirrors backend/app/services/settings_service.py:110-127 -/
def validateMail (payload : MailSettingsBase) : Option ApiError :=
  rejection (SettingsService.validateMail payload.toMailSettings)

/-! ## Reading and writing a row -/

section
variable {β : Type}

/-- mirrors backend/app/services/settings_service.py:130-145, 156-174 -/
def seedFromEnv (env : Seed β) (now : Int) : Row β := ⟨env.fields, env.secret, now⟩

/-- The row, and what is stored from then on.
mirrors backend/app/services/settings_service.py:23-32, 68-77 -/
def getSettings (env : Seed β) (now : Int) (stored : Option (Row β)) : Row β :=
  stored.getD (seedFromEnv env now)

/-- The secret that a payload replaces the stored one by. -/
def newSecret (payload : Update β) : Option Str := payload.secret.filter (· ≠ [])

/-- The answer, and the row that is stored then: one that is rejected has been
seeded all the same.
mirrors backend/app/services/settings_service.py:35-62, 80-104 -/
def updateSettings (check : β → Option ApiError) (env : Seed β) (now : Int) (payload : Update β)
    (stored : Option (Row β)) : Except ApiError (Row β) × Row β :=
  let config := getSettings env now stored
  match check payload.fields with
  | some e => (.error e, config)
  | none =>
    let config := ⟨payload.fields, (newSecret payload).getD config.secret, now⟩
    (.ok config, config)

/-- mirrors backend/app/routers/settings.py:38-42, 78-82 -/
def toPublic (config : Row β) : Public β := ⟨config.fields, config.secret ≠ []⟩

end

/-! ## Notifications -/

/-- mirrors backend/app/services/mail_service.py:104-110 -/
def wants (config : MailSettings) (entry : AuditRow) : Bool :=
  if config.enabled = false then false
  else if entry.category = AuditCategory.auth.str then
    config.notifyAuthEvents || config.notifyAuditEvents
  else config.notifyAuditEvents

structure Message where
  recipients : List Str
  subject : Str
  body : Str
  deriving DecidableEq, Repr

/-- `text or '-'`. -/
def orDash (s : Str) : Str := if s = [] then "-".toList else s

/-- What is handed to a task of its own; `showTime` is the format of the instant.
mirrors backend/app/services/mail_service.py:113-143 -/
def notify (showTime : Int → Str) (config : MailSettings) (entry : AuditRow) : Option Message :=
  if wants config entry then
    let recipients := parseRecipients config.recipients
    if recipients = [] then none
    else some {
      recipients := recipients
      subject := "[Mailserver UI] ".toList ++ entry.action ++ " — ".toList ++ entry.status
      body := ("\n".toList).intercalate [
        "Action:    ".toList ++ entry.action,
        "Status:    ".toList ++ entry.status,
        "Actor:     ".toList ++ entry.actor,
        "Target:    ".toList ++ orDash entry.target,
        "Source IP: ".toList ++ orDash entry.ip,
        "Time:      ".toList ++ showTime entry.createdAt ++ " UTC".toList,
        "Detail:    ".toList ++ orDash entry.detail] }
  else none

/-! ## What an update is checked for -/

theorem validateMail_eq_none {payload : MailSettingsBase} :
    validateMail payload = none ↔ payload.enabled = true →
      payload.host ≠ [] ∧ payload.fromAddress ≠ [] ∧ (1 ≤ payload.port ∧ payload.port ≤ 65535) ∧
        ¬ (payload.useSsl = true ∧ payload.useTls = true) := by
  unfold validateMail SettingsService.validateMail
  cases payload.enabled
  · simp [rejection]
  · by_cases hh : payload.host = []
    · simp [hh, Prog.raiseIf, rejection]
    by_cases hf : payload.fromAddress = []
    · simp [hh, hf, Prog.raiseIf, rejection]
    by_cases hp : 1 ≤ payload.port ∧ payload.port ≤ 65535
    · by_cases ht : payload.useSsl = true ∧ payload.useTls = true
      · simp [hh, hf, hp, ht, Prog.raiseIf, rejection]
      · simp [hh, hf, hp, ht, Prog.raiseIf, rejection]
    · simp [hh, hf, hp, Prog.raiseIf, rejection]

theorem validate_eq_none {payload : OidcSettingsBase} :
    validate payload = none ↔
      (payload.enabled = true → payload.issuer ≠ [] ∧ payload.clientId ≠ []) := by
  unfold validate updateOidcSettings
  by_cases h : payload.enabled = true ∧ ¬ (payload.issuer ≠ [] ∧ payload.clientId ≠ [])
  · rw [Prog.raiseIf, if_pos h]
    exact iff_of_false (fun e => by cases e) fun hv => h.2 (hv h.1)
  · rw [Prog.raiseIf, if_neg h]
    exact iff_of_true rfl fun he => not_not.mp fun hn => h ⟨he, hn⟩

end MailserverUi.L3.SettingsRows
