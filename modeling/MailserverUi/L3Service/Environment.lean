import MailserverUi.L3Service.Settings

/-!
# The mailserver's environment (`get_environment`)

`/etc/dms-settings` holds secrets next to the toggles. The view of it replaces
their values, and everything else in it is worked out from the values of other
variables.
-/
namespace MailserverUi.L3.Environment

open Py L2.Errors L2.Container Settings

/-- mirrors backend/app/services/mailserver_service.py:167-172 -/
def secretVariables : List Str := ["LDAP_BIND_PW".toList, "SRS_SECRET".toList]

def redactedText : Str := "••••••••".toList

/-- mirrors backend/app/models/mailserver_models.py:468 -/
inductive SpamFilter where
  | rspamd
  | spamassassin
  | none
  deriving DecidableEq, Repr

inductive WarningLevel where
  | danger
  | warning
  deriving DecidableEq, Repr

/-- mirrors backend/app/models/mailserver_models.py:475-486 -/
structure EnvironmentWarning where
  level : WarningLevel
  vars : List Str
  message : Str
  deriving DecidableEq, Repr

/-- mirrors backend/app/models/mailserver_models.py:489-518 -/
structure MailserverEnvironment where
  vars : Dict Str Str
  dkimBackend : Backend
  globalRelayHost : Str
  postmasterAddress : Str
  sslType : Str
  accountProvisioner : Str
  managesieveEnabled : Bool
  quotasEnabled : Bool
  spamFilter : SpamFilter
  amavisEnabled : Bool
  clamavEnabled : Bool
  postgreyEnabled : Bool
  updateCheckEnabled : Bool
  warnings : List EnvironmentWarning

section
variable (vars : Dict Str Str)

/-- `variables.get(name, "")`. -/
def value (name : String) : Str := (vars.get? name.toList).getD []

/-- `_flag(variables, name)`. -/
def on (name : String) : Bool := flag vars name.toList

/-- mirrors backend/app/services/mailserver_service.py:1784-1792 -/
def spamFilter : SpamFilter :=
  if on vars "ENABLE_RSPAMD" then .rspamd
  else if on vars "ENABLE_SPAMASSASSIN" then .spamassassin
  else .none

/-- `provisioner.upper() == "LDAP"`. No other character has one of these letters
as its upper case. -/
def isLdap (provisioner : Str) : Bool := provisioner.map Char.toUpper = "LDAP".toList

/-- `[warning]` when the condition holds. -/
def warnIf (condition : Bool) (level : WarningLevel) (vars : List String) (message : String) :
    List EnvironmentWarning :=
  if condition then [⟨level, vars.map String.toList, message.toList⟩] else []

/-- The warning about the provisioner, which is one of two. -/
def provisionerWarning : List EnvironmentWarning :=
  let provisioner := value vars "ACCOUNT_PROVISIONER"
  if isLdap provisioner then
    warnIf true .danger ["ACCOUNT_PROVISIONER"]
      "Accounts come from LDAP, so the mailbox, alias and quota pages of this UI cannot manage them. Edit the LDAP maps instead."
  else
    warnIf (provisioner ≠ "FILE".toList) .danger ["ACCOUNT_PROVISIONER"]
      "This UI writes the account files directly and needs ACCOUNT_PROVISIONER=FILE. Mailbox management will not work."

/-- The warnings in the order in which they are appended. -/
def appendedWarnings : List EnvironmentWarning :=
  let rspamd := on vars "ENABLE_RSPAMD"
  let amavis := on vars "ENABLE_AMAVIS"
  let spamassassin := on vars "ENABLE_SPAMASSASSIN"
  let clamav := on vars "ENABLE_CLAMAV"
  provisionerWarning vars ++
  warnIf (rspamd && spamassassin) .danger ["ENABLE_RSPAMD", "ENABLE_SPAMASSASSIN"]
    "Rspamd and SpamAssassin both filter incoming mail; running them together is unsupported. Disable one of the two." ++
  warnIf (spamassassin && !amavis) .danger ["ENABLE_SPAMASSASSIN", "ENABLE_AMAVIS"]
    "SpamAssassin runs inside Amavis. With ENABLE_AMAVIS=0 nothing scans incoming mail for spam." ++
  warnIf (clamav && !amavis && !rspamd) .danger ["ENABLE_CLAMAV", "ENABLE_AMAVIS"]
    "ClamAV is driven by Amavis or by Rspamd. With both disabled no message is ever scanned for viruses." ++
  warnIf (rspamd && on vars "ENABLE_OPENDKIM") .warning ["ENABLE_RSPAMD", "ENABLE_OPENDKIM"]
    "Rspamd and OpenDKIM both sign outgoing mail, and they store their keys apart. This UI reads Rspamd's keys, so any key generated for OpenDKIM is invisible here." ++
  warnIf (rspamd && amavis) .warning ["ENABLE_RSPAMD", "ENABLE_AMAVIS"]
    "Rspamd replaces Amavis as the content filter; Amavis is redundant." ++
  warnIf (rspamd && on vars "ENABLE_POSTGREY") .warning ["ENABLE_RSPAMD", "ENABLE_POSTGREY"]
    "Rspamd greylists on its own through RSPAMD_GREYLISTING; Postgrey greylists a second time." ++
  warnIf (rspamd && on vars "ENABLE_POLICYD_SPF") .warning
    ["ENABLE_RSPAMD", "ENABLE_POLICYD_SPF"]
    "Rspamd checks SPF itself. docker-mailserver recommends ENABLE_POLICYD_SPF=0 alongside it." ++
  warnIf (on vars "ENABLE_UPDATE_CHECK" && value vars "POSTMASTER_ADDRESS" = [])
    .warning ["ENABLE_UPDATE_CHECK", "POSTMASTER_ADDRESS"]
    "Update notices are mailed to POSTMASTER_ADDRESS, which is unset: every check will bounce."

/-- mirrors backend/app/services/mailserver_service.py:1795-1920 -/
def environmentWarnings : List EnvironmentWarning :=
  (appendedWarnings vars).insertionSort fun v w =>
    decide (v.level ≠ .danger) ≤ decide (w.level ≠ .danger)

/-- `_REDACTED if name in _SECRET_VARIABLES and value else value`. -/
def shown (name value : Str) : Str :=
  if name ∈ secretVariables ∧ value ≠ [] then redactedText else value

/-- mirrors backend/app/services/mailserver_service.py:1930-1951 -/
def environmentOf : MailserverEnvironment where
  vars := vars.mapVal shown
  dkimBackend := if on vars "ENABLE_RSPAMD" then .rspamd else .opendkim
  globalRelayHost :=
    let relay := value vars "DEFAULT_RELAY_HOST"
    if relay ≠ [] then relay else value vars "RELAY_HOST"
  postmasterAddress := value vars "POSTMASTER_ADDRESS"
  sslType := value vars "SSL_TYPE"
  accountProvisioner := value vars "ACCOUNT_PROVISIONER"
  managesieveEnabled := on vars "ENABLE_MANAGESIEVE"
  quotasEnabled := on vars "ENABLE_QUOTAS"
  spamFilter := spamFilter vars
  amavisEnabled := on vars "ENABLE_AMAVIS"
  clamavEnabled := on vars "ENABLE_CLAMAV"
  postgreyEnabled := on vars "ENABLE_POSTGREY"
  updateCheckEnabled := on vars "ENABLE_UPDATE_CHECK"
  warnings := environmentWarnings vars

end

/-- mirrors backend/app/services/mailserver_service.py:1923-1951 -/
def getEnvironment : Io MailserverEnvironment := do
  return environmentOf (← dmsSettings)

end MailserverUi.L3.Environment
