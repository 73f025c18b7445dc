import MailserverUi.L3Service.Rspamd

/-!
# Config files that are replaced whole (`mailserver_service.py`)

The Dovecot override, the global Sieve scripts, the spam-filtering files, the
files of `rspamd/override.d` and the LDAP maps. Each is a body of text that is
stripped and written under the header; an LDAP map without a body is deleted.

The scopes are `Literal` types, so that the look-ups that raise on an unknown
scope do not. Log lines are left out.
-/
namespace MailserverUi.L3.ConfigBodies

open Py L1.RspamdCommands L2.Errors L2.Container L2.ConfigTree Settings Rspamd

/-! ## The Dovecot override -/

/-- mirrors backend/app/services/mailserver_service.py:99 -/
def dovecotConfigFilename : Str := "dovecot.cf".toList

/-- mirrors backend/app/models/mailserver_models.py:106-111 -/
structure DovecotConfig where
  content : Str
  restartRequired : Bool
  deriving DecidableEq, Repr

/-- mirrors backend/app/services/mailserver_service.py:570-572 -/
def getDovecotConfig : Io DovecotConfig := do
  return ⟨← readManagedBody dovecotConfigFilename, true⟩

/-- mirrors backend/app/services/mailserver_service.py:575-584 -/
def setDovecotConfig (content : Str) : Io DovecotConfig := do
  let payload := strip content
  writeManagedBody dovecotConfigFilename payload
  return ⟨payload, true⟩

/-! ## Global Sieve scripts -/

/-- mirrors backend/app/models/mailserver_models.py:236 -/
inductive SieveScope where
  | before
  | after
  deriving DecidableEq, Repr

def SieveScope.text : SieveScope → Str
  | .before => "before".toList
  | .after => "after".toList

/-- mirrors backend/app/services/mailserver_service.py:108-111,1218-1223 -/
def sieveFilename : SieveScope → Str
  | .before => "before.dovecot.sieve".toList
  | .after => "after.dovecot.sieve".toList

/-- mirrors backend/app/models/mailserver_models.py:239-245 -/
structure SieveScript where
  scope : SieveScope
  content : Str
  restartRequired : Bool
  deriving DecidableEq, Repr

/-- mirrors backend/app/services/mailserver_service.py:1226-1228 -/
def getSieveScript (scope : SieveScope) : Io SieveScript := do
  return ⟨scope, ← readManagedBody (sieveFilename scope), true⟩

/-- mirrors backend/app/services/mailserver_service.py:1231-1241 -/
def setSieveScript (scope : SieveScope) (content : Str) : Io SieveScript := do
  let body := strip content
  writeManagedBody (sieveFilename scope) body
  return ⟨scope, body, true⟩

/-! ## Spam filter configuration files -/

/-- mirrors backend/app/models/mailserver_models.py:260-262 -/
inductive SpamConfigScope where
  | rules
  | whitelistClients
  | whitelistRecipients
  | amavis
  deriving DecidableEq, Repr

def SpamConfigScope.text : SpamConfigScope → Str
  | .rules => "rules".toList
  | .whitelistClients => "whitelist-clients".toList
  | .whitelistRecipients => "whitelist-recipients".toList
  | .amavis => "amavis".toList

/-- mirrors backend/app/services/mailserver_service.py:117-122,1246-1254 -/
def spamConfigFilename : SpamConfigScope → Str
  | .rules => "spamassassin-rules.cf".toList
  | .whitelistClients => "whitelist_clients.local".toList
  | .whitelistRecipients => "whitelist_recipients".toList
  | .amavis => "amavis.cf".toList

/-- mirrors backend/app/services/mailserver_service.py:127-132 -/
def spamConfigVariable : SpamConfigScope → Str
  | .rules => "ENABLE_SPAMASSASSIN".toList
  | .whitelistClients | .whitelistRecipients => "ENABLE_POSTGREY".toList
  | .amavis => "ENABLE_AMAVIS".toList

/-- mirrors backend/app/models/mailserver_models.py:265-276 -/
structure SpamConfig where
  scope : SpamConfigScope
  content : Str
  feature : Str
  featureEnabled : Bool
  restartRequired : Bool
  deriving DecidableEq, Repr

/-- mirrors backend/app/services/mailserver_service.py:1257-1265 -/
def spamConfigView (scope : SpamConfigScope) (content : Str) : Io SpamConfig := do
  let feature := spamConfigVariable scope
  return ⟨scope, content, feature, ← featureEnabled feature, true⟩

/-- mirrors backend/app/services/mailserver_service.py:1268-1270 -/
def getSpamConfig (scope : SpamConfigScope) : Io SpamConfig := do
  spamConfigView scope (← readManagedBody (spamConfigFilename scope))

/-- mirrors backend/app/services/mailserver_service.py:1273-1283 -/
def setSpamConfig (scope : SpamConfigScope) (content : Str) : Io SpamConfig := do
  let body := strip content
  writeManagedBody (spamConfigFilename scope) body
  spamConfigView scope body

/-! ## Files of `rspamd/override.d` -/

def rspamdOverrideFilename (name : Str) : Str := rspamdOverrideDir ++ '/' :: name

/-- The directives are not in that directory. -/
theorem rspamdOverrideFilename_ne_commands (name : Str) :
    rspamdOverrideFilename name ≠ rspamdCommandsFilename := by
  intro e
  have htake : (rspamdOverrideFilename name).take 8 = rspamdOverrideDir.take 8 :=
    List.take_append_of_le_length (by decide)
  rw [e] at htake
  exact absurd htake (by decide)

/-- `_RSPAMD_FILENAME_RE.match(name)`; `$` also matches before a final
newline. -/
def matchesRspamdFilename (name : Str) : Bool :=
  isRspamdFilename (if name.getLast? = some '\n' then name.dropLast else name)

/-- mirrors backend/app/services/mailserver_service.py:1357-1365 -/
def validateRspamdOverrideFilename (name : Str) : TreeIo Str := do
  Prog.raiseIf (matchesRspamdFilename name = false)
    (badRequest [lit "Invalid Rspamd override file name: ", .repr name])
  return name

/-- mirrors backend/app/services/mailserver_service.py:1368-1379 -/
def setRspamdOverrideFile (name content : Str) : TreeIo RspamdOverrideFile := do
  let filename ← validateRspamdOverrideFilename name
  let body := strip content
  onTree (writeManagedBody (rspamdOverrideFilename filename) body)
  return ⟨filename, body⟩

/-- mirrors backend/app/services/mailserver_service.py:1382-1388 -/
def deleteRspamdOverrideFile (name : Str) : TreeIo Unit := do
  let filename ← validateRspamdOverrideFilename name
  let files ← listFiles rspamdOverrideDir []
  Prog.raiseIf (filename ∉ files) (notFound "Rspamd override file" filename)
  onTree (deleteConfig (rspamdOverrideFilename filename))

/-- A name that is let through is the name of the file. -/
theorem validate_bind {α : Type} (name : Str) (k : Str → TreeIo α) :
    (validateRspamdOverrideFilename name >>= k) =
      (Prog.raiseIf (matchesRspamdFilename name = false)
        (badRequest [lit "Invalid Rspamd override file name: ", .repr name]) >>= fun _ => k name) :=
  Prog.bind_assoc _ _ _

/-! ## LDAP maps -/

/-- mirrors backend/app/models/mailserver_models.py:362 -/
inductive LdapScope where
  | users
  | groups
  | aliases
  | domains
  deriving DecidableEq, Repr

def LdapScope.text : LdapScope → Str
  | .users => "users".toList
  | .groups => "groups".toList
  | .aliases => "aliases".toList
  | .domains => "domains".toList

/-- mirrors backend/app/services/mailserver_service.py:138-143,1428-1434 -/
def ldapFilename : LdapScope → Str
  | .users => "ldap-users.cf".toList
  | .groups => "ldap-groups.cf".toList
  | .aliases => "ldap-aliases.cf".toList
  | .domains => "ldap-domains.cf".toList

/-- mirrors backend/app/services/mailserver_service.py:147-152 -/
def ldapQueryFilterVariable : LdapScope → Str
  | .users => "LDAP_QUERY_FILTER_USER".toList
  | .groups => "LDAP_QUERY_FILTER_GROUP".toList
  | .aliases => "LDAP_QUERY_FILTER_ALIAS".toList
  | .domains => "LDAP_QUERY_FILTER_DOMAIN".toList

/-- mirrors backend/app/models/mailserver_models.py:365-384 -/
structure LdapConfig where
  scope : LdapScope
  content : Str
  configured : Bool
  provisioner : Str
  ldapEnabled : Bool
  overriddenKeys : List Str
  restartRequired : Bool
  deriving DecidableEq, Repr

def isKeyChar (c : Char) : Bool := c.isAlphanum || c = '_'

/-- mirrors backend/app/services/mailserver_service.py:155 -/
def isLdapLine (line : Str) : Bool :=
  line.head?.any isKeyChar && ((line.dropWhile isKeyChar).dropWhile isSpace).head? = some '='

/-- A line that is neither empty nor a comment, stripped. -/
def ldapLines (content : Str) : List Str :=
  ((splitlines content).map strip).filter fun l => l ≠ [] ∧ l.head? ≠ some '#'

/-- mirrors backend/app/services/mailserver_service.py:1437-1444 -/
def ldapFileKeys (content : Str) : List Str :=
  ((ldapLines content).filter isLdapLine).map fun l => lower (strip (before '=' l))

/-- `str.upper` of a text in ASCII, as the keys are. No other character has one
of the letters of `LDAP` as its upper case. -/
def upper (s : Str) : Str := s.map Char.toUpper

/-- mirrors backend/app/services/mailserver_service.py:1447-1465 -/
def ldapOverriddenKeys (scope : LdapScope) (content : Str) : Io (List Str) := do
  let settings ← dmsSettings
  return (ldapFileKeys content).filter fun key =>
    let name := if key = "query_filter".toList then ldapQueryFilterVariable scope
      else "LDAP_".toList ++ upper key
    (settings.get? name).getD [] ≠ []

/-- mirrors backend/app/services/mailserver_service.py:1468-1478 -/
def ldapView (scope : LdapScope) (content : Str) : Io LdapConfig := do
  let settings ← dmsSettings
  let provisioner := (settings.get? "ACCOUNT_PROVISIONER".toList).getD []
  let overriddenKeys ← ldapOverriddenKeys scope content
  return ⟨scope, content, content ≠ [], provisioner, upper provisioner = "LDAP".toList,
    overriddenKeys, true⟩

/-- mirrors backend/app/services/mailserver_service.py:1481-1488 -/
def getLdapConfig (scope : LdapScope) : Io LdapConfig := do
  ldapView scope (← readManagedBody (ldapFilename scope))

/-- The loop over the lines of a map. -/
def checkLdapLines : List Str → Io Unit
  | [] => .pure ()
  | line :: lines => do
    Prog.raiseIf (isLdapLine line = false) (badRequest [lit "Invalid LDAP map line: ", .repr line,
      lit ". Expected 'key = value', e.g. search_base = ou=people,dc=example,dc=com"])
    checkLdapLines lines

/-- mirrors backend/app/services/mailserver_service.py:1491-1522 -/
def setLdapConfig (scope : LdapScope) (content : Str) : Io LdapConfig := do
  let body := strip content
  if body = [] then
    deleteConfig (ldapFilename scope)
    ldapView scope []
  else
    checkLdapLines (ldapLines body)
    writeManagedBody (ldapFilename scope) body
    ldapView scope body

end MailserverUi.L3.ConfigBodies
