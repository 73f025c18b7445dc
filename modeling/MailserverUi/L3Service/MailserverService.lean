import MailserverUi.L1Encoding.ServerFiles
import MailserverUi.L3Service.Passwords

/-!
# The flat files the mailserver service edits (`mailserver_service.py`)

Relays and relay exclusions, restrictions, Dovecot masters, system aliases and
regex aliases. Every operation that creates or deletes an entry reads the file,
parses it, and writes it again from what was parsed; a relay with credentials
does so with two files in turn.

`sha512_crypt.hash` and `re.compile` are parameters of the operations that call
them. Log lines are left out.
-/
namespace MailserverUi.L3.MailserverService

open Py L1.ServerFiles L2.Errors L2.Container L3.Passwords

/-- mirrors backend/app/services/mailserver_service.py:95-96 -/
def relaymapFilename : Str := "postfix-relaymap.cf".toList
def saslFilename : Str := "postfix-sasl-password.cf".toList

/-- mirrors backend/app/services/mailserver_service.py:100-101 -/
def systemAliasesFilename : Str := "postfix-aliases.cf".toList
def regexAliasesFilename : Str := "postfix-regexp.cf".toList

/-- mirrors backend/app/services/mailserver_service.py:107 -/
def dovecotMastersFilename : Str := "dovecot-masters.cf".toList

/-- mirrors backend/app/models/mailserver_models.py:37-47 -/
structure RelayHost where
  sender : Str
  host : Str
  port : Nat
  username : Option Str
  hasCredentials : Bool
  deriving DecidableEq, Repr

/-- mirrors backend/app/models/mailserver_models.py:50-57 -/
structure RelayHostCreate where
  sender : Str
  host : Str
  port : Nat
  username : Option Str
  password : Option Str
  sender_length : 1 ≤ sender.length ∧ sender.length ≤ 255
  host_length : 1 ≤ host.length ∧ host.length ≤ 255
  port_range : 1 ≤ port ∧ port ≤ 65535
  username_length : ∀ u, username = some u → u.length ≤ 255
  password_length : ∀ p, password = some p → p.length ≤ 1024

/-- mirrors backend/app/models/mailserver_models.py:60-67 -/
structure RelayExclusion where
  sender : Str
  deriving DecidableEq, Repr

/-- mirrors backend/app/models/mailserver_models.py:198-204 -/
structure Restriction where
  kind : Str
  address : Str
  deriving DecidableEq, Repr

/-- mirrors backend/app/models/mailserver_models.py:219-222 -/
structure DovecotMaster where
  name : Str
  deriving DecidableEq, Repr

/-! ## Generic file access -/

/-- mirrors backend/app/services/mailserver_service.py:264-271 -/
def readConfigLines (filename : Str) : Io (List Str) := do
  return configLines (← readConfig filename)

/-- mirrors backend/app/services/mailserver_service.py:274-277 -/
def writeManaged (filename : Str) (lines : List Str) : Io Unit :=
  writeConfig filename (managed lines)

/-! ## SMTP relays -/

/-- mirrors backend/app/services/mailserver_service.py:322-339 -/
def parseRelaymap : Io (Dict Str Target) := do
  Prog.ofOption .internal (relaysOf (← readConfigLines relaymapFilename))

/-- mirrors backend/app/services/mailserver_service.py:342-351 -/
def parseSasl : Io (Dict Str (Str × Str)) := do
  return credsOf (← readConfigLines saslFilename)

/-- mirrors backend/app/services/mailserver_service.py:354-364 -/
def writeRelaymap (relays : Dict Str Target) : Io Unit :=
  writeManaged relaymapFilename (relayLines relays)

/-- mirrors backend/app/services/mailserver_service.py:367-374 -/
def writeSasl (creds : Dict Str (Str × Str)) : Io Unit :=
  writeManaged saslFilename (saslLines creds)

/-- mirrors backend/app/services/mailserver_service.py:377-384 -/
def requireRelaySender (sender : Str) : Io Str := do
  let key := normalise sender
  Prog.raiseIf ('@' ∉ key) (badRequest
    [lit "A relay sender must be a domain (e.g. @example.com) or a full address"])
  return key

/-- `bool(username)` and `username or None` of what `creds.get(sender, ("", ""))`
holds. -/
def relayHost (creds : Dict Str (Str × Str)) (sender : Str) (target : Str × Nat) : RelayHost :=
  let username := ((creds.get? sender).getD ([], [])).1
  ⟨sender, target.1, target.2, if username ≠ [] then some username else none, username ≠ []⟩

def relayHosts (relays : Dict Str Target) (creds : Dict Str (Str × Str)) : List RelayHost :=
  relays.sortedItems.filterMap fun p => p.2.map (relayHost creds p.1)

/-- mirrors backend/app/services/mailserver_service.py:387-408 -/
def listRelays : Io (List RelayHost) := do
  let creds ← parseSasl
  let relays ← parseRelaymap
  return relayHosts relays creds

def relayExists (sender : Str) : ApiError :=
  conflict [lit "A relay or exclusion already exists for ", .text sender]

/-- The `if username:` part of `create_relay`. -/
def addCredentials (sender username password : Str) : Io Unit := do
  if username ≠ [] then
    let creds ← parseSasl
    writeSasl (creds.set sender (username, password))

/-- mirrors backend/app/services/mailserver_service.py:411-435 -/
def createRelay (payload : RelayHostCreate) : Io RelayHost := do
  let sender ← requireRelaySender payload.sender
  let relays ← parseRelaymap
  Prog.raiseIf (sender ∈ relays.keys) (relayExists sender)
  writeRelaymap (relays.set sender (some (strip payload.host, payload.port)))
  let username := strip (payload.username.getD [])
  addCredentials sender username (payload.password.getD [])
  return ⟨sender, strip payload.host, payload.port,
    if username ≠ [] then some username else none, username ≠ []⟩

/-- The last part of `delete_relay`: `creds.pop(key, None)`. -/
def dropCredentials (key : Str) : Io Unit := do
  let creds ← parseSasl
  if creds.get? key ≠ none then
    writeSasl (creds.erase key)

/-- `relays.get(key)` is `None` for an exclusion as well.
mirrors backend/app/services/mailserver_service.py:438-450 -/
def deleteRelay (sender : Str) : Io Unit := do
  let key := normalise sender
  let relays ← parseRelaymap
  Prog.raiseIf ((relays.get? key).getD none = none) (notFound "Relay" key)
  writeRelaymap (relays.erase key)
  dropCredentials key

def relayExclusions (relays : Dict Str Target) : List RelayExclusion :=
  relays.sortedItems.filterMap fun p => if p.2 = none then some ⟨p.1⟩ else none

/-- mirrors backend/app/services/mailserver_service.py:456-462 -/
def listRelayExclusions : Io (List RelayExclusion) := do
  return relayExclusions (← parseRelaymap)

/-- mirrors backend/app/services/mailserver_service.py:465-475 -/
def createRelayExclusion (sender : Str) : Io RelayExclusion := do
  let key ← requireRelaySender sender
  let relays ← parseRelaymap
  Prog.raiseIf (key ∈ relays.keys) (relayExists key)
  writeRelaymap (relays.set key none)
  return ⟨key⟩

/-- mirrors backend/app/services/mailserver_service.py:478-487 -/
def deleteRelayExclusion (sender : Str) : Io Unit := do
  let key := normalise sender
  let relays ← parseRelaymap
  Prog.raiseIf (relays.get? key ≠ some none) (notFound "Relay exclusion" key)
  writeRelaymap (relays.erase key)

/-! ## Send and receive restrictions -/

/-- mirrors backend/app/services/mailserver_service.py:204-207,796-801 -/
def restrictionFilename (kind : Str) : Io Str :=
  if kind = "send".toList then .pure "postfix-send-access.cf".toList
  else if kind = "receive".toList then .pure "postfix-receive-access.cf".toList
  else .raise (badRequest [lit "Restriction kind must be 'send' or 'receive'"])

/-- mirrors backend/app/services/mailserver_service.py:804-811 -/
def restrictionAddresses (kind : Str) : Io (List Str) := do
  Prog.ofOption .internal (restrictedOf (← readConfigLines (← restrictionFilename kind)))

/-- mirrors backend/app/services/mailserver_service.py:814-819 -/
def listRestrictions (kind : Str) : Io (List Restriction) := do
  let addresses ← restrictionAddresses kind
  return (addresses.dedup.insertionSort (· ≤ ·)).map fun address => ⟨kind, address⟩

/-- mirrors backend/app/services/mailserver_service.py:822-840 -/
def addRestriction (kind address : Str) : Io Restriction := do
  let filename ← restrictionFilename kind
  let entry := normalise address
  Prog.raiseIf ('@' ∉ entry) (badRequest
    [lit "A restriction must target an address or a domain (@example.com)"])
  let addresses ← restrictionAddresses kind
  Prog.raiseIf (entry ∈ addresses) (conflict [.text entry, lit " is already restricted"])
  writeManaged filename (restrictionLines (addresses ++ [entry]))
  return ⟨kind, entry⟩

/-- mirrors backend/app/services/mailserver_service.py:843-854 -/
def deleteRestriction (kind address : Str) : Io Unit := do
  let filename ← restrictionFilename kind
  let entry := normalise address
  let addresses ← restrictionAddresses kind
  Prog.raiseIf (entry ∉ addresses) (notFound "Restriction" entry)
  writeManaged filename (restrictionLines (addresses.filter (· ≠ entry)))

/-! ## Dovecot master accounts -/

/-- mirrors backend/app/services/mailserver_service.py:1021-1027 -/
def masterNames : Io (List Str) := do
  return ((← readConfigLines dovecotMastersFilename).map splitMaster).filter (· ≠ [])

/-- mirrors backend/app/services/mailserver_service.py:1030-1032 -/
def listDovecotMasters : Io (List DovecotMaster) := do
  return ((← masterNames).dedup.insertionSort (· ≤ ·)).map fun name => ⟨name⟩

/-- `crypt` is what `sha512_crypt.hash` returns, `none` where it raises.
mirrors backend/app/services/mailserver_service.py:1035-1048 -/
def createDovecotMaster (crypt : Option Str) (name : Str) : Io DovecotMaster := do
  let username := normalise name
  Prog.raiseIf (username = [] ∨ '@' ∈ username)
    (badRequest [lit "A Dovecot master name must not contain '@'"])
  let lines ← readConfigLines dovecotMastersFilename
  Prog.raiseIf (∃ line ∈ lines, splitMaster line = username)
    (conflict [lit "Dovecot master ", .text username, lit " already exists"])
  let h ← hashDovecotPassword crypt
  writeManaged dovecotMastersFilename (lines ++ [username ++ '|' :: h])
  return ⟨username⟩

/-- mirrors backend/app/services/mailserver_service.py:1051-1060 -/
def deleteDovecotMaster (name : Str) : Io Unit := do
  let username := normalise name
  let lines ← readConfigLines dovecotMastersFilename
  let remaining := lines.filter fun line => splitMaster line ≠ username
  Prog.raiseIf (remaining.length = lines.length) (notFound "Dovecot master" username)
  writeManaged dovecotMastersFilename remaining

/-! ## System aliases -/

/-- mirrors backend/app/services/mailserver_service.py:1072-1081 -/
def listSystemAliases : Io (List SystemAlias) := do
  return systemAliasesOf (← readConfigLines systemAliasesFilename)

/-- mirrors backend/app/services/mailserver_service.py:1084-1092 -/
def writeSystemAliases (aliases : List SystemAlias) : Io Unit :=
  writeManaged systemAliasesFilename (systemAliasLines aliases)

/-- mirrors backend/app/services/mailserver_service.py:1095-1119 -/
def createSystemAlias (name : Str) (targets : List Str) : Io SystemAlias := do
  let aliasName := normalise name
  Prog.raiseIf (isAliasName aliasName = false) (badRequest [lit "Invalid alias name: ",
    .repr aliasName, lit ". A system alias is a local name without a domain, e.g. 'root'"])
  let cleaned := stripped targets
  Prog.raiseIf (cleaned = []) (badRequest [lit "A system alias needs at least one destination"])
  let aliases ← listSystemAliases
  Prog.raiseIf (∃ a ∈ aliases, a.name = aliasName)
    (conflict [lit "The system alias ", .text aliasName, lit " already exists"])
  writeSystemAliases (aliases ++ [⟨aliasName, cleaned⟩])
  return ⟨aliasName, cleaned⟩

/-- mirrors backend/app/services/mailserver_service.py:1122-1130 -/
def deleteSystemAlias (name : Str) : Io Unit := do
  let aliasName := normalise name
  let aliases ← listSystemAliases
  let remaining := aliases.filter fun a => a.name ≠ aliasName
  Prog.raiseIf (remaining.length = aliases.length) (notFound "System alias" aliasName)
  writeSystemAliases remaining

/-! ## Regex aliases -/

/-- What `re.compile(body)` does: nothing, a `re.error` with its message, or
any other exception. -/
inductive Compiled where
  | ok
  | error (message : Str)
  | raises
  deriving DecidableEq, Repr

/-- mirrors backend/app/services/mailserver_service.py:1148-1157 -/
def listRegexAliases : Io (List RegexAlias) := do
  Prog.ofOption .internal (regexAliasesOf (← readConfigLines regexAliasesFilename))

/-- mirrors backend/app/services/mailserver_service.py:1160-1165 -/
def writeRegexAliases (aliases : List RegexAlias) : Io Unit :=
  writeManaged regexAliasesFilename (regexAliasLines aliases)

/-- mirrors backend/app/services/mailserver_service.py:1168-1181 -/
def validateRegexPattern (compile : Str → Compiled) (pattern : Str) : Io Str :=
  let cleaned := strip pattern
  match patternBody cleaned with
  | none => .raise (badRequest [lit "Invalid pattern: ", .repr cleaned,
      lit ". A regex alias is delimited by slashes, e.g. /^info@example\\.com$/"])
  | some body =>
    match compile body with
    | .ok => .pure cleaned
    | .error message => .raise (badRequest [lit "Invalid regular expression: ", .text message])
    | .raises => .raise .internal

/-- mirrors backend/app/services/mailserver_service.py:1184-1201 -/
def createRegexAlias (compile : Str → Compiled) (pattern : Str) (targets : List Str) :
    Io RegexAlias := do
  let cleanedPattern ← validateRegexPattern compile pattern
  let cleanedTargets := normalised targets
  Prog.raiseIf (cleanedTargets = [])
    (badRequest [lit "A regex alias needs at least one destination"])
  let aliases ← listRegexAliases
  Prog.raiseIf (∃ a ∈ aliases, a.pattern = cleanedPattern)
    (conflict [lit "A regex alias already exists for ", .text cleanedPattern])
  writeRegexAliases (aliases ++ [⟨cleanedPattern, cleanedTargets⟩])
  return ⟨cleanedPattern, cleanedTargets⟩

/-- mirrors backend/app/services/mailserver_service.py:1204-1212 -/
def deleteRegexAlias (pattern : Str) : Io Unit := do
  let cleaned := strip pattern
  let aliases ← listRegexAliases
  let remaining := aliases.filter fun a => a.pattern ≠ cleaned
  Prog.raiseIf (remaining.length = aliases.length) (notFound "Regex alias" cleaned)
  writeRegexAliases remaining

end MailserverUi.L3.MailserverService
