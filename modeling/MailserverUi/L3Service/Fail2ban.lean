import MailserverUi.Core.ConfigParser
import MailserverUi.L3Service.Settings

/-!
# The two config files of fail2ban (`fail2ban_service.py`)

Both are written only where the mailserver started with `ENABLE_FAIL2BAN=1`.
What `set_config` makes of `ConfigParser.read_string` is a parameter, with the
text of its error. Jails, bans and the log are commands of the running daemon
(`MailserverUi.L3Service.Fail2banDaemon`).
-/
namespace MailserverUi.L3.Fail2ban

open Py L2.Errors L2.Container Settings

/-- mirrors backend/app/services/fail2ban_service.py:46-49 -/
def jailFilename : Str := "fail2ban-jail.cf".toList
def configFilename : Str := "fail2ban-fail2ban.cf".toList

/-- mirrors backend/app/services/fail2ban_service.py:57 -/
def managedHeader : Str := "# Managed by Mailserver UI — manual edits may be overwritten.".toList

/-- mirrors backend/app/services/fail2ban_service.py:52-54 -/
def defaultBantime : Nat := 604800
def defaultFindtime : Nat := 604800
def defaultMaxretry : Nat := 6

/-- mirrors backend/app/models/fail2ban_models.py:61-77 -/
structure Fail2banPolicy where
  bantime : Nat
  findtime : Nat
  maxretry : Nat
  configured : Bool
  restartRequired : Bool
  deriving DecidableEq, Repr

/-- mirrors backend/app/models/fail2ban_models.py:80-86 -/
structure Fail2banPolicyUpdate where
  bantime : Nat
  findtime : Nat
  maxretry : Nat
  bantime_range : 60 ≤ bantime ∧ bantime ≤ 31536000
  findtime_range : 60 ≤ findtime ∧ findtime ≤ 31536000
  maxretry_range : 1 ≤ maxretry ∧ maxretry ≤ 100

/-- mirrors backend/app/models/fail2ban_models.py:89-98 -/
structure Fail2banConfig where
  content : Str
  restartRequired : Bool
  deriving DecidableEq, Repr

/-- What `ConfigParser.read_string` does: nothing, a `configparser.Error` with
its message, or any other exception. -/
inductive Parsed where
  | ok
  | error (message : Str)
  | raises
  deriving DecidableEq, Repr

def disabled : ApiError := badRequest [lit "Fail2ban is disabled in the mailserver container. ",
  lit "Restart it with ENABLE_FAIL2BAN=1 to manage it from here."]

/-- mirrors backend/app/services/fail2ban_service.py:63-74 -/
def ensureEnabled : Io Unit := do
  let enabled ← featureEnabled "ENABLE_FAIL2BAN".toList
  Prog.raiseIf (enabled = false) disabled

/-- `_ensure_enabled`, then the rest. -/
theorem run_ensureEnabled_bind {α : Type} (k : Unit → Io α) (s : Files) :
    (ensureEnabled >>= k).run box s =
      if flag (settingsOf (s.read dmsSettingsPath)) "ENABLE_FAIL2BAN".toList = false then
        (.error disabled, s)
      else (k ()).run box s := by
  have e : (ensureEnabled >>= k).run box s = (Prog.raiseIf
      (flag (settingsOf (s.read dmsSettingsPath)) "ENABLE_FAIL2BAN".toList = false) disabled >>=
        k).run box s := rfl
  rw [e, Prog.run_raiseIf_bind]

/-- What docker-mailserver ships. -/
def defaultPolicy : Fail2banPolicy :=
  ⟨defaultBantime, defaultFindtime, defaultMaxretry, false, true⟩

/-- `Field(ge=1)`; `none` is a `ValidationError`. -/
def atLeastOne (n : Int) : Option Nat := if 1 ≤ n then some n.toNat else none

/-- mirrors backend/app/services/fail2ban_service.py:223-229 -/
def policyOf (config : ConfigParser.Config) : Option Fail2banPolicy := do
  let bantime ← config.getint "bantime".toList defaultBantime
  let findtime ← config.getint "findtime".toList defaultFindtime
  let maxretry ← config.getint "maxretry".toList defaultMaxretry
  return ⟨← atLeastOne bantime, ← atLeastOne findtime, ← atLeastOne maxretry, true, true⟩

/-- mirrors backend/app/services/fail2ban_service.py:192-229 -/
def getPolicy : Io Fail2banPolicy := do
  ensureEnabled
  let content ← readConfig jailFilename
  if strip content = [] then return defaultPolicy
  else
    match ConfigParser.readString content with
    | none => return defaultPolicy
    | some config => Prog.ofOption .internal (policyOf config)

/-- `f"{name} = {n}\n"`. -/
def policyLine (name : String) (n : Nat) : Str := name.toList ++ " = ".toList ++ str n ++ ['\n']

/-- mirrors backend/app/services/fail2ban_service.py:232-258 -/
def setPolicy (payload : Fail2banPolicyUpdate) : Io Fail2banPolicy := do
  ensureEnabled
  writeConfig jailFilename (managedHeader ++ "\n[DEFAULT]\n".toList ++
    policyLine "bantime" payload.bantime ++ policyLine "findtime" payload.findtime ++
    policyLine "maxretry" payload.maxretry)
  return ⟨payload.bantime, payload.findtime, payload.maxretry, true, true⟩

/-- mirrors backend/app/services/fail2ban_service.py:265-271 -/
def getConfig : Io Fail2banConfig := do
  ensureEnabled
  let content ← readConfig configFilename
  return ⟨strip (if managedHeader.isPrefixOf content then content.drop managedHeader.length
    else content), true⟩

/-- `if body: ...`, up to the write. -/
def checkConfig (readString : Str → Parsed) (body : Str) : Io Unit :=
  if body = [] then .pure ()
  else
    match readString body with
    | .ok => .pure ()
    | .error message =>
      .raise (badRequest [lit "Invalid fail2ban configuration: ", .text message])
    | .raises => .raise .internal

/-- mirrors backend/app/services/fail2ban_service.py:274-294 -/
def setConfig (readString : Str → Parsed) (content : Str) : Io Fail2banConfig := do
  ensureEnabled
  let body := strip content
  checkConfig readString body
  writeConfig configFilename (if body ≠ [] then managedHeader ++ '\n' :: body ++ ['\n'] else [])
  return ⟨body, true⟩

end MailserverUi.L3.Fail2ban
