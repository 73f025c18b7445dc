import MailserverUi.Core.Dict
import MailserverUi.L2Store.Container

/-!
# The toggles the mailserver started with (`/etc/dms-settings`)
-/
namespace MailserverUi.L3.Settings

open Py L2.Errors L2.Container

/-- mirrors backend/app/services/mailserver_service.py:193 -/
def dmsSettingsPath : Str := "/etc/dms-settings".toList

/-- The `ENABLE_*` toggles docker-mailserver ships enabled; the others default
to `0`.
mirrors backend/app/services/mailserver_service.py:159-165 -/
def featureDefaults : List Str :=
  ["ENABLE_AMAVIS".toList, "ENABLE_OPENDKIM".toList, "ENABLE_POLICYD_SPF".toList,
    "ENABLE_QUOTAS".toList, "ENABLE_UPDATE_CHECK".toList]

/-- The single and the double quote. -/
def isQuote (c : Char) : Bool := c.toNat == 39 || c.toNat == 34

/-- `value.strip()`, less the quotes around it. -/
def unquote (value : Str) : Str := ((strip value).dropWhile isQuote).rdropWhile isQuote

/-- One line of the loop of `_dms_settings`. -/
def settingLine (settings : Dict Str Str) (line : Str) : Dict Str Str :=
  let key := strip (before '=' line)
  if key ≠ [] ∧ '=' ∈ line ∧ key.head? ≠ some '#' then
    settings.set key (unquote (after '=' line))
  else settings

/-- mirrors backend/app/services/mailserver_service.py:1746-1752 -/
def settingsOf (content : Str) : Dict Str Str :=
  (splitlines content).foldl settingLine Dict.empty

/-- mirrors backend/app/services/mailserver_service.py:1744-1752 -/
def dmsSettings : Io (Dict Str Str) := do
  return settingsOf (← readFile dmsSettingsPath)

/-- mirrors backend/app/services/mailserver_service.py:1755-1762 -/
def flag (settings : Dict Str Str) (name : Str) : Bool :=
  (settings.get? name).getD (if name ∈ featureDefaults then ['1'] else ['0']) = ['1']

/-- mirrors backend/app/services/mailserver_service.py:1765-1772 -/
def featureEnabled (name : Str) : Io Bool := do
  return flag (← dmsSettings) name

inductive Backend where
  | rspamd
  | opendkim
  deriving DecidableEq, Repr

/-- mirrors backend/app/services/mailserver_service.py:1775-1781 -/
def dkimBackend : Io Backend := do
  return if flag (← dmsSettings) "ENABLE_RSPAMD".toList then .rspamd else .opendkim

theorem configPath_ne_dmsSettings (f : Str) : configPath f ≠ dmsSettingsPath := by
  intro e
  have htake : (configPath f).take 2 = "/tmp/docker-mailserver/".toList.take 2 :=
    List.take_append_of_le_length (by decide)
  rw [e] at htake
  exact absurd htake (by decide)

end MailserverUi.L3.Settings
