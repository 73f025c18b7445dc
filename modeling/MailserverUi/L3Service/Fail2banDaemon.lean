import MailserverUi.L1Encoding.IpText
import MailserverUi.L3Service.Fail2ban

/-!
# The running fail2ban daemon (`fail2ban_service.py`)

Jails and banned addresses are read from what `fail2ban-client` prints, and bans
are changed with `setup fail2ban`. `World` has the files and the commands that
ran so far; what a command prints may depend on the commands before it.

Results:
* `run_onDaemon`: a program over files runs no command.
* `run_setBan`: a call that returns ran one command, on the text of the address.
-/
namespace MailserverUi.L3.Fail2ban

open Py L1.IpAddress L2.Errors L2.Container Settings

/-! ## Commands -/

inductive DaemonCmd where
  | file (c : Cmd)
  | run (args : List Str)
  deriving DecidableEq, Repr

abbrev DaemonReply : DaemonCmd → Type
  | .file c => Reply c
  | .run _ => Str

abbrev DaemonIo := Prog DaemonCmd DaemonReply ApiError

/-- The files, and the arguments of each command that ran, oldest first. -/
structure World where
  files : Files
  ran : List (List Str)

def daemon (answer : List (List Str) → List Str → Str) : Machine DaemonCmd DaemonReply World where
  exec
    | .file c, w => ((box.exec c w.files).1, { w with files := (box.exec c w.files).2 })
    | .run args, w => (answer w.ran args, { w with ran := w.ran ++ [args] })

/-- A program over files, among the commands of the daemon. -/
def onDaemon {α : Type} (p : Io α) : DaemonIo α :=
  p.hoist fun c => (Prog.request (DaemonCmd.file c) : DaemonIo (Reply c))

theorem run_onDaemon {α : Type} (answer : List (List Str) → List Str → Str) (p : Io α) (w : World) :
    (onDaemon p).run (daemon answer) w =
      ((p.run box w.files).1, { w with files := (p.run box w.files).2 }) := by
  induction p generalizing w with
  | pure a => rfl
  | raise e => rfl
  | call c k ih => exact ih _ _

def ofExcept {α : Type} : Except ApiError α → DaemonIo α
  | .ok a => .pure a
  | .error e => .raise e

/-- `subprocess` refuses an argument that holds a NUL.
mirrors backend/app/services/fail2ban_service.py:77-84 -/
def run (args : List Str) : DaemonIo Str := do
  Prog.raiseIf (∃ arg ∈ args, '\x00' ∈ arg) .internal
  Prog.request (DaemonCmd.run args)

/-- mirrors backend/app/services/fail2ban_service.py:87-92 -/
def validateIp (raw : Str) : Except ApiError Str :=
  match ipAddress (strip raw) with
  | some address => .ok address.text
  | none => .error (badRequest [lit "Invalid IP address: ", .repr raw])

/-! ## Parsing helpers -/

/-- `none` is the `IndexError` of a line without a colon.
mirrors backend/app/services/fail2ban_service.py:98-103 -/
def fieldAfter (text label : Str) : Option Str :=
  match (splitlines text).find? (label <:+: ·) with
  | none => some []
  | some line => if ':' ∈ line then some (strip (after ':' line)) else none

/-- `none` is the `ValueError` of `int`.
mirrors backend/app/services/fail2ban_service.py:106-109 -/
def asInt (value : Str) : Option Nat :=
  if isdigit (strip value) then int (strip value) else some 0

/-- mirrors backend/app/services/fail2ban_service.py:112-114 -/
def splitTokens (value : Str) : List Str := words (value.map fun c => if c = ',' then ' ' else c)

/-- mirrors backend/app/models/fail2ban_models.py:15-26 -/
structure Fail2banJail where
  name : Str
  currentlyFailed : Nat
  totalFailed : Nat
  currentlyBanned : Nat
  totalBanned : Nat
  bannedIps : List Str
  fileList : List Str
  deriving DecidableEq, Repr

/-- `_as_int(_field_after(status_text, label))`. -/
def counter (statusText : Str) (label : String) : Option Nat :=
  (fieldAfter statusText label.toList).bind asInt

/-- `_split_tokens(_field_after(status_text, label))`. -/
def tokens (statusText : Str) (label : String) : Option (List Str) :=
  (fieldAfter statusText label.toList).map splitTokens

/-- mirrors backend/app/services/fail2ban_service.py:122-132 -/
def parseJail (name statusText : Str) : Option Fail2banJail := do
  return {
    name
    currentlyFailed := ← counter statusText "Currently failed"
    totalFailed := ← counter statusText "Total failed"
    currentlyBanned := ← counter statusText "Currently banned"
    totalBanned := ← counter statusText "Total banned"
    bannedIps := ← tokens statusText "Banned IP list"
    fileList := ← tokens statusText "File list" }

/-! ## Public API -/

/-- mirrors backend/app/models/fail2ban_models.py:51-54 -/
structure Fail2banActionResult where
  output : Str
  deriving DecidableEq, Repr

inductive BanAction where
  | ban
  | unban
  deriving DecidableEq, Repr

def BanAction.text : BanAction → Str
  | .ban => "ban".toList
  | .unban => "unban".toList

/-- The command that changes a ban. -/
def banArgs (action : BanAction) (address : Str) : List Str :=
  ["setup".toList, "fail2ban".toList, action.text, address]

/-- The body of `ban_ip` and of `unban_ip`. -/
def setBan (action : BanAction) (ip : Str) : DaemonIo Fail2banActionResult := do
  onDaemon ensureEnabled
  let address ← ofExcept (validateIp ip)
  let output ← run (banArgs action address)
  return ⟨strip output⟩

/-- mirrors backend/app/services/fail2ban_service.py:163-169 -/
def banIp : Str → DaemonIo Fail2banActionResult := setBan .ban

/-- mirrors backend/app/services/fail2ban_service.py:172-178 -/
def unbanIp : Str → DaemonIo Fail2banActionResult := setBan .unban

/-! ## What a ban runs -/

theorem run_run {answer : List (List Str) → List Str → Str} {args : List Str} {w w' : World}
    {output : Str} (h : (run args).run (daemon answer) w = (.ok output, w')) :
    w'.ran = w.ran ++ [args] := by
  unfold run at h
  rw [Prog.run_raiseIf_bind] at h
  split at h
  · cases h
  · cases h
    rfl

/-- A call that returns ran its command on the text of the address. -/
theorem run_setBan {answer : List (List Str) → List Str → Str} {action : BanAction} {ip : Str}
    {w w' : World} {r : Fail2banActionResult}
    (h : (setBan action ip).run (daemon answer) w = (.ok r, w')) :
    ∃ a, ipAddress (strip ip) = some a ∧ w'.ran = w.ran ++ [banArgs action a.text] := by
  unfold setBan at h
  rw [Prog.run_bind, run_onDaemon] at h
  cases he : (ensureEnabled.run box w.files).1 with
  | error e =>
    rw [he] at h
    cases h
  | ok u =>
    rw [he] at h
    dsimp only at h
    rw [Prog.run_bind] at h
    unfold validateIp at h
    cases ha : ipAddress (strip ip) with
    | none =>
      rw [ha] at h
      cases h
    | some a =>
      rw [ha] at h
      refine ⟨a, rfl, ?_⟩
      simp only [ofExcept, Prog.run] at h
      rw [Prog.run_bind] at h
      generalize hrun : (run (banArgs action a.text)).run (daemon answer) _ = res at h
      obtain ⟨out, u'⟩ := res
      cases out with
      | error e => cases h
      | ok output =>
        have hran := run_run hrun
        cases h
        exact hran

end MailserverUi.L3.Fail2ban
