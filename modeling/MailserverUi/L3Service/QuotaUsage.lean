import MailserverUi.Core.Digits
import MailserverUi.L3Service.MailboxService

/-!
# Disk usage of the mail accounts (`get_usage`)

What `doveadm -f tab quota get -A` prints is joined with the accounts, by the
address that `list_mailboxes` answers with. The text that the command prints is
given, and so is the arithmetic of `round(used / limit * 100)` (`percentOf`),
`none` where it raises.
-/
namespace MailserverUi.L3.QuotaUsage

open Py L1.MailFiles L2.Errors L2.Container MailboxService

/-- mirrors backend/app/models/mailbox_models.py:55-71 -/
structure MailboxUsage where
  email : Str
  usedBytes : Int := 0
  limitBytes : Option Int := none
  percent : Option Int := none
  messageCount : Int := 0
  deriving DecidableEq, Repr

/-- mirrors backend/app/models/mailbox_models.py:74-80 -/
structure MailboxUsageSummary where
  mailboxes : List MailboxUsage
  totalUsedBytes : Int
  totalLimitBytes : Option Int
  deriving DecidableEq, Repr

def doveadmStorageUnit : Int := 1024

/-- mirrors backend/app/services/mailbox_service.py:218-226 -/
def parseDoveadmAmount (value : Str) : Option Int :=
  let cleaned := strip value
  if cleaned = [] ∨ cleaned = "-".toList then none else signedInt cleaned

/-- The cells of a row that are read. -/
structure QuotaRow where
  address : Str
  kind : Str
  value : Str
  limit : Str
  deriving DecidableEq, Repr

/-- `none` for a line of fewer than five cells. -/
def rowOf (line : Str) : Option QuotaRow :=
  match split '\t' line with
  | email :: _quotaName :: kind :: value :: limit :: _ =>
    some ⟨lower (strip email), strip kind, strip value, strip limit⟩
  | _ => none

/-- The rows below the header. -/
def rowsOf (output : Str) : List QuotaRow := ((splitlines output).drop 1).filterMap rowOf

def isStorage (row : QuotaRow) : Bool := row.kind = "STORAGE".toList
def isMessage (row : QuotaRow) : Bool := row.kind = "MESSAGE".toList

/-- `(value or 0) * _DOVEADM_STORAGE_UNIT`. -/
def QuotaRow.usedBytes (row : QuotaRow) : Int :=
  (parseDoveadmAmount row.value).getD 0 * doveadmStorageUnit

/-- `limit * _DOVEADM_STORAGE_UNIT if limit else None`. -/
def QuotaRow.limitBytes (row : QuotaRow) : Option Int :=
  ((parseDoveadmAmount row.limit).filter (· ≠ 0)).map (· * doveadmStorageUnit)

/-- `value or 0`. -/
def QuotaRow.messageCount (row : QuotaRow) : Int := (parseDoveadmAmount row.value).getD 0

/-- What a row of its account sets. -/
def MailboxUsage.credited (usage : MailboxUsage) (row : QuotaRow) : MailboxUsage :=
  if isStorage row then { usage with usedBytes := row.usedBytes, limitBytes := row.limitBytes }
  else if isMessage row then { usage with messageCount := row.messageCount }
  else usage

/-- One turn of the loop over the rows. -/
def credit (usages : Dict Str MailboxUsage) (row : QuotaRow) : Dict Str MailboxUsage :=
  match usages.get? row.address with
  | none => usages
  | some usage => usages.set row.address (usage.credited row)

/-- One turn of the loop that sets the percentages. -/
def MailboxUsage.withPercent (percentOf : Int → Int → Option Int) (usage : MailboxUsage) :
    Option MailboxUsage :=
  match usage.limitBytes.filter (· ≠ 0) with
  | none => some usage
  | some limit => (percentOf usage.usedBytes limit).map fun p =>
      { usage with percent := some (min p 100) }

/-- `MailboxUsage(email=mailbox.email)` for each mailbox. -/
def noUsage (mailboxes : List Mailbox) : Dict Str MailboxUsage :=
  Dict.ofPairs (mailboxes.map fun m => (m.email, { email := m.email }))

/-- `bool(mailboxes) and all(u.limit_bytes for u in mailboxes)`. -/
def everyAccountCapped (mailboxes : List MailboxUsage) : Prop :=
  mailboxes ≠ [] ∧ ∀ u ∈ mailboxes, u.limitBytes.getD 0 ≠ 0

instance (mailboxes : List MailboxUsage) : Decidable (everyAccountCapped mailboxes) :=
  inferInstanceAs (Decidable (_ ∧ ∀ u ∈ mailboxes, _))

def summaryOf (mailboxes : List MailboxUsage) : MailboxUsageSummary where
  mailboxes := mailboxes
  totalUsedBytes := (mailboxes.map MailboxUsage.usedBytes).sum
  totalLimitBytes :=
    if everyAccountCapped mailboxes then some (mailboxes.map fun u => u.limitBytes.getD 0).sum
    else none

/-- mirrors backend/app/services/mailbox_service.py:229-278 -/
def getUsage (emailStr : Str → Option Str) (percentOf : Int → Int → Option Int) (output : Str) :
    Io MailboxUsageSummary := do
  let mailboxes ← listMailboxes emailStr
  let usages := (rowsOf output).foldl credit (noUsage mailboxes)
  let usages ← Prog.ofOption .internal
    ((usages.items.map Prod.snd).mapM (MailboxUsage.withPercent percentOf))
  return summaryOf (usages.insertionSort fun u v => v.usedBytes ≤ u.usedBytes)

end MailserverUi.L3.QuotaUsage
