import MailserverUi.L1Encoding.MailFiles
import MailserverUi.L1Encoding.SieveAddress
import MailserverUi.L3Service.Passwords

/-!
# Mail accounts (`mailbox_service.py`)

The operations that write, as programs over the container's files. `EmailStr`
is a parameter: the text it makes of an address, or `none` where it refuses.
What `sha512_crypt.hash` returns (`none` where it raises) is given in the order
of the calls, since each is salted afresh.

Log lines are left out.
-/
namespace MailserverUi.L3.MailboxService

open Py L1.MailFiles L1.SieveAddress L2.Errors L2.Container L3.Passwords

/-- mirrors backend/app/services/mailbox_service.py:42-44 -/
def accountsFilename : Str := "postfix-accounts.cf".toList
def virtualFilename : Str := "postfix-virtual.cf".toList
def quotasFilename : Str := "dovecot-quotas.cf".toList

/-- mirrors backend/app/models/mailbox_models.py:24-29 -/
structure Mailbox where
  email : Str
  domain : Str
  quota : Option Str
  deriving DecidableEq, Repr

/-- mirrors backend/app/models/mailbox_models.py:93-96 -/
structure Alias where
  «alias» : Str
  deriving DecidableEq, Repr

/-- mirrors backend/app/models/mailbox_models.py:105-117 -/
structure MailboxSieveScript where
  email : Str
  content : Str
  configured : Bool
  restartRequired : Bool
  deriving DecidableEq, Repr

/-! ## Generic file access -/

/-- mirrors backend/app/services/mailbox_service.py:69-72 -/
def readLines (filename : Str) : Io (List Str) := do
  return linesOf (← readConfig filename)

/-- mirrors backend/app/services/mailbox_service.py:75-78 -/
def writeLines (filename : Str) (lines : List Str) : Io Unit := writeConfig filename (unlines lines)

/-! ## Accounts -/

/-- `[addr for addr, _ in map(_split_account, lines) if addr]`. -/
def addressesOf (lines : List Str) : List Str :=
  (lines.map fun l => (splitAccount l).1).filter (· ≠ [])

/-- mirrors backend/app/services/mailbox_service.py:90-94 -/
def accountAddresses : Io (List Str) := do
  return addressesOf (← readLines accountsFilename)

/-- mirrors backend/app/services/mailbox_service.py:97-100 -/
def requireMailbox (address : Str) : Io Unit := do
  let addresses ← accountAddresses
  Prog.raiseIf (address ∉ addresses) (notFound "Mailbox" address)

section
variable (emailStr : Str → Option Str)

/-- `Mailbox(email=address, domain=address.rpartition("@")[2], quota=quota)`. -/
def mailbox (address : Str) (quota : Option Str) : Io Mailbox :=
  match emailStr address with
  | some email => .pure ⟨email, afterLast '@' address, quota⟩
  | none => .raise .internal

/-- mirrors backend/app/services/mailbox_service.py:56-58 -/
def hashPassword (crypt : Option Str) : Io Str := hashDovecotPassword crypt

/-! ## Quotas -/

/-- mirrors backend/app/services/mailbox_service.py:185-193 -/
def readQuotas : Io (Dict Str Str) := do
  return quotasOf (← readLines quotasFilename)

/-- The addresses of the accounts that `list_mailboxes` does not skip. -/
def listedOf (lines : List Str) : List Str :=
  (lines.map fun l => (splitAccount l).1).filter fun email => email ≠ [] ∧ '@' ∈ email

/-- mirrors backend/app/services/mailbox_service.py:109-124 -/
def listMailboxes : Io (List Mailbox) := do
  let quotas ← readQuotas
  let lines ← readLines accountsFilename
  let mailboxes ← Prog.ofOption .internal ((listedOf lines).mapM fun email =>
    (emailStr email).map fun e => ⟨e, afterLast '@' email, quotas.get? email⟩)
  return mailboxes.insertionSort fun m n => m.email ≤ n.email

/-- mirrors backend/app/services/mailbox_service.py:196-202 -/
def setQuotaLine (address quota : Str) : Io Unit := do
  let quotas ← readQuotas
  writeLines quotasFilename (quotaLines (quotas.set address quota))

/-- mirrors backend/app/services/mailbox_service.py:205-212 -/
def removeQuotaLine (address : Str) : Io Unit := do
  let quotas ← readQuotas
  if quotas.get? address = none then return ()
  writeLines quotasFilename (quotaLines (quotas.erase address))

/-- mirrors backend/app/services/mailbox_service.py:448-454 -/
def mailboxView (address : Str) : Io Mailbox := do
  let quotas ← readQuotas
  mailbox emailStr address (quotas.get? address)

/-- `if quota: _set_quota_line(address, quota)`. -/
def setGivenQuota (address : Str) : Option Str → Io Unit
  | none | some [] => .pure ()
  | some quota => setQuotaLine address quota

/-- mirrors backend/app/services/mailbox_service.py:127-142 -/
def createMailbox (crypt : Nat → Option Str) (email : Str) (quota : Option Str) : Io Mailbox := do
  let address := normaliseEmail email
  Prog.raiseIf ('@' ∉ address) (badRequest [lit "A mailbox address must contain a domain"])
  let lines ← readLines accountsFilename
  Prog.raiseIf (∃ line ∈ lines, (splitAccount line).1 = address)
    (conflict [lit "Mailbox ", .text address, lit " already exists"])
  let h ← hashPassword (crypt 0)
  writeLines accountsFilename (lines ++ [formatPair '|' address h])
  setGivenQuota address quota
  mailbox emailStr address quota

/-- The lines of `set_password`, `n` hashes into the call. -/
def resetLines (crypt : Nat → Option Str) (address : Str) : Nat → List Str → Option (List Str)
  | _, [] => some []
  | n, line :: lines =>
    if (splitAccount line).1 = address then
      match crypt n with
      | none => none
      | some c =>
        (resetLines crypt address (n + 1) lines).map (formatPair '|' address (dovecotHash c) :: ·)
    else (resetLines crypt address n lines).map (line :: ·)

/-- mirrors backend/app/services/mailbox_service.py:163-179 -/
def setPassword (crypt : Nat → Option Str) (email : Str) : Io Mailbox := do
  let address := normaliseEmail email
  let lines ← readLines accountsFilename
  match resetLines crypt address 0 lines with
  | none => .raise .internal
  | some updated =>
    Prog.raiseIf (¬ ∃ line ∈ lines, (splitAccount line).1 = address) (notFound "Mailbox" address)
    writeLines accountsFilename updated
    mailboxView emailStr address

/-- mirrors backend/app/services/mailbox_service.py:281-294 -/
def setQuota (email : Str) (quota : Option Str) : Io Mailbox := do
  let address := normaliseEmail email
  requireMailbox address
  match quota with
  | none | some [] => removeQuotaLine address
  | some quota => setQuotaLine address quota
  mailboxView emailStr address

/-! ## Aliases -/

/-- mirrors backend/app/services/mailbox_service.py:309-318 -/
def listAliasesFor (email : Str) : Io (List Alias) := do
  let target := normaliseEmail email
  requireMailbox target
  let lines ← readLines virtualFilename
  let aliases := ((lines.map parseAlias).filter fun p => target ∈ p.2).map Prod.fst
  Prog.ofOption .internal
    ((aliases.dedup.insertionSort (· ≤ ·)).mapM fun a => (emailStr a).map Alias.mk)

/-- mirrors backend/app/services/mailbox_service.py:321-341 -/
def addAlias (email aliasEmail : Str) : Io Alias := do
  let target := normaliseEmail email
  let source := normaliseEmail aliasEmail
  requireMailbox target
  Prog.raiseIf ('@' ∉ source) (badRequest [lit "An alias address must contain a domain"])
  Prog.raiseIf (source = target) (badRequest [lit "An alias cannot point to itself"])
  let addresses ← accountAddresses
  Prog.raiseIf (source ∈ addresses)
    (conflict [.text source, lit " is already a mailbox and cannot be an alias"])
  let lines ← readLines virtualFilename
  Prog.raiseIf (∃ line ∈ lines, (parseAlias line).1 = source ∧ target ∈ (parseAlias line).2)
    (conflict [lit "Alias ", .text source, lit " already forwards to ", .text target])
  writeLines virtualFilename (lines ++ [formatAlias source [target]])
  match emailStr source with
  | some email => .pure ⟨email⟩
  | none => .raise .internal

end

/-- The loop of `delete_alias` and `_remove_target_from_aliases`: `target` is
taken out of the lines that `hit` selects, and a line that has no target left
is dropped. -/
def withoutTarget (target : Str) (hit : Str → Bool) (lines : List Str) : List Str :=
  lines.filterMap fun line =>
    if hit line then
      let remaining := (parseAlias line).2.filter (· ≠ target)
      if remaining ≠ [] then some (formatAlias (parseAlias line).1 remaining) else none
    else some line

/-- mirrors backend/app/services/mailbox_service.py:344-369 -/
def deleteAlias (email aliasEmail : Str) : Io Unit := do
  let target := normaliseEmail email
  let source := normaliseEmail aliasEmail
  requireMailbox target
  let lines ← readLines virtualFilename
  let hit (line : Str) : Bool := (parseAlias line).1 = source ∧ target ∈ (parseAlias line).2
  Prog.raiseIf (¬ ∃ line ∈ lines, hit line = true) (notFound "Alias" source)
  writeLines virtualFilename (withoutTarget target hit lines)

/-- mirrors backend/app/services/mailbox_service.py:372-387 -/
def removeTargetFromAliases (target : Str) : Io Unit := do
  let lines ← readLines virtualFilename
  let hit (line : Str) : Bool := target ∈ (parseAlias line).2
  if ∃ line ∈ lines, hit line = true then
    writeLines virtualFilename (withoutTarget target hit lines)

/-! ## Personal Sieve filter -/

/-- mirrors backend/app/services/mailbox_service.py:398-403 -/
def requireSieveAddress (email : Str) : Io Str := do
  let address := normaliseEmail email
  Prog.raiseIf (sieveAddress address = false)
    (badRequest [lit "Invalid mailbox address: ", .repr email])
  return address

/-- mirrors backend/app/services/mailbox_service.py:406-411 -/
def getSieveScript (email : Str) : Io MailboxSieveScript := do
  let address ← requireSieveAddress email
  requireMailbox address
  let content := strip (← readConfig (sieveFilename address))
  return ⟨address, content, content ≠ [], true⟩

/-- mirrors backend/app/services/mailbox_service.py:414-434 -/
def setSieveScript (email content : Str) : Io MailboxSieveScript := do
  let address ← requireSieveAddress email
  requireMailbox address
  let body := strip content
  if body = [] then
    deleteConfig (sieveFilename address)
    return ⟨address, [], false, true⟩
  else
    writeConfig (sieveFilename address) (body ++ ['\n'])
    return ⟨address, body, true, true⟩

/-- mirrors backend/app/services/mailbox_service.py:437-442 -/
def deleteSieveScript (email : Str) : Io Unit := do
  let address ← requireSieveAddress email
  requireMailbox address
  deleteConfig (sieveFilename address)

/-- mirrors backend/app/services/mailbox_service.py:145-160 -/
def deleteMailbox (email : Str) : Io Unit := do
  let address := normaliseEmail email
  let lines ← readLines accountsFilename
  let remaining := lines.filter fun line => (splitAccount line).1 ≠ address
  Prog.raiseIf (remaining.length = lines.length) (notFound "Mailbox" address)
  writeLines accountsFilename remaining
  removeQuotaLine address
  removeTargetFromAliases address
  if sieveAddress address then
    deleteConfig (sieveFilename address)

end MailserverUi.L3.MailboxService
