import MailserverUi.L2Store.Errors

/-!
# The mail connector (`mail_service.py`)

What a test message needs of it: the recipients of a list, and whether a message
is handed over. The SMTP conversation is a parameter, `Delivery`.
-/
namespace MailserverUi.L3.MailService

open Py

/-- The settings that sending looks at, and those the trail names.
mirrors backend/app/models/mail_models.py:25-45 -/
structure MailSettings where
  enabled : Bool
  host : Str
  port : Int
  useTls : Bool
  useSsl : Bool
  fromAddress : Str
  recipients : Str
  notifyAuthEvents : Bool
  notifyAuditEvents : Bool
  deriving DecidableEq, Repr

/-- How the conversation comes out; `raised` is an error that is neither an
`OSError` nor an `SMTPException`, like that of a header with a line break. -/
inductive Delivery where
  | delivered
  | failed (exc : Str)
  | raised
  deriving DecidableEq, Repr

/-- mirrors backend/app/services/mail_service.py:34-36 -/
def parseRecipients (raw : Str) : List Str := ((split ',' raw).map strip).filter (· ≠ [])

/-- The reason, where the connector cannot send.
mirrors backend/app/services/mail_service.py:39-47 -/
def isSendable (config : MailSettings) : Option Str :=
  if config.enabled = false then some "The mail connector is disabled".toList
  else if config.host = [] then some "An SMTP host is required".toList
  else if config.fromAddress = [] then some "A sender address is required".toList
  else none

/-- `none` is another exception, `some none` success, and `some (some text)` a
`MailError`.
mirrors backend/app/services/mail_service.py:53-80 -/
def send (config : MailSettings) (recipients : List Str) (delivery : Delivery) :
    Option (Option Str) :=
  match isSendable config with
  | some reason => some (some reason)
  | none =>
    if recipients = [] then some (some "At least one recipient is required".toList)
    else
      match delivery with
      | .delivered => some none
      | .failed exc => some (some ("SMTP delivery failed: ".toList ++ exc))
      | .raised => none

/-- `", ".join(recipients)`. -/
def joined (recipients : List Str) : Str := (", ".toList).intercalate recipients

end MailserverUi.L3.MailService
