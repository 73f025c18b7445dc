import MailserverUi.L2Store.Database
import MailserverUi.L3Service.MailService
import MailserverUi.L3Service.Oidc

/-!
# The settings rows (`settings_service.py`)

An update is validated and replaces the stored row. The two secrets, which a row
keeps when none is sent, and the fields that nothing here reads are left out.
-/
namespace MailserverUi.L3.SettingsService

open Py L2.Errors L2.Database Oidc MailService

/-- mirrors backend/app/models/settings_models.py:25-46 -/
structure OidcConfig extends OidcSettings where
  issuer : Str
  clientId : Str
  deriving DecidableEq, Repr

/-- mirrors backend/app/services/settings_service.py:35-62, 148-153 -/
def updateOidcSettings (payload : OidcConfig) : Query OidcConfig := do
  Prog.raiseIf (payload.enabled = true ∧ ¬ (payload.issuer ≠ [] ∧ payload.clientId ≠ []))
    (badRequest [lit "Issuer and Client ID are required when OIDC is enabled"])
  return payload

/-- mirrors backend/app/services/settings_service.py:110-127 -/
def validateMail (payload : MailSettings) : Query Unit := do
  if payload.enabled then
    Prog.raiseIf (payload.host = [])
      (badRequest [lit "An SMTP host is required when the mail connector is enabled"])
    Prog.raiseIf (payload.fromAddress = [])
      (badRequest [lit "A sender address is required when the mail connector is enabled"])
    Prog.raiseIf (¬ (1 ≤ payload.port ∧ payload.port ≤ 65535))
      (badRequest [lit "The SMTP port must be between 1 and 65535"])
    Prog.raiseIf (payload.useSsl = true ∧ payload.useTls = true)
      (badRequest [lit "Choose either implicit TLS (SSL) or STARTTLS, not both"])

/-- mirrors backend/app/services/settings_service.py:80-104 -/
def updateMailSettings (payload : MailSettings) : Query MailSettings := do
  validateMail payload
  return payload

end MailserverUi.L3.SettingsService
