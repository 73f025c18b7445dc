import MailserverUi.Core.Columns
import MailserverUi.L3Service.MailStatistics
import MailserverUi.L3Service.SettingsRows
import MailserverUi.L4App.AdminRuns
import MailserverUi.L4App.AliasEdits
import MailserverUi.L4App.AliasReadBack
import MailserverUi.L4App.AuditFailure
import MailserverUi.L4App.AuditTrail
import MailserverUi.L4App.BanPolicy
import MailserverUi.L4App.BannedAddress
import MailserverUi.L4App.DkimReadBack
import MailserverUi.L4App.FreeForm
import MailserverUi.L4App.HostedDomains
import MailserverUi.L4App.LimiterMemory
import MailserverUi.L4App.LogDates
import MailserverUi.L4App.MailboxDelete
import MailserverUi.L4App.MailboxRefinement
import MailserverUi.L4App.MasterReadBack
import MailserverUi.L4App.NumericCells
import MailserverUi.L4App.OidcState
import MailserverUi.L4App.OverrideFiles
import MailserverUi.L4App.OverridesReadBack
import MailserverUi.L4App.PendingRuns
import MailserverUi.L4App.PendingSummary
import MailserverUi.L4App.PolicyRefinement
import MailserverUi.L4App.Principals
import MailserverUi.L4App.RateLimit
import MailserverUi.L4App.Redaction
import MailserverUi.L4App.RegexAliasOrder
import MailserverUi.L4App.RelayFailure
import MailserverUi.L4App.RelayReadBack
import MailserverUi.L4App.RestrictionFrame
import MailserverUi.L4App.RetryAfter
import MailserverUi.L4App.RspamdReadBack
import MailserverUi.L4App.ServeSpa
import MailserverUi.L4App.Sessions
import MailserverUi.L4App.UsageReport
import MailserverUi.L4App.UserList
import MailserverUi.L4App.WriteOnly
import MailserverUi.L5Concurrency.AdminRace
import MailserverUi.L5Concurrency.DanglingRows
import MailserverUi.L5Concurrency.Discovery
import MailserverUi.L5Concurrency.Editors
import MailserverUi.L5Concurrency.LostUpdate
import MailserverUi.L5Concurrency.OidcFlow
import MailserverUi.L5Concurrency.PatLimit
import MailserverUi.L5Concurrency.RestartRace
import MailserverUi.L5Concurrency.SecretKey
import MailserverUi.L5Concurrency.SettingsRace
import MailserverUi.L5Concurrency.SieveRace
import MailserverUi.L5Concurrency.StartupRace
import MailserverUi.L5Concurrency.TempFile
