import DreamSso.Library.JsConversions
import DreamSso.Library.Transitions
import DreamSso.Library.StoredJson
import DreamSso.PoisonIsolation
import DreamSso.ChainAgreement
import DreamSso.AppRoleCeiling
import DreamSso.CatalogConfluence
import DreamSso.InboxReplay
import DreamSso.Library.NewestWins
import DreamSso.RoleLedger
import DreamSso.RoleReports
import DreamSso.NewUserCeiling
import DreamSso.CodeRedemption
import DreamSso.AccountRoutes
import DreamSso.LoginRoutes
import DreamSso.ResetLifecycle
import DreamSso.ClientKeyCodec
import DreamSso.ChallengeCap
import DreamSso.Library.GuardedRuns
import DreamSso.TotpSingleUse
import DreamSso.SecurityRoutes
import DreamSso.OrgUserGuard
import DreamSso.EmailOtp
import DreamSso.StepupLimit
import DreamSso.LogoutFinality
import DreamSso.EventDelivery
import DreamSso.LinkWindows
import DreamSso.CatalogRemovals
import DreamSso.OutboxEnqueue
import DreamSso.DueHeads
import DreamSso.CatalogDigests
import DreamSso.InviteFrames
import DreamSso.LostEdits
import DreamSso.PermissionCeiling
import DreamSso.SessionVerdicts
import DreamSso.UpgradeBaseline
import DreamSso.SettingsCoherence
import DreamSso.RemoteKeySafety
import DreamSso.Lifecycle
import DreamSso.MtlsSchedules
import DreamSso.SendLimiter
import DreamSso.OrgLogs
import DreamSso.ReturnPaths
import DreamSso.ClientUrls
import DreamSso.DraftRuns
import DreamSso.Library.RotatingQueues
import DreamSso.LegacyImport
import DreamSso.LegacyPersist
import DreamSso.LegacyRuns
import DreamSso.LegacySweeps
import DreamSso.SigningKeyRuns
import DreamSso.InviteUses
import DreamSso.FanOutRuns
