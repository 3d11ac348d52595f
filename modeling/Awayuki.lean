import Awayuki.Kq.Noninterference
import Awayuki.Kq.TypeSoundness
import Awayuki.Outbox.StartupRecovery
import Awayuki.Outbox.Accounting
import Awayuki.Quote.Guards
import Awayuki.Settings.Serialized
import Awayuki.Settings.NewestDraft
import Awayuki.Timeline.Rollback
import Awayuki.Search.Agreement
import Awayuki.Search.Served
import Awayuki.Recovery.Acknowledgements
import Awayuki.Recovery.WebviewHealth
import Awayuki.Stream.Resync
import Awayuki.Stream.Reconnect
import Awayuki.Sync.LocalFlags
import Awayuki.Sync.ViewerState
import Awayuki.Sync.DisplayedFlags
import Awayuki.Timeline.LoadMore
import Awayuki.CustomSql.Containment
import Awayuki.CustomSql.LimitAgreement
import Awayuki.Timeline.Identity
import Awayuki.Timeline.ThreadOrder
import Awayuki.Stream.Faithful
import Awayuki.Accounts.ActiveAccount
import Awayuki.Accounts.CredentialStore
import Awayuki.Accounts.AuthRecovery
import Awayuki.Accounts.Mutations
import Awayuki.Accounts.OAuthCallback
import Awayuki.Plugins.StrictHooks
import Awayuki.Posting.Editing
import Awayuki.Paging.Continuation
import Awayuki.Kq.Sets
import Awayuki.Kq.CompileSafety
import Awayuki.Kq.Height
import Awayuki.Requests.Safety
import Awayuki.Stream.Subscription
import Awayuki.Stream.Persistence
import Awayuki.Bluesky.RichTextPlain
import Awayuki.Bluesky.NotificationPolling
import Awayuki.Bluesky.RevisionPolling
import Awayuki.Posting.MediaUpload
import Awayuki.Preferences.RoundTrip
import Awayuki.Hydration.UnifiedPages
import Awayuki.Hydration.DisplayFilter
import Awayuki.Panes.OnePane
import Awayuki.Timeline.AnalyticalCooldown
import Awayuki.Translation.Consumers
import Awayuki.Misskey.StatusActions
import Awayuki.Plugins.JobOrder
import Awayuki.Compose.QueueAccounting
import Awayuki.Yq.Paging
