import HudsonSandbox.Stream.Client
import HudsonSandbox.Stream.Delivered
import HudsonSandbox.Protocol.LiveOutput
import HudsonSandbox.Protocol.AuthorityLedger
import HudsonSandbox.Sources.Cleanup
import HudsonSandbox.Sources.Sealed
import HudsonSandbox.Store.Stream
import HudsonSandbox.Store.Retirable
import HudsonSandbox.Protocol.AllocationRetirement
import HudsonSandbox.Library.Ledger
import HudsonSandbox.Library.Run
import HudsonSandbox.Library.Search
import HudsonSandbox.Host.AtMostOnce
import HudsonSandbox.Host.CommandHistory
import HudsonSandbox.Host.FenceBudget
import HudsonSandbox.Inner.Safety
import HudsonSandbox.Host.HistoryFloors
import HudsonSandbox.Host.Frozen
import HudsonSandbox.Host.UploadHistory
import HudsonSandbox.Store.Dispatch
import HudsonSandbox.Uploads.Resume
import HudsonSandbox.Uploads.Claims
import HudsonSandbox.Store.Quotas
import HudsonSandbox.History.Reserved
import HudsonSandbox.Store.ReleasePaths
import HudsonSandbox.Protocol.AuthorityStorage
import HudsonSandbox.Launch.Reconciled
import HudsonSandbox.Guardian.Resumed
import HudsonSandbox.Registration.Progress
import HudsonSandbox.Guardian.Manifest
import HudsonSandbox.Guardian.Retirement
import HudsonSandbox.Guardian.Process
import HudsonSandbox.Uploads.Prefix
import HudsonSandbox.Protocol.Idempotency
import HudsonSandbox.Guest.Receipts
import HudsonSandbox.Store.Collection
import HudsonSandbox.Store.Idempotent
import HudsonSandbox.Library.Contention
import HudsonSandbox.Protocol.GuestFrames
import HudsonSandbox.Protocol.Bootstrap
import HudsonSandbox.Guest.Capture
import HudsonSandbox.Guest.Paths
import HudsonSandbox.Api.Files
import HudsonSandbox.Host.Captures
import HudsonSandbox.Host.Collected
import HudsonSandbox.Api.Lists
import HudsonSandbox.Client.Events
import HudsonSandbox.Client.Dialects
import HudsonSandbox.Client.Stringify
