import MetalBear.Library.Machine
import MetalBear.Library.FirstMatch
import MetalBear.Library.AutoTable
import MetalBear.Library.Stream
import MetalBear.Library.CString
import MetalBear.Library.Transaction
import MetalBear.Library.ContentGraph
import MetalBear.Wolfram.Status
import MetalBear.Json.Value
import MetalBear.Json.Cbor
import MetalBear.Account.Cache
import MetalBear.Account.CacheIntegrity
import MetalBear.Account.CacheFreshness
import MetalBear.Sequencer.Log
import MetalBear.Sequencer.Firehose
import MetalBear.Sequencer.FutureCursor
import MetalBear.Sequencer.OutdatedCursor
import MetalBear.OAuth.Scope
import MetalBear.OAuth.ScopeGrammar
import MetalBear.OAuth.Session
import MetalBear.Library.KeyTable
import MetalBear.OAuth.Refresh
import MetalBear.OAuth.RefreshChain
import MetalBear.OAuth.Tokens
import MetalBear.OAuth.KeyLifetime
import MetalBear.Server.Auth
import MetalBear.Server.Takedown
import MetalBear.Server.Target
import MetalBear.Server.Availability
import MetalBear.Repo.Store
import MetalBear.Repo.Persistence
import MetalBear.Repo.Writes
import MetalBear.Repo.FailedWrite
import MetalBear.Library.RefCount
import MetalBear.Library.Replacement
import MetalBear.Repo.BlobStore
import MetalBear.Repo.Listing
import MetalBear.Repo.Routes
import MetalBear.Repo.Import
import MetalBear.Repo.AnnouncedRev
import MetalBear.Server.Confinement
import MetalBear.Repo.BlobTracking
import MetalBear.Repo.Overlap
import MetalBear.Keys.Rotation
import MetalBear.Library.WhileLoop
import MetalBear.Library.Paging
import MetalBear.Sync.ListRepos
import MetalBear.Sync.Enumeration
import MetalBear.Dns.HandleDns
import MetalBear.Dns.Publishing
import MetalBear.Identity.UpdateHandle
import MetalBear.Identity.OneIdentity
import MetalBear.Library.FileSystem
import MetalBear.Repo.Backup
import MetalBear.Repo.BackupRoundTrip
import MetalBear.Library.Procedure
import MetalBear.TwoFactor.Tables
import MetalBear.Video.Upload
import MetalBear.Video.UploadRuns
import MetalBear.Video.Finishing
import MetalBear.Video.Completion
import MetalBear.Appview.Proxy
import MetalBear.OAuth.Connection
import MetalBear.OAuth.Undisturbed
import MetalBear.Account.Credentials
import MetalBear.Account.Registry
import MetalBear.Account.Email
import MetalBear.Account.Stores
import MetalBear.Account.Create
import MetalBear.Account.FailedCreation
import MetalBear.Account.Handles
import MetalBear.Account.EmailRoutes
import MetalBear.Account.Confirmation
import MetalBear.Account.EmailAgreement
import MetalBear.Session.Login
import MetalBear.Session.AppPassword
import MetalBear.Json.RoundTrip
import MetalBear.Repo.SingleWrite
import MetalBear.Library.KeyedWrites
import MetalBear.Repo.BatchTree
import MetalBear.Repo.BlobAssociations
import MetalBear.Repo.Backlinks
import MetalBear.Library.Calendar
import MetalBear.Sequencer.Retention
import MetalBear.Sequencer.Purge
import MetalBear.Sequencer.RepoEvent
import MetalBear.Sequencer.Reconcile
import MetalBear.OAuth.Grants
import MetalBear.Video.Settling
import MetalBear.Video.Quotas
import MetalBear.Account.InviteCodes
import MetalBear.Account.InviteRuns
import MetalBear.Library.ByteText
import MetalBear.OAuth.FormBody
import MetalBear.Library.CborGrammar
import MetalBear.OAuth.WebauthnCbor
import MetalBear.Library.FirstSeen
import MetalBear.Repo.MissingBlobs
import MetalBear.Labels.Store
import MetalBear.Labels.QueryLabels
import MetalBear.Library.Retention
import MetalBear.Repo.BackupSchedule
import MetalBear.OAuth.DeviceSessions
import MetalBear.Library.Splicing
import MetalBear.Appview.ReadAfterWrite
import MetalBear.Repo.BackupStaging
import MetalBear.Library.Block
import MetalBear.Appview.BodyBuffer
import MetalBear.OAuth.Base64url
import MetalBear.Library.BitGroups
import MetalBear.TwoFactor.Base32
import MetalBear.Library.Base64
import MetalBear.Dns.TsigCredential
import MetalBear.Account.Directories
import MetalBear.Ops.RouteMetrics
import MetalBear.Account.Preferences
import MetalBear.Video.JobStatus
import MetalBear.Video.JobRuns
import MetalBear.Library.PrintedMarks
import MetalBear.Account.InvitePages
import MetalBear.Identity.PlcOperations
import MetalBear.Library.Spending
import MetalBear.OAuth.GrantChain
import MetalBear.Server.IssuedTokens
import MetalBear.Dns.Rfc2136Query
import MetalBear.Dns.Rfc2136Update
import MetalBear.Library.Format
import MetalBear.Library.DnsMessage
import MetalBear.OAuth.Passkeys
import MetalBear.OAuth.Ceremonies
