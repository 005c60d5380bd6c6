import GameLauncher.Api.ByteRanges
import GameLauncher.Api.ChunkCoverage
import GameLauncher.Api.RestoreAdmission
import GameLauncher.Api.WorkStatus
import GameLauncher.Capacity.CommitAccounting
import GameLauncher.Capacity.StoreAgreement
import GameLauncher.Catalog.ListedGames
import GameLauncher.Catalog.PublicationOutcome
import GameLauncher.Catalog.Republication
import GameLauncher.Catalog.StagingCleanup
import GameLauncher.ColdStorage.PutAgain
import GameLauncher.ColdStorage.PutCapacity
import GameLauncher.Downloads.Accounting
import GameLauncher.Downloads.CachePins
import GameLauncher.Downloads.VerifiedTransfers
import GameLauncher.Installation.GameLibrary
import GameLauncher.Installation.InstallRoots
import GameLauncher.Installation.JobReadiness
import GameLauncher.Installation.OriginalsKept
import GameLauncher.Installation.RecoveryScope
import GameLauncher.Jobs.PackLease
import GameLauncher.Manifests.PathGuard
import GameLauncher.Manifests.ValidManifest
import GameLauncher.Normalizer.AcceptedArchives
import GameLauncher.Normalizer.SafePaths
import GameLauncher.Packs.ReaderSafety
import GameLauncher.Packs.Renewal
import GameLauncher.Placement.PlanChoice
import GameLauncher.Placement.PlanDomains
import GameLauncher.Placement.PlanOrder
import GameLauncher.Placement.Reconciler
import GameLauncher.Provisioning.EnrollmentRaces
import GameLauncher.Provisioning.EventTransactions
import GameLauncher.Provisioning.JobMachine
import GameLauncher.Provisioning.MailNonce
import GameLauncher.Provisioning.MailRecovery
import GameLauncher.Provisioning.MailRedelivery
import GameLauncher.Provisioning.PoolTransactions
import GameLauncher.Provisioning.QuotedPrintable
import GameLauncher.Scraper.ArchiveInspection
import GameLauncher.Scraper.Checksums
import GameLauncher.Scraper.ClaimableJobs
import GameLauncher.Scraper.Handoffs
import GameLauncher.Scraper.PartialFiles
import GameLauncher.Scraper.ReleaseChoice
import GameLauncher.Scraper.SafeFilenames
import GameLauncher.Scraper.ScratchBudget
import GameLauncher.Storage.HttpHot
import GameLauncher.Storage.MantleCache
import GameLauncher.Storage.OrphanUploads
import GameLauncher.Storage.PackUploads
import GameLauncher.Storage.TelegramDeletes
