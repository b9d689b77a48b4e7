import AbyssalWarden.Schedule
import AbyssalWarden.KeyringNarrowing
import AbyssalWarden.UpdateAtomicity
import AbyssalWarden.UpdateUsable
import AbyssalWarden.ContentHistory
import AbyssalWarden.AuditTamper
import AbyssalWarden.NoDataLoss
import AbyssalWarden.JobHistory
import AbyssalWarden.ScheduleRecords
import AbyssalWarden.ArchiveDelivery
import AbyssalWarden.SavedReports
import AbyssalWarden.Isolation
import AbyssalWarden.DirectorySource
import AbyssalWarden.ReportOrder
import AbyssalWarden.ScanSurvival
import AbyssalWarden.TruthfulStatus
import AbyssalWarden.RevokedKeys
import AbyssalWarden.UpdateRecovery
import AbyssalWarden.KeyringOrder
import AbyssalWarden.FailedQuarantine
import AbyssalWarden.RestoreRetry
import AbyssalWarden.SavedRecords
import AbyssalWarden.AllowlistConsistency
import AbyssalWarden.WindowsRestore
import AbyssalWarden.LosslessEncoding
import AbyssalWarden.AnchorExact
import AbyssalWarden.AnchorText
import AbyssalWarden.ObservedPaths
import AbyssalWarden.ReadSplits
import AbyssalWarden.SddlAccess
import AbyssalWarden.ScheduleSpacing
import AbyssalWarden.Connections
import AbyssalWarden.FrameStream
import AbyssalWarden.HashDatabase
import AbyssalWarden.ReferencedScan
import AbyssalWarden.DirectoryCoverage
import AbyssalWarden.HiddenProcesses
import AbyssalWarden.PrefixFree
import AbyssalWarden.ScanRoots
import AbyssalWarden.UdevPrograms
import AbyssalWarden.CronFields
import AbyssalWarden.ShellTokens
import AbyssalWarden.UnitText
import AbyssalWarden.UnitComments
import AbyssalWarden.WeakOptions
import AbyssalWarden.UnitCheck
import AbyssalWarden.UnitCoverage
import AbyssalWarden.PathWalk
import AbyssalWarden.WritableChain
import AbyssalWarden.AuthorizedKeys
import AbyssalWarden.ForcedCommands
import AbyssalWarden.KeyRecovery
import AbyssalWarden.DpkgRecords
import AbyssalWarden.DpkgCoverage
import AbyssalWarden.ScanAccounting
import AbyssalWarden.ReportRendering
import AbyssalWarden.InertRendering
import AbyssalWarden.RenderedLines
import AbyssalWarden.HashImport
import AbyssalWarden.ImportedLists
import AbyssalWarden.ElfAnalysis
import AbyssalWarden.RunPathReport
import AbyssalWarden.WinRules
import AbyssalWarden.CommandLines
import AbyssalWarden.PamStacks
import AbyssalWarden.PamRules
import AbyssalWarden.PamFiles
import AbyssalWarden.Words
import AbyssalWarden.WordReduction
import AbyssalWarden.PathSpellings
import AbyssalWarden.LocationRules
import AbyssalWarden.WindowsSpellings
import AbyssalWarden.LocationVerdicts
import AbyssalWarden.TaskDocuments
import AbyssalWarden.PublisherLimits
import AbyssalWarden.PrivilegeSeparation
import AbyssalWarden.JobOrder
import AbyssalWarden.InterruptedItems
