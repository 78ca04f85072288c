import CharlieBot.ChatArchive
import CharlieBot.MasterRecovery
import CharlieBot.GeminiStream
import CharlieBot.TranslatorResume
import CharlieBot.LiveEventCache
import CharlieBot.SidebarPolls
import CharlieBot.PlanRegistry
import CharlieBot.SessionUsage
import CharlieBot.SearchMemo
import CharlieBot.Succession
import CharlieBot.TraceMerge
import CharlieBot.StreamCoalescing
import CharlieBot.MathSpans
import CharlieBot.MasterWake
import CharlieBot.AnthropicCompletion
import CharlieBot.SlackAudit
import CharlieBot.SlackFollow
import CharlieBot.OpencodeSweep
import CharlieBot.StorageCool
import CharlieBot.ImproveLoop
import CharlieBot.OptimisticEcho
import CharlieBot.SessionSwitch
import CharlieBot.TurnEngine
import CharlieBot.WorkerRecovery
import CharlieBot.Respawn
import CharlieBot.ScheduledRounds
import CharlieBot.ScheduledSessions
import CharlieBot.PtyRelay
import CharlieBot.ConfigReload
import CharlieBot.RecapCache
import CharlieBot.BacklogStep
import CharlieBot.Transcripts
import CharlieBot.BaseBranch
import CharlieBot.MemoryStore
import CharlieBot.TakeoffGate
import CharlieBot.ClaudeAccounts
import CharlieBot.AttachedFiles
import CharlieBot.HistoryPages
import CharlieBot.ToolOutputs
import CharlieBot.CodexQuota
import CharlieBot.RawLog
import CharlieBot.CodexDeltas
import CharlieBot.ReferenceLines
import CharlieBot.PlanDocument
import CharlieBot.UnifiedPatch
import CharlieBot.HookTurn
import CharlieBot.AnthropicRequest
import CharlieBot.SseFraming
import CharlieBot.SlackChunks
import CharlieBot.TrimReview
import CharlieBot.NestedFences
import CharlieBot.ListingDates
import CharlieBot.TurnWindow
import CharlieBot.PlanChanges
import CharlieBot.WideChars
import CharlieBot.WatchGroups
import CharlieBot.DiffManifests
import CharlieBot.WorktreeSweep
import CharlieBot.CronEdits
import CharlieBot.WorktreeCleanup
