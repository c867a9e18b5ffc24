import CodexMonitor.Lib.Text
import CodexMonitor.Lib.Lines
import CodexMonitor.Lib.UnixPath
import CodexMonitor.Lib.ShellWords
import CodexMonitor.Lib.ShellQuoting
import CodexMonitor.Lib.StarlarkCall
import CodexMonitor.Lib.Machine
import CodexMonitor.Lib.Ledger
import CodexMonitor.Lib.Tallies
import CodexMonitor.Lib.Tasks
import CodexMonitor.Lib.Counts
import CodexMonitor.Lib.FileTree
import CodexMonitor.Lib.CmdWords
import CodexMonitor.Lib.CommandLine
import CodexMonitor.Lib.Coalesce
import CodexMonitor.Lib.Ancestry
import CodexMonitor.Lib.Anchors
import CodexMonitor.Lib.KeyedUnion
import CodexMonitor.Lib.Layered
import CodexMonitor.Lib.Pairing
import CodexMonitor.Lib.PrefixRules
import CodexMonitor.Lib.CaseMapping
import CodexMonitor.Lib.NthLast
import CodexMonitor.Lib.Numbering
import CodexMonitor.Lib.StableSort
import CodexMonitor.Lib.Utf8
import CodexMonitor.Lib.PercentEncoding
import CodexMonitor.Lib.Wildcards
import CodexMonitor.Lib.Worktrees
import CodexMonitor.Lib.Occurrences
import CodexMonitor.Lib.OrderedMap
import CodexMonitor.Lib.Disk
import CodexMonitor.Lib.Escapes
import CodexMonitor.Lib.Faulty
import CodexMonitor.History.Items
import CodexMonitor.History.Truncate
import CodexMonitor.History.MiddleCut
import CodexMonitor.History.ToolOutputs
import CodexMonitor.History.Context
import CodexMonitor.History.Manager
import CodexMonitor.History.Normalize
import CodexMonitor.History.Versions
import CodexMonitor.History.Trimming
import CodexMonitor.History.Rollbacks
import CodexMonitor.Rollout.Replay
import CodexMonitor.Rollout.Reconstruct
import CodexMonitor.Rollout.Spans
import CodexMonitor.Rollout.Agreement
import CodexMonitor.Rollout.Turns
import CodexMonitor.Rollout.ResumeMetadata
import CodexMonitor.Rollout.Baseline
import CodexMonitor.Rollout.Positions
import CodexMonitor.ThreadHistory.Builder
import CodexMonitor.ThreadHistory.ItemIds
import CodexMonitor.ThreadHistory.Rollbacks
import CodexMonitor.ThreadHistory.Agreement
import CodexMonitor.StreamParser.InlineTags
import CodexMonitor.StreamParser.ChunkInvariance
import CodexMonitor.StreamParser.TaggedLines
import CodexMonitor.StreamParser.AssistantText
import CodexMonitor.StreamParser.Utf8Stream
import CodexMonitor.StreamParser.PlanBlocks
import CodexMonitor.ExecPolicy.Policy
import CodexMonitor.ExecPolicy.Parser
import CodexMonitor.ExecPolicy.Load
import CodexMonitor.ExecPolicy.Overlay
import CodexMonitor.ApplyPatch.Parser
import CodexMonitor.ApplyPatch.LineReader
import CodexMonitor.ApplyPatch.ErrorLines
import CodexMonitor.ApplyPatch.OpenHunks
import CodexMonitor.ApplyPatch.Streaming
import CodexMonitor.ApplyPatch.Reparse
import CodexMonitor.ApplyPatch.Replace
import CodexMonitor.ApplyPatch.Regions
import CodexMonitor.ApplyPatch.Checked
import CodexMonitor.ApplyPatch.Splice
import CodexMonitor.ApplyPatch.Disjoint
import CodexMonitor.ApplyPatch.Files
import CodexMonitor.ApplyPatch.Invocation
import CodexMonitor.ApplyPatch.Preview
import CodexMonitor.Threads.QueuedSend
import CodexMonitor.Threads.QueueAccounting
import CodexMonitor.Threads.QueueProgress
import CodexMonitor.Threads.TurnEvents
import CodexMonitor.Threads.TurnConvergence
import CodexMonitor.Threads.InterruptMark
import CodexMonitor.Approvals.Rules
import CodexMonitor.Approvals.Allowlist
import CodexMonitor.Approvals.Words
import CodexMonitor.Approvals.Soundness
import CodexMonitor.Approvals.RulesFile
import CodexMonitor.Approvals.Stored
import CodexMonitor.Approvals.RulesScan
import CodexMonitor.Approvals.RulesLock
import CodexMonitor.Workspaces.Sessions
import CodexMonitor.Workspaces.SharedSession
import CodexMonitor.Remote.Protocol
import CodexMonitor.Remote.Connection
import CodexMonitor.Remote.Disconnect
import CodexMonitor.Login.Attempts
import CodexMonitor.Login.Cancellation
import CodexMonitor.AppServer.Messages
import CodexMonitor.AppServer.Requests
import CodexMonitor.AppServer.Correlation
import CodexMonitor.Workspaces.Entries
import CodexMonitor.Workspaces.Store
import CodexMonitor.Workspaces.Persistence
import CodexMonitor.Workspaces.Hierarchy
import CodexMonitor.Workspaces.Operations
import CodexMonitor.Workspaces.Compensation
import CodexMonitor.Workspaces.WorktreePaths
import CodexMonitor.Workspaces.Renaming
import CodexMonitor.Workspaces.RenameRollback
import CodexMonitor.Conversation.Items
import CodexMonitor.Conversation.Commands
import CodexMonitor.Conversation.Explore
import CodexMonitor.Conversation.ListOps
import CodexMonitor.Conversation.Naming
import CodexMonitor.Conversation.Reducer
import CodexMonitor.Conversation.Visibility
import CodexMonitor.Conversation.Refreshing
import CodexMonitor.Conversation.Merging
import CodexMonitor.Conversation.Streaming
import CodexMonitor.Conversation.UniqueIds
import CodexMonitor.Conversation.LiveView
import CodexMonitor.Conversation.Linking
import CodexMonitor.Config.Toml
import CodexMonitor.Config.Layers
import CodexMonitor.Config.Origins
import CodexMonitor.Threads.RootPaths
import CodexMonitor.Threads.Attribution
import CodexMonitor.Threads.Spellings
import CodexMonitor.TurnDiff.Tracker
import CodexMonitor.TurnDiff.Coverage
import CodexMonitor.AgentControl.Registry
import CodexMonitor.AgentControl.Slots
import CodexMonitor.Agents.Document
import CodexMonitor.Agents.Settings
import CodexMonitor.Agents.Files
import CodexMonitor.Agents.Outcomes
import CodexMonitor.Agents.AllOrNothing
import CodexMonitor.Agents.Frame
import CodexMonitor.Sandbox.Policy
import CodexMonitor.Sandbox.Roots
import CodexMonitor.Sandbox.Views
import CodexMonitor.Sandbox.Metadata
import CodexMonitor.Sandbox.Legacy
import CodexMonitor.BashScripts.Tree
import CodexMonitor.BashScripts.Script
import CodexMonitor.BashScripts.SafeCommands
import CodexMonitor.BashScripts.OptionSpellings
import CodexMonitor.CodexArgs.Profiles
import CodexMonitor.CodexArgs.Tokens
import CodexMonitor.CodexArgs.Settled
import CodexMonitor.CodexArgs.RoundTrip
import CodexMonitor.CodexArgs.Sanitized
import CodexMonitor.FileLinks.FileUrls
import CodexMonitor.FileLinks.Fragments
import CodexMonitor.FileLinks.Pathnames
import CodexMonitor.FileLinks.Reading
import CodexMonitor.FileLinks.RoundTrip
import CodexMonitor.NetworkProxy.Config
import CodexMonitor.NetworkProxy.State
import CodexMonitor.NetworkProxy.Decisions
import CodexMonitor.NetworkProxy.HostForms
import CodexMonitor.NetworkProxy.LastDecision
import CodexMonitor.NetworkProxy.Runtime
import CodexMonitor.NetworkProxy.Managed
import CodexMonitor.NetworkProxy.Telemetry
import CodexMonitor.Lib.Ends
import CodexMonitor.Lib.AsciiCase
import CodexMonitor.Lib.Accumulate
import CodexMonitor.Lib.Prefixes
import CodexMonitor.Lib.Runs
import CodexMonitor.Lib.TextLength
import CodexMonitor.Lib.Offsets
import CodexMonitor.UnifiedExec.HeadTailBuffer
import CodexMonitor.ExecPolicy.NetworkDomains
import CodexMonitor.ExecPolicy.Amend
import CodexMonitor.ExecPolicy.Matching
import CodexMonitor.ExecPolicy.Examples
import CodexMonitor.ExecPolicy.Approval
import CodexMonitor.ExecPolicy.Unblocking
import CodexMonitor.Shared.CmdCommand
import CodexMonitor.Shared.Fields
import CodexMonitor.Shared.LocalUsage
import CodexMonitor.Shared.Prompts
import CodexMonitor.Shared.RunMetadata
import CodexMonitor.Shared.UsageLedger
import CodexMonitor.Shared.WorktreeNames
import CodexMonitor.Composer.TextArea
import CodexMonitor.Composer.Elements
import CodexMonitor.Composer.Edits
import CodexMonitor.Composer.Positions
import CodexMonitor.Composer.Runs
import CodexMonitor.Rollout.Forks
