import AtomrAgents.Shared.Loop
import AtomrAgents.Shared.Stages
import AtomrAgents.State.Checkpointer
import AtomrAgents.Workflow.CrashResume
import AtomrAgents.Workflow.Interrupt
import AtomrAgents.Workflow.InterruptLoop
import AtomrAgents.Workflow.ApprovalGate
import AtomrAgents.Workflow.ResumePosition
import AtomrAgents.Workflow.ResumeValue
import AtomrAgents.Workflow.BreakpointRefinement
import AtomrAgents.Workflow.BreakpointProgress
import AtomrAgents.Workflow.Subgraph
import AtomrAgents.Workflow.Runner
import AtomrAgents.Workflow.ReplayInput
import AtomrAgents.Workflow.Selection
import AtomrAgents.Workflow.ResumeEffect
import AtomrAgents.Workflow.AtomicResume
import AtomrAgents.Core.Text
import AtomrAgents.Org.Projection
import AtomrAgents.Shared.Fences
import AtomrAgents.Context.Fencing
import AtomrAgents.Shared.Operations
import AtomrAgents.Workflow.ClaimDiscipline
import AtomrAgents.Core.Value
import AtomrAgents.Shared.Table
import AtomrAgents.Workflow.SqlRegistry
import AtomrAgents.Workflow.ExactlyOnce
import AtomrAgents.State.Backends
import AtomrAgents.Workflow.RelaySafety
import AtomrAgents.Workflow.EscalationExactness
import AtomrAgents.Shared.Ranking
import AtomrAgents.Retriever.Bm25
import AtomrAgents.Retriever.RetrievalFilter
import AtomrAgents.Retriever.Lookahead
import AtomrAgents.Core.Context
import AtomrAgents.Tool.Tool
import AtomrAgents.Security.Walled
import AtomrAgents.Agent.Pipeline
import AtomrAgents.Agent.CallerContext
import AtomrAgents.Core.Slots
import AtomrAgents.Sandbox.Quota
import AtomrAgents.AgentSdk.Harness
import AtomrAgents.AgentSdk.SlotAccounting
import AtomrAgents.AgentSdk.FailureAtomicity
import AtomrAgents.Sandbox.GuestAgent
import AtomrAgents.Host.TriggerGuard
import AtomrAgents.Host.QueuedFires
import AtomrAgents.Org.MemoryReads
import AtomrAgents.Agent.Cost
import AtomrAgents.Shared.KeySpace
import AtomrAgents.State.RedisKeys
import AtomrAgents.Sandbox.Frame
import AtomrAgents.Shared.Resumption
import AtomrAgents.State.Record
import AtomrAgents.Workflow.ReplaySink
import AtomrAgents.Workflow.ReplayCursor
import AtomrAgents.Agent.Replay
import AtomrAgents.Channel.Store
import AtomrAgents.Channel.Outbound
import AtomrAgents.Channel.OutboundIdempotency
import AtomrAgents.Channel.Inbound
import AtomrAgents.Channel.InboundOnce
import AtomrAgents.Channel.ThreadIsolation
import AtomrAgents.Meetings.Analysis
import AtomrAgents.Meetings.Ledger
import AtomrAgents.Meetings.Extractor
import AtomrAgents.Meetings.FinalState
import AtomrAgents.Host.Stores
import AtomrAgents.Host.StoreConfinement
import AtomrAgents.Host.StoreCalls
import AtomrAgents.Host.StoreIds
import AtomrAgents.Host.Markdown
import AtomrAgents.Host.SkillFiles
import AtomrAgents.Host.YamlBlocks
import AtomrAgents.Host.SkillRoundTrip
import AtomrAgents.Shared.DependencyOrder
import AtomrAgents.Workflow.SortExactness
import AtomrAgents.Workflow.LayerDepth
import AtomrAgents.Shared.KeyedAppend
import AtomrAgents.State.Reducer
import AtomrAgents.CodingCli.Interactive
import AtomrAgents.CodingCli.SessionCap
import AtomrAgents.CodingCli.Headless
import AtomrAgents.CodingCli.Chunking
import AtomrAgents.CodingCli.RunEvents
import AtomrAgents.Meetings.Store
import AtomrAgents.Shared.ReadModifyWrite
import AtomrAgents.Meetings.StoreEdits
import AtomrAgents.Meetings.CheckpointerRefinement
import AtomrAgents.DeepResearch.Result
import AtomrAgents.DeepResearch.Strategies
import AtomrAgents.DeepResearch.RunIndependence
import AtomrAgents.DeepResearch.Termination
import AtomrAgents.DeepResearch.Roles
import AtomrAgents.DeepResearch.CitationMarkers
import AtomrAgents.Observability.RunTree
import AtomrAgents.Observability.RunTreeNodes
import AtomrAgents.Shared.Forest
import AtomrAgents.Observability.RunTreeFlush
import AtomrAgents.Observability.RunTreeOrder
import AtomrAgents.State.MergedWrites
import AtomrAgents.Context.Packing
import AtomrAgents.Agent.Instruction
import AtomrAgents.Agent.Admission
import AtomrAgents.Parser.AutoRepair
import AtomrAgents.Shared.GroupedFold
import AtomrAgents.Tool.ToolCallParser
import AtomrAgents.Tool.OpenAiStream
import AtomrAgents.Tool.AnthropicStream
import AtomrAgents.Parser.Xml
import AtomrAgents.Parser.Streaming
import AtomrAgents.Parser.BracketCount
import AtomrAgents.Parser.PartialJson
import AtomrAgents.Instruction.PromptTemplate
import AtomrAgents.Ingest.RecursiveSplitter
import AtomrAgents.Ingest.SplitterOverlap
import AtomrAgents.Ingest.TokenSplitter
import AtomrAgents.Retriever.Ensemble
import AtomrAgents.Retriever.Novelty
import AtomrAgents.Workflow.ContractStage
import AtomrAgents.Shared.Joints
import AtomrAgents.Agent.Redaction
import AtomrAgents.Org.Debate
import AtomrAgents.Org.DriftGate
import AtomrAgents.Org.DebateRun
import AtomrAgents.Host.CronTrigger
import AtomrAgents.Eval.Ranker
import AtomrAgents.Meetings.Roster
import AtomrAgents.Channel.ThreadHistory
import AtomrAgents.Host.Runtime
import AtomrAgents.Host.Scheduler
import AtomrAgents.Host.ScheduledFires
import AtomrAgents.Host.YamlJson
import AtomrAgents.Host.Config
import AtomrAgents.Host.ConfigRoundTrip
import AtomrAgents.Host.MarkdownRoundTrip
import AtomrAgents.Host.FileActions
import AtomrAgents.Host.Branching
import AtomrAgents.Host.BranchRuns
import AtomrAgents.Host.SkillHistory
import AtomrAgents.Host.RegistryCache
import AtomrAgents.DeepResearch.ParseJson
import AtomrAgents.DeepResearch.EmbeddedObject
import AtomrAgents.CodingCli.Projection
import AtomrAgents.Shared.Supply
import AtomrAgents.Channel.SignalFrames
import AtomrAgents.Channel.SignalCalls
import AtomrAgents.Channel.SignalCorrelation
import AtomrAgents.Channel.SignalPending
import AtomrAgents.Channel.SignalTraffic
import AtomrAgents.Shared.BurstLoop
import AtomrAgents.Stt.Conversation
import AtomrAgents.Stt.Harness
import AtomrAgents.Stt.TurnRecord
import AtomrAgents.Stt.StreamFold
import AtomrAgents.Workflow.SqlOutbox
import AtomrAgents.Workflow.OutboxBackends
import AtomrAgents.Shared.ForkJoin
import AtomrAgents.Shared.ForkJoinBounds
import AtomrAgents.Callable.Composition
import AtomrAgents.Callable.FanOut
import AtomrAgents.Shared.Base64
import AtomrAgents.Sandbox.GuestSession
import AtomrAgents.Channel.DiscordGateway
import AtomrAgents.Channel.DiscordRuns
