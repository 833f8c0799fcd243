import Grex.Access
import Grex.AgentProgram
import Grex.AgentState
import Grex.AgentViews
import Grex.Anchoring
import Grex.Authorization
import Grex.Backtrack
import Grex.BareParams
import Grex.Batch
import Grex.BoundedHeap
import Grex.Calls
import Grex.Cluster
import Grex.Compliance
import Grex.ConcurrentWrites
import Grex.Convergence
import Grex.DirtyMarks
import Grex.Disconnects
import Grex.Durability
import Grex.EventTime
import Grex.Eviction
import Grex.FilterBar
import Grex.Filtering
import Grex.FinMap
import Grex.FleetCounts
import Grex.FleetPage
import Grex.FleetSettings
import Grex.FleetStats
import Grex.FleetView
import Grex.FlushSteps
import Grex.FullState
import Grex.GatewayGauge
import Grex.GoSlices
import Grex.GoText
import Grex.GoTime
import Grex.GoURL
import Grex.Handler
import Grex.Heap
import Grex.History
import Grex.Interleave
import Grex.Keepalive
import Grex.LastWriter
import Grex.LateClose
import Grex.Lines
import Grex.Liveness
import Grex.LockSections
import Grex.Machine
import Grex.Markup
import Grex.MatcherForm
import Grex.MatcherText
import Grex.Matchers
import Grex.Message
import Grex.Mirror
import Grex.Navigation
import Grex.OfferedFilters
import Grex.Ownership
import Grex.PageMemory
import Grex.Pages
import Grex.QueryString
import Grex.Reads
import Grex.Regex
import Grex.RegexSyntax
import Grex.Registry
import Grex.Replica
import Grex.Resubmission
import Grex.Retention
import Grex.RunConcurrent
import Grex.Scans
import Grex.Scrape
import Grex.ScriptMatcher
import Grex.ServeMux
import Grex.SessionBatches
import Grex.SessionTies
import Grex.Settings
import Grex.Sharding
import Grex.Shutdown
import Grex.SnapshotPasses
import Grex.Snapshotter
import Grex.SortedWindows
import Grex.Spiffe
import Grex.Sql
import Grex.StaleReplica
import Grex.StatementRows
import Grex.Statements
import Grex.StoreRoundTrip
import Grex.StoreRuns
import Grex.TableOrder
import Grex.Tables
import Grex.Tenure
import Grex.YamlDisplay
import Grex.YamlHighlight
