import Grex.FinMap
import Grex.GoTime

/-!
One agent's state as the registry holds it, the registry's settings, and the
lifecycle notifications fired while it changes. A nil map and an empty map are
the same value here, and so are a nil and an empty list.
-/

namespace Grex.AgentState

open GoTime

structure ConnMeta where
  remoteAddr : String := ""
  tlsSubject : String := ""
  viaGateway : Bool := false
  transport : String := ""
  deriving DecidableEq

structure Package where
  name : String
  agentHasVersion : String
  serverOfferedVersion : String
  status : String
  errorMessage : String
  deriving DecidableEq

/-- `evictedAt` and `sessionUpdatedAt` are set only on agents read back from
the database. -/
structure Agent where
  instanceUID : String
  sequenceNum : UInt64 := 0
  identifying : FinMap String String := ∅
  nonIdentifying : FinMap String String := ∅
  capabilities : UInt64 := 0
  healthy : Bool := false
  healthError : String := ""
  healthStatus : String := ""
  healthStartTime : ℤ := zeroTime
  healthStatusTime : ℤ := zeroTime
  healthReported : Bool := false
  descriptionReported : Bool := false
  effectiveConfig : FinMap String String := ∅
  packages : FinMap String Package := ∅
  conn : ConnMeta := {}
  connected : Bool := false
  firstSeen : ℤ := zeroTime
  lastSeen : ℤ := zeroTime
  missingAttributes : List String := []
  reservedAttributeConflicts : List String := []
  evictedAt : Option ℤ := none
  sessionUpdatedAt : ℤ := zeroTime
  deriving DecidableEq

/-- Attribute keys that collide with the read API's own filter fields. -/
def reservedAttributeKeys : List String :=
  ["healthy", "connected", "via_gateway", "supervisor_managed"]

structure Config where
  heartbeatInterval : ℤ
  staleMissedHeartbeats : ℤ
  requiredAttributes : List String := []
  shardCount : ℤ := 0
  deriving DecidableEq

def defaultShardCount : ℕ := 256

/-- The heartbeat interval plus half of it, in wrapping 64-bit arithmetic. -/
def Config.disconnectThreshold (cfg : Config) : ℤ :=
  int64 (cfg.heartbeatInterval + cfg.heartbeatInterval.tdiv 2)

/-- The age past which an agent is evicted, in wrapping 64-bit arithmetic. -/
def Config.evictAfter (cfg : Config) : ℤ :=
  int64 (cfg.heartbeatInterval * cfg.staleMissedHeartbeats)

inductive ReportKind
  | status
  | health
  | effectiveConfig
  | packageStatuses
  deriving DecidableEq

inductive Event
  | agentConnected (id : String)
  | agentDisconnected (id : String)
  | agentEvicted (id : String)
  | reportReceived (id : String) (kind : ReportKind)
  | missingAttribute (id key : String)
  | reservedAttributeConflict (id key : String)
  deriving DecidableEq

/-- The agent a notification is about. -/
def Event.about : Event → String
  | .agentConnected id => id
  | .agentDisconnected id => id
  | .agentEvicted id => id
  | .reportReceived id _ => id
  | .missingAttribute id _ => id
  | .reservedAttributeConflict id _ => id

/-- The notifications about one agent, in the order they were fired. -/
def eventsOf (id : String) (events : List Event) : List Event :=
  events.filter fun e => decide (e.about = id)

theorem eventsOf_append (id : String) (fired rest : List Event) :
    eventsOf id (fired ++ rest) = eventsOf id fired ++ eventsOf id rest :=
  List.filter_append fired rest

theorem eventsOf_eq_self {id : String} {events : List Event} (h : ∀ e ∈ events, e.about = id) :
    eventsOf id events = events :=
  List.filter_eq_self.mpr fun e he => decide_eq_true (h e he)

theorem eventsOf_eq_nil {id j : String} {events : List Event} (h : ∀ e ∈ events, e.about = id)
    (hj : j ≠ id) : eventsOf j events = [] := by
  apply List.filter_eq_nil_iff.mpr
  intro e he habout
  exact hj ((of_decide_eq_true habout).symm.trans (h e he))

theorem mem_eventsOf_about {e : Event} {events : List Event} :
    e ∈ eventsOf e.about events ↔ e ∈ events := by
  simp [eventsOf]

theorem count_eventsOf {e : Event} {events : List Event} :
    (eventsOf e.about events).count e = events.count e :=
  List.count_filter (by simp)

end Grex.AgentState
