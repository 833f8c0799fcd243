import Grex.FleetStats
import Mathlib.Data.String.Basic

/-!
How an agent is presented. Lists and single lookups share one view; a list drops
the bulky parts of it.
-/

namespace Grex.AgentViews

open AgentState

/-- The capability bits under their names. -/
structure Capabilities where
  reportsStatus : Bool
  acceptsRemoteConfig : Bool
  reportsEffectiveConfig : Bool
  acceptsPackages : Bool
  reportsPackageStatuses : Bool
  reportsOwnTraces : Bool
  reportsOwnMetrics : Bool
  reportsOwnLogs : Bool
  acceptsOpAMPConnectionSettings : Bool
  acceptsOtherConnectionSettings : Bool
  acceptsRestartCommand : Bool
  reportsHealth : Bool
  reportsRemoteConfig : Bool
  reportsHeartbeat : Bool
  reportsAvailableComponents : Bool
  reportsConnectionSettingsStatus : Bool
  deriving DecidableEq

def decodedCapabilities (a : Agent) : Capabilities :=
  let has (bit : UInt64) : Bool := a.capabilities &&& bit != 0
  { reportsStatus := has 0x1
    acceptsRemoteConfig := has 0x2
    reportsEffectiveConfig := has 0x4
    acceptsPackages := has 0x8
    reportsPackageStatuses := has 0x10
    reportsOwnTraces := has 0x20
    reportsOwnMetrics := has 0x40
    reportsOwnLogs := has 0x80
    acceptsOpAMPConnectionSettings := has 0x100
    acceptsOtherConnectionSettings := has 0x200
    acceptsRestartCommand := has 0x400
    reportsHealth := has 0x800
    reportsRemoteConfig := has 0x1000
    reportsHeartbeat := has 0x2000
    reportsAvailableComponents := has 0x4000
    reportsConnectionSettingsStatus := has 0x8000 }

structure AgentView where
  instanceUID : String
  sequenceNum : UInt64
  identifying : FinMap String String
  nonIdentifying : FinMap String String
  capabilities : UInt64
  capabilityFlags : Capabilities
  healthy : Bool
  healthError : String
  healthStatus : String
  healthStartTime : ℤ
  healthStatusTime : ℤ
  healthReported : Bool
  descriptionReported : Bool
  effectiveConfig : FinMap String String
  packages : FinMap String Package
  conn : ConnMeta
  connected : Bool
  firstSeen : ℤ
  lastSeen : ℤ
  missingAttributes : List String
  role : String
  displayName : String
  hostName : String
  version : String
  supervisorManaged : Bool
  deriving DecidableEq

/-- The role an agent declares, or a guess from its name; `lower` is
`strings.ToLower`. -/
def roleOf (lower : String → String) (a : Agent) : String :=
  if attr a "service.component" ≠ "" then attr a "service.component"
  else if "gateway".toList <:+: (lower (attr a "service.name")).toList then "Gateway"
  else "Collector"

def displayNameOf (a : Agent) : String :=
  if attr a "service.name" ≠ "" then attr a "service.name"
  else if attr a "host.name" ≠ "" then attr a "host.name"
  else a.instanceUID

def fullView (lower : String → String) (a : Agent) : AgentView where
  instanceUID := a.instanceUID
  sequenceNum := a.sequenceNum
  identifying := a.identifying
  nonIdentifying := a.nonIdentifying
  capabilities := a.capabilities
  capabilityFlags := decodedCapabilities a
  healthy := a.healthy
  healthError := a.healthError
  healthStatus := a.healthStatus
  healthStartTime := a.healthStartTime
  healthStatusTime := a.healthStatusTime
  healthReported := a.healthReported
  descriptionReported := a.descriptionReported
  effectiveConfig := a.effectiveConfig
  packages := a.packages
  conn := a.conn
  connected := a.connected
  firstSeen := a.firstSeen
  lastSeen := a.lastSeen
  missingAttributes := a.missingAttributes
  role := roleOf lower a
  displayName := displayNameOf a
  hostName := attr a "host.name"
  version := attr a "service.version"
  supervisorManaged := AgentState.supervisorManaged a

/-- The view of a list entry. -/
def summaryView (lower : String → String) (a : Agent) : AgentView :=
  { fullView lower a with effectiveConfig := ∅, packages := ∅ }

/-- The view of a single agent. -/
def detailView (lower : String → String) (a : Agent) : AgentView := fullView lower a

end Grex.AgentViews
