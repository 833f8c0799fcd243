import Grex.AgentState

/-!
The fleet section of the configuration file, with its validation, and the
registry settings made from it. Durations and counts are 64-bit signed
integers, so every accepted value is positive and below 2^63.
-/

namespace Grex.FleetSettings

open GoTime AgentState

structure Fleet where
  heartbeatInterval : Int64
  staleMissedHeartbeats : Int64
  requiredAttributes : List String := []
  shardCount : Int64 := 0
  softDeleteDuration : Int64

/-- The fleet checks of the configuration's validation, in its order. -/
def Fleet.validate (fleet : Fleet) : Except String Unit :=
  if fleet.heartbeatInterval.toInt ≤ 0 then
    .error ("fleet.heartbeat_interval: must be positive, got " ++
      durationString fleet.heartbeatInterval.toInt)
  else if fleet.staleMissedHeartbeats.toInt ≤ 0 then
    .error ("fleet.stale_missed_heartbeats: must be positive, got " ++
      toString fleet.staleMissedHeartbeats.toInt)
  else if fleet.softDeleteDuration.toInt ≤ 0 then
    .error ("fleet.soft_delete_duration: must be positive, got " ++
      durationString fleet.softDeleteDuration.toInt)
  else if fleet.shardCount.toInt < 0 then
    .error ("fleet.shard_count: must be non-negative, got " ++ toString fleet.shardCount.toInt)
  else .ok ()

def Fleet.registryConfig (fleet : Fleet) : Config where
  heartbeatInterval := fleet.heartbeatInterval.toInt
  staleMissedHeartbeats := fleet.staleMissedHeartbeats.toInt
  requiredAttributes := fleet.requiredAttributes
  shardCount := fleet.shardCount.toInt

/-- An accepted fleet section has positive durations and counts. -/
theorem positive_of_validate {fleet : Fleet} (h : fleet.validate = .ok ()) :
    0 < fleet.registryConfig.heartbeatInterval ∧
      0 < fleet.registryConfig.staleMissedHeartbeats := by
  unfold Fleet.validate at h
  split at h
  · cases h
  · rename_i hinterval
    split at h
    · cases h
    · rename_i hmissed
      exact ⟨not_le.mp hinterval, not_le.mp hmissed⟩

end Grex.FleetSettings
