import Grex.Registry
import Mathlib.Data.Multiset.MapFold

/-!
Counts over the whole fleet. They are taken in one walk over the shards, each in
the iteration order of its map, and depend on the agents only, because counting
one agent commutes with counting another.
-/

namespace Grex.AgentState

/-- An identifying or non-identifying attribute, empty where the agent has
neither. -/
def attr (a : Agent) (key : String) : String :=
  match a.identifying.find key with
  | some v => v
  | none => (a.nonIdentifying.find key).getD ""

def supervisorManagedByValue : String := "opentelemetry-opampsupervisor"

def supervisorManaged (a : Agent) : Bool :=
  decide (attr a "opamp.managed_by" = supervisorManagedByValue)

end AgentState

/-- How a connected agent is reached. -/
structure ConnRoute where
  transport : String
  via : String
  deriving DecidableEq

structure FleetStats where
  size : ℕ
  connected : FinMap ConnRoute ℕ
  disconnected : ℕ
  noncompliant : ℕ
  supervisorManaged : ℕ
  awaitingFullState : ℕ
  deriving DecidableEq

namespace FleetStats

open AgentState

def zero : FleetStats where
  size := 0
  connected := ∅
  disconnected := 0
  noncompliant := 0
  supervisorManaged := 0
  awaitingFullState := 0

/-- Add one to a counter that starts at zero. -/
def increment (counts : FinMap ConnRoute ℕ) (route : ConnRoute) : FinMap ConnRoute ℕ :=
  counts.insert route ((counts.find route).getD 0 + 1)

def routeOf (a : Agent) : ConnRoute where
  transport := a.conn.transport
  via := if a.conn.viaGateway then "gateway" else "direct"

/-- The counts with one more agent. -/
def count (stats : FleetStats) (a : Agent) : FleetStats where
  size := stats.size + 1
  connected := if a.connected then increment stats.connected (routeOf a) else stats.connected
  disconnected := if a.connected then stats.disconnected else stats.disconnected + 1
  noncompliant :=
    if 0 < a.missingAttributes.length then stats.noncompliant + 1 else stats.noncompliant
  supervisorManaged :=
    if AgentState.supervisorManaged a then stats.supervisorManaged + 1 else stats.supervisorManaged
  awaitingFullState :=
    if !a.descriptionReported then stats.awaitingFullState + 1 else stats.awaitingFullState

def aggregate (r : Registry) (orders : ℕ → List String) : FleetStats :=
  (List.range r.count).foldl
    (fun stats shard => ((orders shard).filterMap r.get).foldl count stats) zero

/-- The scalar fields the per-agent metrics need. -/
structure AgentSeries where
  instanceUID : String
  healthReported : Bool
  healthy : Bool
  lastSeen : ℤ
  deriving DecidableEq

def seriesOf (a : Agent) : AgentSeries where
  instanceUID := a.instanceUID
  healthReported := a.healthReported
  healthy := a.healthy
  lastSeen := a.lastSeen

def agentSeries (r : Registry) (orders : ℕ → List String) : List AgentSeries :=
  (List.range r.count).flatMap fun shard => ((orders shard).filterMap r.get).map seriesOf

theorem find_increment (counts : FinMap ConnRoute ℕ) (route k : ConnRoute) :
    (increment counts route).find k =
      if k = route then some ((counts.find route).getD 0 + 1) else counts.find k :=
  counts.find_set route k _

theorem increment_comm (counts : FinMap ConnRoute ℕ) (k j : ConnRoute) :
    increment (increment counts k) j = increment (increment counts j) k := by
  by_cases hkj : k = j
  · rw [hkj]
  · have hjk : ¬ j = k := fun h => hkj h.symm
    apply FinMap.ext
    intro i
    simp only [find_increment, hkj, hjk, if_false]
    by_cases hi : i = k
    · have hij : ¬ i = j := fun h => hkj (hi.symm.trans h)
      rw [if_neg hij, if_pos hi, if_pos hi]
    · rw [if_neg hi, if_neg hi]

/-- Two agents are counted in either order. -/
theorem count_right_comm (stats : FleetStats) (a b : Agent) :
    (stats.count a).count b = (stats.count b).count a := by
  have hconnected : (if b.connected then increment (stats.count a).connected (routeOf b)
      else (stats.count a).connected) =
      if a.connected then increment (stats.count b).connected (routeOf a)
      else (stats.count b).connected := by
    unfold count
    cases a.connected <;> cases b.connected <;> simp [increment_comm]
  have hadd : ∀ (p q : Prop) [Decidable p] [Decidable q] (n : ℕ),
      (if q then (if p then n + 1 else n) + 1 else if p then n + 1 else n) =
        if p then (if q then n + 1 else n) + 1 else if q then n + 1 else n := by
    intro p q _ _ n
    split <;> split <;> rfl
  have hdisconnected : (if b.connected then (stats.count a).disconnected
      else (stats.count a).disconnected + 1) =
      if a.connected then (stats.count b).disconnected else (stats.count b).disconnected + 1 := by
    unfold count
    cases a.connected <;> cases b.connected <;> rfl
  unfold count at hconnected hdisconnected ⊢
  simp only [hconnected, hdisconnected, hadd]

instance : RightCommutative count := ⟨count_right_comm⟩

theorem aggregate_eq_foldl (r : Registry) (orders : ℕ → List String) :
    aggregate r orders = (r.list orders).foldl count zero := by
  unfold aggregate Registry.list
  rw [List.foldl_flatMap]

theorem agentSeries_eq_map (r : Registry) (orders : ℕ → List String) :
    agentSeries r orders = (r.list orders).map seriesOf := by
  unfold agentSeries Registry.list
  rw [List.map_flatMap]

end FleetStats

end Grex
