import Grex.FleetSettings
import Grex.Machine
import Grex.Registry

/-!
Liveness of the registry's agents, from the two thresholds of a sweep. Every
connect an agent is notified of is matched by a disconnect before the agent is
gone, as long as no agent can be old enough to be evicted and yet young enough
to stay connected. Both thresholds are 64-bit durations, and a sweep compares
them with an age that saturates; the thresholds mean what they say only if
neither of them reaches the end of that range.
-/

namespace Grex.Liveness

open GoTime AgentState Message AgentProgram FleetSettings Machine

/-! ### Connects and disconnects -/

/-- A registry that keeps a log of its notifications. -/
def logged (p : Registry × List Event) (op : Registry.Op) : Option (Registry × List Event) :=
  (p.1.step op).map fun q => (q.1, p.2 ++ q.2)

/-- Connects less disconnects of one agent. -/
def connectBalance (id : String) (events : List Event) : ℤ :=
  events.count (.agentConnected id) - events.count (.agentDisconnected id)

/-- What a slot's connects and disconnects should come to. -/
def presence (slot : Option Agent) : ℤ := if slot.any Agent.connected then 1 else 0

/-- Every agent's connects and disconnects come to one while it is connected,
and to zero otherwise. -/
def Balanced (p : Registry × List Event) : Prop :=
  ∀ id, connectBalance id p.2 = presence (p.1.get id)

theorem connectBalance_append (id : String) (fired rest : List Event) :
    connectBalance id (fired ++ rest) = connectBalance id fired + connectBalance id rest := by
  unfold connectBalance
  rw [List.count_append, List.count_append]
  omega

theorem connectBalance_eventsOf (id : String) (events : List Event) :
    connectBalance id (eventsOf id events) = connectBalance id events := by
  have hconnects := @count_eventsOf (.agentConnected id) events
  have hdisconnects := @count_eventsOf (.agentDisconnected id) events
  simp only [Event.about] at hconnects hdisconnects
  unfold connectBalance
  rw [hconnects, hdisconnects]

/-- Notifications of other kinds leave the balance. -/
theorem connectBalance_eq_zero {id : String} {events : List Event}
    (hconnect : ∀ k, .agentConnected k ∉ events) (hdisconnect : ∀ k, .agentDisconnected k ∉ events) :
    connectBalance id events = 0 := by
  unfold connectBalance
  rw [List.count_eq_zero_of_not_mem (hconnect id), List.count_eq_zero_of_not_mem (hdisconnect id)]
  rfl

/-- The program's notifications account for what it does to the slot. -/
def Accounts {id : String} (p : List (Stage id)) (slot : Option Agent) : Prop :=
  connectBalance id (runProgram p slot).2 = presence (runProgram p slot).1 - presence slot

theorem accounts_nil {id : String} (slot : Option Agent) : Accounts ([] : List (Stage id)) slot := by
  unfold Accounts
  simp [runProgram, connectBalance]

/-- After its connect, a report notifies of no connect or disconnect. -/
theorem connectBalance_reportEvents (cfg : Config) (id : String) (msg : AgentToServer)
    (a b : Agent) :
    connectBalance id (reportEvents cfg id msg a b) = connectBalance id (connectEvents id a) := by
  have hdescription : connectBalance id
      (runProgram (descriptionStages cfg id msg.agentDescription) (some b)).2 = 0 := by
    cases msg.agentDescription with
    | none => simp [descriptionStages, runProgram, connectBalance]
    | some desc =>
      simp only [descriptionStages, runProgram, received, checkRequiredAttributes,
        checkReservedAttributeConflicts, Stage.fire, Stage.assign, Stage.onAgent]
      apply connectBalance_eq_zero
      · intro k
        simp [not_mem_announced]
      · intro k
        simp [not_mem_announced]
  have hhealth : connectBalance id (runProgram (healthStages id msg.health)
      (some (descriptionApplied cfg msg.agentDescription b))).2 = 0 := by
    cases msg.health <;>
      simp [healthStages, runProgram, received, Stage.fire, Stage.assign, Stage.onAgent,
        connectBalance]
  have hpackages : connectBalance id
      (if 0 < msg.getPackages.size then [.reportReceived id .packageStatuses] else []) = 0 := by
    split <;> simp [connectBalance]
  have hconfig : connectBalance id
      (if 0 < msg.getConfigMap.size then [.reportReceived id .effectiveConfig] else []) = 0 := by
    split <;> simp [connectBalance]
  unfold reportEvents
  simp only [connectBalance_append, hdescription, hhealth, hpackages, hconfig, add_zero]

theorem connectBalance_connectEvents (id : String) (a : Agent) :
    connectBalance id (connectEvents id a) = 1 - presence (some a) := by
  cases hconn : a.connected <;> simp [connectEvents, connectBalance, presence, hconn]

theorem accounts_report (cfg : Config) (id : String) (now : ℤ) (msg : AgentToServer)
    (conn : ConnMeta) (slot : Option Agent) :
    Accounts (reportProgram cfg id now msg conn) slot := by
  have hfound : presence (some (found id now slot)) = presence slot := by
    cases slot <;> rfl
  have hafter : presence (some (reported cfg now msg conn (found id now slot))) = 1 := by
    simp [presence, (reported_presence cfg now msg conn (found id now slot)).1]
  unfold Accounts
  rw [runProgram_reportProgram, connectBalance_reportEvents, connectBalance_connectEvents, hfound,
    hafter]

theorem accounts_setConnected (id : String) (connected : Bool) (slot : Option Agent) :
    Accounts (setConnectedProgram id connected) slot := by
  unfold Accounts
  cases slot with
  | none => simp [connectBalance]
  | some a =>
    rw [runProgram_setConnected]
    cases hconn : a.connected <;> cases connected <;>
      simp [setConnectedEvents, connectBalance, presence, hconn]

/-- A sweep accounts for an agent unless it evicts it while it is connected. -/
theorem accounts_sweep_iff (cfg : Config) (id : String) (now : ℤ) (slot : Option Agent) :
    Accounts (sweepProgram cfg id now) slot ↔
      ∀ a, slot = some a → a.connected = true → age now a > cfg.evictAfter →
        age now a > cfg.disconnectThreshold := by
  unfold Accounts
  cases slot with
  | none => simp [sweepProgram, runProgram, sweepDisconnect, sweepEvict, Stage.onAgent,
      connectBalance]
  | some a =>
    rw [runProgram_sweep]
    cases hconn : a.connected <;> by_cases hlate : age now a > cfg.disconnectThreshold <;>
      by_cases hevict : age now a > cfg.evictAfter <;>
      simp [connectBalance, presence, hconn, hlate, hevict]

theorem accounts_program (cfg : Config) (hle : cfg.disconnectThreshold ≤ cfg.evictAfter)
    (op : Registry.Op) (id : String) (slot : Option Agent) : Accounts (op.program cfg id) slot := by
  cases op with
  | report now msg conn =>
    simp only [Registry.Op.program]
    split
    · exact accounts_nil slot
    · split
      · exact accounts_report cfg id now msg conn slot
      · exact accounts_nil slot
  | setConnected k connected =>
    simp only [Registry.Op.program]
    split
    · exact accounts_setConnected id connected slot
    · exact accounts_nil slot
  | sweep now orders =>
    refine (accounts_sweep_iff cfg id now slot).mpr fun a _ _ hevict => ?_
    omega

/-- A balanced log stays balanced exactly if every agent is accounted for. -/
theorem balanced_step_iff {p q : Registry × List Event} {op : Registry.Op} (hp : Balanced p)
    (hstep : logged p op = some q) :
    Balanced q ↔ ∀ id, Accounts (op.program p.1.cfg id) (p.1.get id) := by
  obtain ⟨⟨r, fired⟩, hop, rfl⟩ := Option.map_eq_some_iff.mp hstep
  refine forall_congr' fun id => ?_
  obtain ⟨hget, hevents⟩ := Registry.step_program hop id
  have hbefore := hp id
  unfold Accounts
  rw [← hget, ← hevents, connectBalance_eventsOf]
  change connectBalance id (p.2 ++ fired) = presence (r.get id) ↔
    connectBalance id fired = presence (r.get id) - presence (p.1.get id)
  rw [connectBalance_append]
  omega

theorem balanced_start (cfg : Config) : Balanced (Registry.new cfg, []) := fun _ => rfl

theorem balanced_run {cfg : Config} (hle : cfg.disconnectThreshold ≤ cfg.evictAfter)
    {ops : List Registry.Op} {final : Registry × List Event}
    (hrun : run logged (Registry.new cfg, []) ops = some final) : Balanced final := by
  have hboth : final.1.cfg = cfg ∧ Balanced final := by
    refine run_invariant (fun p => p.1.cfg = cfg ∧ Balanced p) ?_ ⟨rfl, balanced_start cfg⟩ hrun
    intro p op q hp hstep
    refine ⟨?_, (balanced_step_iff hp.2 hstep).mpr fun id => ?_⟩
    · obtain ⟨⟨r, fired⟩, hop, rfl⟩ := Option.map_eq_some_iff.mp hstep
      exact (Registry.cfg_step hop).trans hp.1
    · rw [hp.1]
      exact accounts_program cfg hle op id _
  exact hboth.2

/-- Between the two thresholds an agent is evicted while it is connected. -/
theorem exists_unbalanced (cfg : Config) (hlt : cfg.evictAfter < cfg.disconnectThreshold) :
    ∃ ops final, run logged (Registry.new cfg, []) ops = some final ∧ ¬ Balanced final := by
  have hheard : logged (Registry.new cfg, []) (.report 0 heartbeat {}) =
      some (Registry.heardOnce cfg 0, ((Registry.new cfg).report 0 heartbeat {}).2) := rfl
  have hbalanced := (balanced_step_iff (balanced_start cfg) hheard).mpr fun id => by
    simp only [Registry.Op.program, Registry.uid_heartbeat]
    split
    · exact accounts_report _ _ _ _ _ _
    · exact accounts_nil _
  obtain ⟨orders, horders⟩ := (Registry.heardOnce cfg 0).exists_orders
  have hsweep : (Registry.heardOnce cfg 0).step (.sweep cfg.disconnectThreshold orders) =
      some ((Registry.heardOnce cfg 0).sweep cfg.disconnectThreshold orders) := if_pos horders
  have hlogged : logged (Registry.heardOnce cfg 0, ((Registry.new cfg).report 0 heartbeat {}).2)
      (.sweep cfg.disconnectThreshold orders) = some _ :=
    Option.map_eq_some_iff.mpr ⟨_, hsweep, rfl⟩
  refine ⟨[.report 0 heartbeat {}, .sweep cfg.disconnectThreshold orders], _,
    run_cons_eq_some.mpr ⟨_, hheard, run_cons_eq_some.mpr ⟨_, hlogged, run_nil _⟩⟩, fun hafter => ?_⟩
  have haccounts := (balanced_step_iff hbalanced hlogged).mp hafter zeroUID
  have hage : age cfg.disconnectThreshold (Registry.heardAgent cfg 0) = cfg.disconnectThreshold := by
    have hbounds := int64_bounds (cfg.heartbeatInterval + cfg.heartbeatInterval.tdiv 2)
    unfold age sub
    rw [Registry.lastSeen_heardAgent]
    change minDuration ≤ cfg.disconnectThreshold ∧ cfg.disconnectThreshold ≤ maxDuration at hbounds
    omega
  have hlate := (accounts_sweep_iff _ _ _ _).mp haccounts _ (Registry.get_heardOnce_self cfg 0)
    (Registry.connected_heardAgent cfg 0)
  rw [hage] at hlate
  change cfg.disconnectThreshold > (Registry.heardOnce cfg 0).cfg.evictAfter →
    cfg.disconnectThreshold > (Registry.heardOnce cfg 0).cfg.disconnectThreshold at hlate
  rw [Registry.cfg_heardOnce] at hlate
  exact lt_irrefl _ (hlate hlt)

/-- Connects and disconnects balance in every run exactly if an agent is not
evicted before it is old enough to be disconnected. -/
theorem connects_balance_iff (fleet : Fleet) :
    (∀ ops final, run logged (Registry.new fleet.registryConfig, []) ops = some final →
      Balanced final) ↔
      fleet.registryConfig.disconnectThreshold ≤ fleet.registryConfig.evictAfter := by
  refine ⟨fun hall => ?_, fun hle ops final hrun => balanced_run hle hrun⟩
  by_contra hnot
  obtain ⟨ops, final, hrun, hunbalanced⟩ := exists_unbalanced _ (not_le.mp hnot)
  exact hunbalanced (hall ops final hrun)

/-- One missed heartbeat is enough for an eviction, but not for a disconnect. -/
def impatient : Fleet where
  heartbeatInterval := 30000000000
  staleMissedHeartbeats := 1
  shardCount := 1
  softDeleteDuration := 604800000000000

/-- An agent heard at 0 s is evicted at 40 s, and its connect stays unmatched. -/
theorem early_eviction_unmatched :
    impatient.validate = .ok () ∧
    ∃ final, run logged (Registry.new impatient.registryConfig, [])
        [.report 0 heartbeat {}, .sweep 40000000000 fun _ => [zeroUID]] = some final ∧
      final.1.get zeroUID = none ∧ connectBalance zeroUID final.2 = 1 := by
  refine ⟨by decide, ?_⟩
  apply exists_run_of_any
  decide +kernel

/-! ### Thresholds in exact integers -/

def exactEvictAfter (cfg : Config) : ℤ := cfg.heartbeatInterval * cfg.staleMissedHeartbeats

def exactDisconnectAfter (cfg : Config) : ℤ := cfg.heartbeatInterval + cfg.heartbeatInterval / 2

/-- An agent after a sweep whose arithmetic is exact. -/
def exactlySwept (cfg : Config) (now : ℤ) (a : Agent) : Option Agent :=
  if now - a.lastSeen > exactEvictAfter cfg then none
  else some { a with
    connected := a.connected && !decide (now - a.lastSeen > exactDisconnectAfter cfg) }

/-- The sweep evicts and disconnects exactly the agents it should, and changes
nothing else. -/
structure SweepsExactly (r : Registry) (now : ℤ) (orders : ℕ → List String) : Prop where
  evicts : ∀ id, id ∈ Registry.evictedIds (r.sweep now orders).2 ↔
    ∃ a, r.get id = some a ∧ now - a.lastSeen > exactEvictAfter r.cfg
  once : (Registry.evictedIds (r.sweep now orders).2).Nodup
  disconnects : ∀ id, .agentDisconnected id ∈ (r.sweep now orders).2 ↔
    ∃ a, r.get id = some a ∧ a.connected = true ∧
      now - a.lastSeen > exactDisconnectAfter r.cfg
  others : ∀ id, (r.sweep now orders).1.get id = (r.get id).bind (exactlySwept r.cfg now)

section Swept

variable {r : Registry} {now : ℤ} {orders : ℕ → List String} (horders : r.Orders orders)

include horders in
theorem evicted_iff (id : String) :
    id ∈ Registry.evictedIds (r.sweep now orders).2 ↔
      ∃ a, r.get id = some a ∧ age now a > r.cfg.evictAfter := by
  have habout : id = (Event.agentEvicted id).about := rfl
  rw [Registry.mem_evictedIds, ← mem_eventsOf_about, ← habout,
    Registry.eventsOf_sweep r now orders horders]
  cases hget : r.get id with
  | none => simp
  | some a => simp [Registry.sweptEvents_some]

include horders in
theorem disconnected_iff (id : String) :
    .agentDisconnected id ∈ (r.sweep now orders).2 ↔
      ∃ a, r.get id = some a ∧ a.connected = true ∧ age now a > r.cfg.disconnectThreshold := by
  have habout : id = (Event.agentDisconnected id).about := rfl
  rw [← mem_eventsOf_about, ← habout, Registry.eventsOf_sweep r now orders horders]
  cases hget : r.get id with
  | none => simp
  | some a => simp [Registry.sweptEvents_some]

include horders in
/-- Whatever the thresholds are, no agent is evicted twice. -/
theorem nodup_evictedIds : (Registry.evictedIds (r.sweep now orders).2).Nodup := by
  apply List.nodup_iff_count_le_one.mpr
  intro id
  have hevents := @count_eventsOf (.agentEvicted id) (r.sweep now orders).2
  simp only [Event.about] at hevents
  rw [Registry.count_evictedIds, ← hevents, Registry.eventsOf_sweep r now orders horders]
  cases hget : r.get id with
  | none => simp
  | some a =>
    rw [Registry.sweptEvents_some]
    by_cases hlate : a.connected = true ∧ age now a > r.cfg.disconnectThreshold <;>
      by_cases hevict : age now a > r.cfg.evictAfter <;> simp [hlate, hevict]

end Swept

theorem sweepsExactly_of_compare {r : Registry} {now : ℤ} {orders : ℕ → List String}
    (horders : r.Orders orders)
    (hevict : ∀ a, age now a > r.cfg.evictAfter ↔ now - a.lastSeen > exactEvictAfter r.cfg)
    (hlate : ∀ a, age now a > r.cfg.disconnectThreshold ↔
      now - a.lastSeen > exactDisconnectAfter r.cfg) : SweepsExactly r now orders where
  evicts id := by
    rw [evicted_iff horders]
    simp only [hevict]
  once := nodup_evictedIds horders
  disconnects id := by
    rw [disconnected_iff horders]
    simp only [hlate]
  others id := by
    rw [Registry.get_sweep r now orders horders]
    cases r.get id with
    | none => rfl
    | some a =>
      rw [Registry.sweptSlot, runProgram_sweep]
      simp only [hevict, hlate]
      rfl

/-- Every sweep of every registry with the given settings is exact. -/
def AlwaysExact (cfg : Config) : Prop :=
  ∀ r : Registry, r.cfg = cfg → ∀ now orders, r.Orders orders → SweepsExactly r now orders

/-- Sweeps are always exact exactly if neither threshold reaches the longest
duration. -/
theorem always_exact_iff (fleet : Fleet) (hvalid : fleet.validate = .ok ()) :
    AlwaysExact fleet.registryConfig ↔
      exactEvictAfter fleet.registryConfig < maxDuration ∧
        exactDisconnectAfter fleet.registryConfig < maxDuration := by
  obtain ⟨hinterval, hmissed⟩ := positive_of_validate hvalid
  have hhalf : fleet.registryConfig.heartbeatInterval.tdiv 2 =
      fleet.registryConfig.heartbeatInterval / 2 := Int.tdiv_eq_ediv_of_nonneg (by omega)
  have hevictAfter : fleet.registryConfig.evictAfter =
      int64 (exactEvictAfter fleet.registryConfig) := rfl
  have hdisconnectAfter : fleet.registryConfig.disconnectThreshold =
      int64 (exactDisconnectAfter fleet.registryConfig) := by
    unfold Config.disconnectThreshold exactDisconnectAfter
    rw [hhalf]
  constructor
  · intro hall
    have hheard : ∀ now orders, (Registry.heardOnce fleet.registryConfig 0).Orders orders →
        SweepsExactly (Registry.heardOnce fleet.registryConfig 0) now orders :=
      hall _ (Registry.cfg_heardOnce _ 0)
    obtain ⟨orders, horders⟩ := (Registry.heardOnce fleet.registryConfig 0).exists_orders
    have hget := Registry.get_heardOnce_self fleet.registryConfig 0
    have hseen := Registry.lastSeen_heardAgent fleet.registryConfig 0
    have hconnected := Registry.connected_heardAgent fleet.registryConfig 0
    refine ⟨lt_maxDuration_of_compare fun t => ?_, lt_maxDuration_of_compare fun t => ?_⟩
    · have hexact := (hheard t orders horders).evicts zeroUID
      rw [evicted_iff horders] at hexact
      simpa [hget, age, hseen, Registry.cfg_heardOnce, hevictAfter] using hexact
    · have hexact := (hheard t orders horders).disconnects zeroUID
      rw [disconnected_iff horders] at hexact
      simpa [hget, age, hseen, hconnected, Registry.cfg_heardOnce, hdisconnectAfter] using hexact
  · intro hbelow r hcfg now orders horders
    have hpositive : 0 < exactEvictAfter fleet.registryConfig := Int.mul_pos hinterval hmissed
    have hsum : 0 < exactDisconnectAfter fleet.registryConfig := by
      unfold exactDisconnectAfter
      omega
    have hmin : minDuration ≤ 0 := by decide
    refine sweepsExactly_of_compare horders (fun a => ?_) fun a => ?_
    · rw [hcfg, hevictAfter]
      exact sub_gt_int64_iff (by omega) hbelow.1 now a.lastSeen
    · rw [hcfg, hdisconnectAfter]
      exact sub_gt_int64_iff (by omega) hbelow.2 now a.lastSeen

/-- The fleet section used when none is given. -/
def standard : Fleet where
  heartbeatInterval := 30000000000
  staleMissedHeartbeats := 3
  softDeleteDuration := 604800000000000

theorem always_exact_by_default : AlwaysExact standard.registryConfig :=
  (always_exact_iff standard (by decide)).mpr ⟨by decide, by decide⟩

/-- Agents are meant to be evicted after centuries. -/
def patient : Fleet where
  heartbeatInterval := 30000000000
  staleMissedHeartbeats := 400000000
  shardCount := 1
  softDeleteDuration := 604800000000000

/-- The eviction threshold wraps below zero, and an agent that has just been
heard is evicted. -/
theorem wrapped_threshold_evicts :
    patient.validate = .ok () ∧
    ∃ final, run logged (Registry.new patient.registryConfig, [])
        [.report 0 heartbeat {}, .sweep 0 fun _ => [zeroUID]] = some final ∧
      zeroUID ∈ Registry.evictedIds final.2 ∧ final.1.get zeroUID = none ∧
      ¬ 0 - (Registry.heardAgent patient.registryConfig 0).lastSeen >
        exactEvictAfter patient.registryConfig := by
  refine ⟨by decide, ?_⟩
  apply exists_run_of_any
  decide +kernel

end Grex.Liveness
