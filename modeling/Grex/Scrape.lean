import Grex.FleetCounts
import Grex.LockSections
import Grex.Machine

/-!
Reads of the whole registry while it changes. A walk takes the shards one by one,
each under its lock, and any operation may run between two of them. So what it
returns need not be the registry of any one moment, but each agent in it is as it
was at a moment of the walk, between operations on it, and is there once. The
lists, the counts and the series of a metrics scrape are such walks.
-/

namespace Grex.Scrape

open GoTime AgentState Replica Tables FleetStats FleetCounts Machine

/-! ### Walks -/

variable {β : Type*}

/-- A walk over the shards, and what it has folded so far. -/
structure Walk (β : Type*) where
  shard : ℕ
  acc : β

inductive Act
  | replica (a : Replica.Act)
  | read (order : List String)

/-- A shard is read in the iteration order of its map, when nobody writes to it. -/
def step (f : β → Agent → β) (s : (Replica × Database) × Walk β) :
    Act → Option ((Replica × Database) × Walk β)
  | .replica a => (s.1.1.step s.1.2 a).map fun p => (p, s.2)
  | .read order =>
      if s.1.1.locks.find s.2.shard = none ∧ s.2.shard < s.1.1.registry.count ∧
          FinMap.Enumerates order (s.1.1.registry.shards s.2.shard).keys then
        some (s.1, ⟨s.2.shard + 1, (order.filterMap s.1.1.registry.get).foldl f s.2.acc⟩)
      else none

variable {f : β → Agent → β} {s t : (Replica × Database) × Walk β}

/-- Everything a step of a walk can do. -/
theorem step_cases {a : Act} (h : step f s a = some t) :
    (∃ b, a = .replica b ∧ Step s.1.1 s.1.2 b t.1.1 t.1.2 ∧ t.2 = s.2) ∨
      ∃ order, a = .read order ∧ s.1.1.locks.find s.2.shard = none ∧
        s.2.shard < s.1.1.registry.count ∧
        FinMap.Enumerates order (s.1.1.registry.shards s.2.shard).keys ∧
        t = (s.1, ⟨s.2.shard + 1, (order.filterMap s.1.1.registry.get).foldl f s.2.acc⟩) := by
  cases a with
  | replica b =>
    obtain ⟨p, hp, rfl⟩ := Option.map_eq_some_iff.mp h
    exact Or.inl ⟨b, rfl, Replica.step_cases hp, rfl⟩
  | read order =>
    simp only [step] at h
    split_ifs at h with hread
    exact Or.inr ⟨order, rfl, hread.1, hread.2.1, hread.2.2, (Option.some.inj h).symm⟩

theorem shardFor_walk {a : Act} (h : step f s a = some t) (id : String) :
    t.1.1.registry.shardFor id = s.1.1.registry.shardFor id := by
  obtain ⟨b, -, hb, -⟩ | ⟨order, -, -, -, -, rfl⟩ := step_cases h
  · exact shardFor_step hb id
  · rfl

/-- The entries of one agent in a list. -/
def entries (id : String) (agents : List Agent) : List Agent :=
  agents.filter fun a => a.instanceUID = id

theorem entries_append (id : String) (l l' : List Agent) :
    entries id (l ++ l') = entries id l ++ entries id l' := List.filter_append ..

/-- A shard holds the agents routed to it, each once. -/
theorem entries_shard {r : Registry} {shard : ℕ} {order : List String}
    (horder : FinMap.Enumerates order (r.shards shard).keys) (id : String) :
    entries id (order.filterMap r.get) =
      if r.shardFor id = shard then (r.get id).toList else [] := by
  have hown : entries id (order.filterMap r.get) = (order.filter (· == id)).filterMap r.get := by
    unfold entries
    rw [List.filter_filterMap, List.filterMap_filter]
    apply List.filterMap_congr
    intro j _
    cases hj : r.get j with
    | none => simp
    | some a =>
      have huid := r.get_keyed j a hj
      by_cases hid : j = id <;> simp [huid, hid]
  rw [hown, List.filter_beq]
  by_cases hmem : id ∈ order
  · have hkey := (r.mem_shard_keys shard id).mp ((horder.mem_iff id).mp hmem)
    rw [List.count_eq_one_of_mem horder.nodup hmem, if_pos hkey.1]
    obtain ⟨a, ha⟩ := Option.isSome_iff_exists.mp hkey.2
    simp [ha]
  · rw [List.count_eq_zero_of_not_mem hmem]
    split_ifs with hshard
    · have hnone : r.get id = none := by
        by_contra hsome
        apply hmem
        rw [horder.mem_iff, r.mem_shard_keys]
        exact ⟨hshard, Option.isSome_iff_ne_none.mpr hsome⟩
      rw [hnone]
      rfl
    · rfl

/-- What a walk has read between two of its states: the agents of the shards in
between, each as it was when nothing was being done to it. -/
theorem exists_read {acts : List Act} (hrun : run (step f) s acts = some t) :
    s.2.shard ≤ t.2.shard ∧ ∃ agents, t.2.acc = agents.foldl f s.2.acc ∧
      ∀ id, (s.1.1.registry.shardFor id < s.2.shard → entries id agents = []) ∧
        (s.2.shard ≤ s.1.1.registry.shardFor id → s.1.1.registry.shardFor id < t.2.shard →
          ∃ u, Visits (step f) s acts u ∧ u.1.1.sectionOf id = none ∧
            entries id agents = (u.1.1.registry.get id).toList) := by
  induction acts generalizing s with
  | nil =>
    obtain rfl : s = t := Option.some.inj hrun
    refine ⟨le_refl _, [], rfl, fun id => ⟨fun _ => rfl, fun hle hlt => ?_⟩⟩
    omega
  | cons a acts ih =>
    obtain ⟨s', hstep, htail⟩ := run_cons_eq_some.mp hrun
    obtain ⟨hle, agents, hacc, hread⟩ := ih htail
    simp only [shardFor_walk hstep] at hread
    obtain ⟨b, -, -, hsame⟩ | ⟨order, -, hfree, hshard, horder, rfl⟩ := step_cases hstep
    · rw [hsame] at hle hacc hread
      refine ⟨hle, agents, hacc, fun id => ⟨(hread id).1, fun hfrom hto => ?_⟩⟩
      obtain ⟨u, hvisits, hu⟩ := (hread id).2 hfrom hto
      exact ⟨u, (visits_cons hstep).mpr (Or.inr hvisits), hu⟩
    · refine ⟨by simp only at hle; omega, order.filterMap s.1.1.registry.get ++ agents, ?_,
        fun id => ⟨fun hlt => ?_, fun hfrom hto => ?_⟩⟩
      · rw [hacc, List.foldl_append]
      · rw [entries_append, entries_shard horder, if_neg (by omega), (hread id).1 (by simp only; omega)]
        rfl
      · rw [entries_append, entries_shard horder]
        by_cases hid : s.1.1.registry.shardFor id = s.2.shard
        · refine ⟨s, visits_self s _, ?_, ?_⟩
          · rw [sectionOf, hid, hfree]
          · rw [if_pos hid, (hread id).1 (by simp only; omega), List.append_nil]
        · obtain ⟨u, hvisits, hu⟩ := (hread id).2 (by simp only; omega) hto
          rw [if_neg hid]
          exact ⟨u, (visits_cons hstep).mpr (Or.inr hvisits), hu⟩

/-- A finished walk has read every agent once. -/
structure ReadOnce (f : β → Agent → β) (s : (Replica × Database) × Walk β) (acts : List Act)
    (agents : List Agent) : Prop where
  nodup : (agents.map Agent.instanceUID).Nodup
  moment : ∀ id, ∃ u, Visits (step f) s acts u ∧ u.1.1.sectionOf id = none ∧
    entries id agents = (u.1.1.registry.get id).toList

theorem exists_readOnce {p : Replica × Database} {b : β} {acts : List Act}
    (hrun : run (step f) (p, ⟨0, b⟩) acts = some t) (hend : t.2.shard = t.1.1.registry.count) :
    ∃ agents, t.2.acc = agents.foldl f b ∧ ReadOnce f (p, ⟨0, b⟩) acts agents := by
  obtain ⟨-, agents, hacc, hread⟩ := exists_read hrun
  have hmoment : ∀ id, ∃ u, Visits (step f) (p, ⟨0, b⟩) acts u ∧ u.1.1.sectionOf id = none ∧
      entries id agents = (u.1.1.registry.get id).toList := by
    intro id
    have hsame : t.1.1.registry.shardFor id = p.1.registry.shardFor id :=
      run_invariant (fun u => u.1.1.registry.shardFor id = p.1.registry.shardFor id)
        (fun _ _ _ hu hstep => (shardFor_walk hstep id).trans hu) rfl hrun
    have hlt : p.1.registry.shardFor id < t.2.shard := by
      rw [hend, ← hsame]
      exact t.1.1.registry.shardFor_lt id
    exact (hread id).2 (Nat.zero_le _) hlt
  refine ⟨agents, hacc, List.nodup_iff_count_le_one.mpr fun id => ?_, hmoment⟩
  obtain ⟨u, -, -, hentries⟩ := hmoment id
  have hcount : (agents.map Agent.instanceUID).count id = (entries id agents).length := by
    rw [List.count_eq_countP, List.countP_map, List.countP_eq_length_filter]
    rfl
  rw [hcount, hentries]
  cases u.1.1.registry.get id <;> simp

/-! ### The list -/

/-- `Registry.List` adds the agents of each shard to what it has. -/
def listed (agents : List Agent) (a : Agent) : List Agent := agents ++ [a]

theorem foldl_listed (l agents : List Agent) : agents.foldl listed l = l ++ agents := by
  induction agents generalizing l with
  | nil => simp
  | cons a agents ih =>
    rw [List.foldl_cons, ih, listed, List.append_assoc]
    rfl

/-- A list that is taken while anything else happens holds each agent once, as it was at
a moment of the walk when no operation on it was under way; an agent that is
registered throughout is in it. -/
theorem list_reads_once (R : Replica) (db : Database) (acts : List Act)
    (t : (Replica × Database) × Walk (List Agent))
    (hrun : run (step listed) ((R, db), ⟨0, []⟩) acts = some t)
    (hend : t.2.shard = t.1.1.registry.count) : ReadOnce listed ((R, db), ⟨0, []⟩) acts t.2.acc := by
  obtain ⟨agents, hacc, hread⟩ := exists_readOnce hrun hend
  rw [foldl_listed, List.nil_append] at hacc
  rwa [hacc]

/-- A replica with three shards: the first two agents hash to the first two of them. -/
def threeShards : Replica :=
  start { heartbeatInterval := 30000000000, staleMissedHeartbeats := 3, shardCount := 3 }
    10000000000 true "a" ""

open Message in
/-- The first agent is disconnected. -/
def closeActs : List Replica.Act :=
  [.lock (.setConnected zeroUID false), .exec 0, .fire 0, .exec 0, .unlock 0]

open Message in
/-- Each shard is read in its turn. Once the first one is read its agent is disconnected,
and the second agent is heard before its shard is read. -/
def listActs : List Act :=
  (heartbeatActs 0).map .replica ++ [.read [zeroUID]] ++
    (closeActs ++ secondHeartbeatActs 1 0).map .replica ++ [.read [secondUID], .read []]

open Message in
/-- The list holds both agents as connected, although they were not so at any one time. -/
theorem list_reads_once_heard :
    ∃ t, run (step listed) ((threeShards, Database.empty), ⟨0, []⟩) listActs = some t ∧
      t.2.acc = [heardAt 0 0, secondHeardAt 0 0] ∧
      (t.1.1.registry.get zeroUID).any (fun a => !a.connected) = true ∧
      ReadOnce listed ((threeShards, Database.empty), ⟨0, []⟩) listActs t.2.acc := by
  obtain ⟨t, hrun, hend, hlist, hmoved⟩ : ∃ t,
      run (step listed) ((threeShards, Database.empty), ⟨0, []⟩) listActs = some t ∧
      t.2.shard = t.1.1.registry.count ∧ t.2.acc = [heardAt 0 0, secondHeardAt 0 0] ∧
      (t.1.1.registry.get zeroUID).any (fun a => !a.connected) = true :=
    exists_run_of_any (by decide +kernel)
  exact ⟨t, hrun, hlist, hmoved, list_reads_once _ _ _ t hrun hend⟩

/-! ### The metrics -/

/-- What is measured. -/
inductive Desc
  | agentsConnected
  | agentsDisconnected
  | agentsNoncompliant
  | agentsSupervisorManaged
  | agentsAwaitingFullState
  | fleetSize
  | agentSeriesCapped
  | agentHealth
  | agentLastSeen
  deriving DecidableEq

def Desc.name : Desc → String
  | agentsConnected => "grex_agents_connected"
  | agentsDisconnected => "grex_agents_disconnected"
  | agentsNoncompliant => "grex_agents_noncompliant"
  | agentsSupervisorManaged => "grex_agents_supervisor_managed"
  | agentsAwaitingFullState => "grex_agents_awaiting_full_state"
  | fleetSize => "grex_fleet_size"
  | agentSeriesCapped => "grex_agent_series_capped"
  | agentHealth => "grex_agent_health"
  | agentLastSeen => "grex_agent_last_seen_timestamp_seconds"

/-- A gauge with the values of its labels. -/
structure Metric where
  desc : Desc
  labels : List String
  value : ℤ
  deriving DecidableEq

/-- What a scrape may not hold twice. -/
def Metric.series (m : Metric) : String × List String := (m.desc.name, m.labels)

def collectSeries (series : List AgentSeries) (a : Agent) : List AgentSeries :=
  series ++ [seriesOf a]

/-- The gauges of one agent. Its health is left out until it has been reported. -/
def agentMetrics (s : AgentSeries) : List Metric :=
  (if s.healthReported then [⟨.agentHealth, [s.instanceUID], if s.healthy then 1 else 0⟩] else []) ++
    [⟨.agentLastSeen, [s.instanceUID], s.lastSeen / 1000000000⟩]

/-- The gauges of the routes agents are connected on, in the iteration order of their map. -/
def routeMetrics (routes : List ConnRoute) (connected : FinMap ConnRoute ℕ) : List Metric :=
  routes.map fun route =>
    ⟨.agentsConnected, [route.transport, route.via], (connected.find route).getD 0⟩

/-- The gauges of the whole fleet. -/
def fleetMetrics (perAgentLimit : ℤ) (stats : FleetStats) : List Metric :=
  [⟨.agentsDisconnected, [], stats.disconnected⟩,
    ⟨.agentsNoncompliant, [], stats.noncompliant⟩,
    ⟨.agentsSupervisorManaged, [], stats.supervisorManaged⟩,
    ⟨.agentsAwaitingFullState, [], stats.awaitingFullState⟩,
    ⟨.fleetSize, [], stats.size⟩,
    ⟨.agentSeriesCapped, [], if perAgentLimit < stats.size then 1 else 0⟩]

/-- `FleetCollector.Collect`, over what its two walks have returned. -/
def collect (perAgentLimit : ℤ) (routes : List ConnRoute) (stats : FleetStats)
    (series : List AgentSeries) : List Metric :=
  routeMetrics routes stats.connected ++ fleetMetrics perAgentLimit stats ++
    if perAgentLimit < stats.size then [] else series.flatMap agentMetrics

theorem foldl_collectSeries (series : List AgentSeries) (agents : List Agent) :
    agents.foldl collectSeries series = series ++ agents.map seriesOf := by
  induction agents generalizing series with
  | nil => simp
  | cons a agents ih =>
    rw [List.foldl_cons, ih, collectSeries, List.append_assoc]
    rfl

/-- The gauges of one agent in a scrape. -/
def gauges (id : String) (out : List Metric) : List Metric := out.filter fun m => m.labels = [id]

theorem gauges_append (id : String) (out out' : List Metric) :
    gauges id (out ++ out') = gauges id out ++ gauges id out' := List.filter_append ..

theorem labels_agentMetrics {s : AgentSeries} {m : Metric} (h : m ∈ agentMetrics s) :
    m.labels = [s.instanceUID] := by
  rcases List.mem_append.mp h with hhealth | hseen
  · by_cases hreported : s.healthReported
    · rw [if_pos hreported, List.mem_singleton] at hhealth
      rw [hhealth]
    · rw [if_neg hreported] at hhealth
      cases hhealth
  · rw [List.mem_singleton.mp hseen]

theorem labels_routeMetrics {routes : List ConnRoute} {connected : FinMap ConnRoute ℕ} {m : Metric}
    (h : m ∈ routeMetrics routes connected) : m.labels.length = 2 := by
  obtain ⟨route, -, rfl⟩ := List.mem_map.mp h
  rfl

theorem labels_fleetMetrics {perAgentLimit : ℤ} {stats : FleetStats} {m : Metric}
    (h : m ∈ fleetMetrics perAgentLimit stats) : m.labels = [] := by
  simp only [fleetMetrics, List.mem_cons, List.not_mem_nil, or_false] at h
  rcases h with rfl | rfl | rfl | rfl | rfl | rfl <;> rfl

theorem gauges_agentMetrics (id : String) (agents : List Agent) :
    gauges id ((agents.map seriesOf).flatMap agentMetrics) =
      ((entries id agents).map seriesOf).flatMap agentMetrics := by
  induction agents with
  | nil => rfl
  | cons a agents ih =>
    rw [List.map_cons, List.flatMap_cons, gauges_append, ih]
    unfold entries
    rw [List.filter_cons]
    by_cases hid : a.instanceUID = id
    · have hall : gauges id (agentMetrics (seriesOf a)) = agentMetrics (seriesOf a) := by
        rw [gauges, List.filter_eq_self]
        intro m hm
        simp [labels_agentMetrics hm, seriesOf, hid]
      rw [if_pos (decide_eq_true hid), List.map_cons, List.flatMap_cons, hall]
    · have hnone : gauges id (agentMetrics (seriesOf a)) = [] := by
        rw [gauges, List.filter_eq_nil_iff]
        intro m hm
        simp [labels_agentMetrics hm, seriesOf, hid]
      rw [if_neg (by simpa using hid), hnone, List.nil_append]

theorem nodup_agentMetrics (s : AgentSeries) : ((agentMetrics s).map Metric.series).Nodup := by
  unfold agentMetrics
  split_ifs <;> simp [Metric.series, Desc.name]

theorem nodup_series_agents {agents : List Agent} (h : (agents.map Agent.instanceUID).Nodup) :
    (((agents.map seriesOf).flatMap agentMetrics).map Metric.series).Nodup := by
  induction agents with
  | nil => exact List.nodup_nil
  | cons a agents ih =>
    rw [List.map_cons, List.nodup_cons] at h
    rw [List.map_cons, List.flatMap_cons, List.map_append, List.nodup_append]
    refine ⟨nodup_agentMetrics _, ih h.2, fun x hx y hy hxy => h.1 ?_⟩
    obtain ⟨m, hm, rfl⟩ := List.mem_map.mp hx
    obtain ⟨m', hm', rfl⟩ := List.mem_map.mp hy
    obtain ⟨s, hs, hm'⟩ := List.mem_flatMap.mp hm'
    obtain ⟨b, hb, rfl⟩ := List.mem_map.mp hs
    have hlabels : m.labels = m'.labels := congrArg Prod.snd hxy
    rw [labels_agentMetrics hm, labels_agentMetrics hm', List.singleton_inj] at hlabels
    exact List.mem_map.mpr ⟨b, hb, hlabels.symm⟩

/-- Gauges with different numbers of labels are of different series. -/
theorem nodup_series_append {out out' : List Metric} (h : (out.map Metric.series).Nodup)
    (h' : (out'.map Metric.series).Nodup)
    (hlabels : ∀ m ∈ out, ∀ m' ∈ out', m.labels.length ≠ m'.labels.length) :
    ((out ++ out').map Metric.series).Nodup := by
  rw [List.map_append, List.nodup_append]
  refine ⟨h, h', fun x hx y hy hxy => ?_⟩
  obtain ⟨m, hm, rfl⟩ := List.mem_map.mp hx
  obtain ⟨m', hm', rfl⟩ := List.mem_map.mp hy
  exact hlabels m hm m' hm' (congrArg (fun x => x.2.length) hxy)

theorem nodup_series_routes {routes : List ConnRoute} (hroutes : routes.Nodup)
    (connected : FinMap ConnRoute ℕ) :
    ((routeMetrics routes connected).map Metric.series).Nodup := by
  unfold routeMetrics
  rw [List.map_map]
  refine hroutes.map fun route route' heq => ?_
  obtain ⟨transport, via⟩ := route
  obtain ⟨transport', via'⟩ := route'
  simpa [Metric.series] using heq

/-- A route has two labels, an agent one, and the fleet none. -/
theorem nodup_series_collect {routes : List ConnRoute} (hroutes : routes.Nodup) (perAgentLimit : ℤ)
    (stats : FleetStats) {agents : List Agent} (h : (agents.map Agent.instanceUID).Nodup) :
    ((collect perAgentLimit routes stats (agents.map seriesOf)).map Metric.series).Nodup := by
  refine nodup_series_append (nodup_series_append (nodup_series_routes hroutes _) ?_ ?_) ?_ ?_
  · simp only [fleetMetrics, List.map_cons, List.map_nil, Metric.series]
    decide
  · intro m hm m' hm'
    rw [labels_routeMetrics hm, labels_fleetMetrics hm']
    decide
  · split_ifs
    · exact List.nodup_nil
    · exact nodup_series_agents h
  · intro m hm m' hm'
    split_ifs at hm'
    · cases hm'
    · obtain ⟨s, -, hagent⟩ := List.mem_flatMap.mp hm'
      rw [labels_agentMetrics hagent]
      rcases List.mem_append.mp hm with hroute | hfleet
      · simp [labels_routeMetrics hroute]
      · simp [labels_fleetMetrics hfleet]

theorem gauges_collect (id : String) (perAgentLimit : ℤ) (routes : List ConnRoute)
    (stats : FleetStats) (series : List AgentSeries) :
    gauges id (collect perAgentLimit routes stats series) =
      if perAgentLimit < stats.size then [] else gauges id (series.flatMap agentMetrics) := by
  have hroutes : gauges id (routeMetrics routes stats.connected) = [] := by
    rw [gauges, List.filter_eq_nil_iff]
    intro m hm hlabels
    have hlength := labels_routeMetrics hm
    rw [of_decide_eq_true hlabels] at hlength
    cases hlength
  unfold collect
  rw [gauges_append, gauges_append, hroutes, List.nil_append]
  split_ifs <;> rfl

/-- A scrape while anything else happens: no series comes twice, the counts are those of
agents that were read once, connected and disconnected ones together make up the
size, and unless there are too many, the gauges of each agent are those it had at
one moment. -/
theorem scrape_consistent (perAgentLimit : ℤ) (R : Replica) (db : Database) (acts acts' : List Act)
    (s : (Replica × Database) × Walk FleetStats)
    (t : (Replica × Database) × Walk (List AgentSeries)) (routes : List ConnRoute)
    (hrun : run (step count) ((R, db), ⟨0, zero⟩) acts = some s)
    (hend : s.2.shard = s.1.1.registry.count)
    (hrun' : run (step collectSeries) (s.1, ⟨0, []⟩) acts' = some t)
    (hend' : t.2.shard = t.1.1.registry.count)
    (hroutes : FinMap.Enumerates routes s.2.acc.connected.keys) :
    ((collect perAgentLimit routes s.2.acc t.2.acc).map Metric.series).Nodup ∧
      (∃ agents, ReadOnce count ((R, db), ⟨0, zero⟩) acts agents ∧ s.2.acc = countsOf agents) ∧
      routed s.2.acc.connected + s.2.acc.disconnected = s.2.acc.size ∧
      ∀ id, ∃ u, Visits (step collectSeries) (s.1, ⟨0, []⟩) acts' u ∧ u.1.1.sectionOf id = none ∧
        gauges id (collect perAgentLimit routes s.2.acc t.2.acc) =
          if perAgentLimit < s.2.acc.size then []
          else ((u.1.1.registry.get id).toList.map seriesOf).flatMap agentMetrics := by
  obtain ⟨agents, hstats, hread⟩ := exists_readOnce hrun hend
  obtain ⟨agents', hseries, hread'⟩ := exists_readOnce hrun' hend'
  rw [foldl_count_eq] at hstats
  rw [foldl_collectSeries, List.nil_append] at hseries
  refine ⟨?_, ⟨agents, hread, hstats⟩, ?_, fun id => ?_⟩
  · rw [hseries]
    exact nodup_series_collect hroutes.nodup _ _ hread'.nodup
  · rw [hstats]
    change routed (FleetCounts.routes agents) + agents.countP (fun a => !a.connected) = agents.length
    rw [routed_routes]
    exact countP_add_countP_not _ agents
  · obtain ⟨u, hvisits, hfree, hentries⟩ := hread'.moment id
    refine ⟨u, hvisits, hfree, ?_⟩
    rw [gauges_collect, hseries, gauges_agentMetrics, hentries]

open Message in
/-- The agent is counted, disconnected between the two walks, and listed. -/
theorem scrape_consistent_disconnected :
    ∃ s t, run (step count) ((small "a", Database.empty), ⟨0, zero⟩)
        ((heartbeatActs 0).map .replica ++ [.read [zeroUID]]) = some s ∧
      run (step collectSeries) (s.1, ⟨0, []⟩)
        (closeActs.map .replica ++ [.read [zeroUID]]) = some t ∧
      s.2.acc.size = 1 ∧ t.2.acc = [seriesOf (heardAt 0 0)] ∧
      ((collect 1 [routeOf (heardAt 0 0)] s.2.acc t.2.acc).map Metric.series).Nodup := by
  obtain ⟨s, hrun, hend, hsize, hkeys, hnext⟩ : ∃ s,
      run (step count) ((small "a", Database.empty), ⟨0, zero⟩)
        ((heartbeatActs 0).map .replica ++ [.read [zeroUID]]) = some s ∧
      s.2.shard = s.1.1.registry.count ∧ s.2.acc.size = 1 ∧
      FinMap.Enumerates [routeOf (heardAt 0 0)] s.2.acc.connected.keys ∧
      (run (step collectSeries) (s.1, ⟨0, []⟩)
        (closeActs.map .replica ++ [.read [zeroUID]])).any fun t =>
          decide (t.2.shard = t.1.1.registry.count ∧ t.2.acc = [seriesOf (heardAt 0 0)]) :=
    exists_run_of_any (by decide +kernel)
  obtain ⟨t, hrun', hend', hseries⟩ := exists_run_of_any hnext
  exact ⟨s, t, hrun, hrun', hsize, hseries,
    (scrape_consistent 1 _ _ _ _ s t _ hrun hend hrun' hend' hkeys).1⟩

end Grex.Scrape
