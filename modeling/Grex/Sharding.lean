import Grex.FleetStats
import Grex.Machine

/-!
The shards are invisible. A registry with any number of shards refines one flat
map of agents on which each call acts agent by agent, so two registries that
serve the same calls agree on every lookup, listing and count, on the ids each
sweep returns and on the notifications about each agent.
-/

namespace Grex.Sharding

open AgentState Message AgentProgram

/-- A call to the registry, without the iteration orders it happens to use. -/
inductive Request
  | report (now : ℤ) (msg : AgentToServer) (conn : ConnMeta)
  | setConnected (id : String) (connected : Bool)
  | sweep (now : ℤ)

def request : Registry.Op → Request
  | .report now msg conn => .report now msg conn
  | .setConnected id connected => .setConnected id connected
  | .sweep now _ => .sweep now

/-- The call as an operation, of which nothing but the orders depends on the shards. -/
def Request.op : Request → Registry.Op
  | .report now msg conn => .report now msg conn
  | .setConnected id connected => .setConnected id connected
  | .sweep now => .sweep now fun _ => []

/-- The fleet as one map from ids to agents. -/
structure FlatFleet where
  heartbeatInterval : ℤ
  staleMissedHeartbeats : ℤ
  requiredAttributes : List String
  agent : String → Option Agent

/-- The settings a call reads; the number of shards is none of them. -/
def FlatFleet.cfg (f : FlatFleet) : Config where
  heartbeatInterval := f.heartbeatInterval
  staleMissedHeartbeats := f.staleMissedHeartbeats
  requiredAttributes := f.requiredAttributes

/-- Serve a call on every agent by itself, and say what is notified of each. -/
def FlatFleet.serve (f : FlatFleet) (req : Request) : FlatFleet × (String → List Event) :=
  ({ f with agent := fun id => (runProgram (req.op.program f.cfg id) (f.agent id)).1 },
    fun id => (runProgram (req.op.program f.cfg id) (f.agent id)).2)

/-- What is left of a registry when its shards are forgotten. -/
def flat (r : Registry) : FlatFleet where
  heartbeatInterval := r.cfg.heartbeatInterval
  staleMissedHeartbeats := r.cfg.staleMissedHeartbeats
  requiredAttributes := r.cfg.requiredAttributes
  agent := r.get

theorem program_request (r : Registry) (op : Registry.Op) (id : String) :
    (request op).op.program (flat r).cfg id = op.program r.cfg id := by
  cases op <;> rfl

/-- Each call to a sharded registry is the same call to the flat fleet. -/
theorem serve_flat {r : Registry} {op : Registry.Op} {q : Registry × List Event}
    (h : r.step op = some q) :
    (flat r).serve (request op) = (flat q.1, fun id => eventsOf id q.2) := by
  have hslot := Registry.step_program h
  have hcfg := Registry.cfg_step h
  simp only [FlatFleet.serve, program_request, Prod.mk.injEq]
  constructor
  · simp only [flat, hcfg, FlatFleet.mk.injEq, true_and]
    funext id
    exact (hslot id).1.symm
  · funext id
    exact (hslot id).2.symm

/-- Every run of a sharded registry is a run of the flat fleet. -/
theorem trace_flat {r : Registry} {ops : List Registry.Op} {q : Registry × List (List Event)}
    (h : Machine.trace Registry.step r ops = some q) :
    Machine.trace (fun f req => some (f.serve req)) (flat r) (ops.map request) =
      some (flat q.1, q.2.map fun out id => eventsOf id out) :=
  Machine.trace_refines flat request (fun out id => eventsOf id out)
    (fun _ _ _ hstep => serve_flat hstep) h

/-- A registry with the given number of shards can serve the calls in this way. -/
def Serves (cfg : Config) (n : ℕ) (requests : List Request)
    (final : Registry × List (List Event)) : Prop :=
  ∃ ops : List Registry.Op, ops.map request = requests ∧
    Machine.trace Registry.step (Registry.new { cfg with shardCount := n }) ops = some final

/-- Every call can be served, whatever the registry holds. -/
theorem exists_step (r : Registry) (req : Request) :
    ∃ op q, request op = req ∧ r.step op = some q := by
  cases req with
  | report now msg conn => exact ⟨.report now msg conn, _, rfl, rfl⟩
  | setConnected id connected => exact ⟨.setConnected id connected, _, rfl, rfl⟩
  | sweep now =>
    obtain ⟨orders, horders⟩ := r.exists_orders
    exact ⟨.sweep now orders, _, rfl, if_pos horders⟩

theorem exists_trace (r : Registry) (requests : List Request) :
    ∃ ops q, ops.map request = requests ∧ Machine.trace Registry.step r ops = some q := by
  induction requests generalizing r with
  | nil => exact ⟨[], (r, []), rfl, rfl⟩
  | cons req requests ih =>
    obtain ⟨op, p, hop, hp⟩ := exists_step r req
    obtain ⟨ops, q, hops, hq⟩ := ih p.1
    refine ⟨op :: ops, (q.1, p.2 :: q.2), ?_, ?_⟩
    · rw [List.map_cons, hop, hops]
    · exact Machine.trace_cons_eq_some.mpr ⟨p, q.2, hp, hq, rfl⟩

/-- Two registries answer every query alike, up to the order of a listing. -/
structure SameAnswers (r r' : Registry) : Prop where
  get : ∀ id, r.get id = r'.get id
  list : ∀ orders orders', r.Orders orders → r'.Orders orders' →
    (r.list orders).Perm (r'.list orders')
  agentSeries : ∀ orders orders', r.Orders orders → r'.Orders orders' →
    (FleetStats.agentSeries r orders).Perm (FleetStats.agentSeries r' orders')
  aggregate : ∀ orders orders', r.Orders orders → r'.Orders orders' →
    FleetStats.aggregate r orders = FleetStats.aggregate r' orders'

theorem sameAnswers_of_get {r r' : Registry} (hget : ∀ id, r.get id = r'.get id) :
    SameAnswers r r' := by
  have hperm : ∀ orders orders', r.Orders orders → r'.Orders orders' →
      (r.list orders).Perm (r'.list orders') := fun _ _ => Registry.perm_list hget
  refine ⟨hget, hperm, fun orders orders' h h' => ?_, fun orders orders' h h' => ?_⟩
  · rw [FleetStats.agentSeries_eq_map, FleetStats.agentSeries_eq_map]
    exact (hperm orders orders' h h').map FleetStats.seriesOf
  · rw [FleetStats.aggregate_eq_foldl, FleetStats.aggregate_eq_foldl]
    exact (hperm orders orders' h h').foldl_eq FleetStats.zero

/-- No agent is listed twice. -/
def ListsOnce (r : Registry) : Prop :=
  ∀ orders, r.Orders orders →
    ((r.list orders).map Agent.instanceUID).Nodup ∧
      ((FleetStats.agentSeries r orders).map FleetStats.AgentSeries.instanceUID).Nodup

theorem listsOnce (r : Registry) : ListsOnce r := by
  intro orders horders
  have hnodup := r.nodup_list orders horders
  refine ⟨hnodup, ?_⟩
  rw [FleetStats.agentSeries_eq_map, List.map_map]
  exact hnodup

/-- Each agent is stored under its own uid, in the shard its uid hashes to and
in no other one. -/
def Placed (n : ℕ) (r : Registry) : Prop :=
  ∀ i id a, (r.shards i).find id = some a ↔
    a.instanceUID = id ∧ i = (Registry.fnv32a id).toNat % n ∧ r.get id = some a

theorem placed_of_count {n : ℕ} {r : Registry} (hcount : r.count = n) (hn : n < 2 ^ 32) :
    Placed n r := by
  intro i id a
  have hshard : r.shardFor id = (Registry.fnv32a id).toNat % n := by
    rw [Registry.shardFor, hcount, Registry.shardIndex_eq_mod hn]
  rw [r.find_shard i id, hshard]
  constructor
  · intro h
    split at h
    · rename_i hi
      exact ⟨r.get_keyed id a h, hi.symm, h⟩
    · cases h
  · intro h
    obtain ⟨_, hi, hget⟩ := h
    rw [if_pos hi.symm, hget]

theorem count_new (cfg : Config) {n : ℕ} (hn : 1 ≤ n) :
    (Registry.new { cfg with shardCount := n }).count = n := by
  simp only [Registry.new]
  split <;> omega

theorem placed_of_serves {cfg : Config} {n : ℕ} (hn : 1 ≤ n ∧ n < 2 ^ 32)
    {requests : List Request} {final : Registry × List (List Event)}
    (h : Serves cfg n requests final) : Placed n final.1 := by
  obtain ⟨ops, _, htrace⟩ := h
  refine placed_of_count ?_ hn.2
  exact Machine.trace_invariant (fun r => r.count = n)
    (fun _ _ _ hcount hstep => (Registry.count_step hstep).trans hcount) (count_new cfg hn.1) htrace

/-- Two registries that serve the same calls forget their shards to the same
fleet, and notify the same of every agent at every call. -/
theorem flat_of_serves {cfg : Config} {n m : ℕ} {requests : List Request}
    {final final' : Registry × List (List Event)} (h : Serves cfg n requests final)
    (h' : Serves cfg m requests final') :
    flat final.1 = flat final'.1 ∧
      (final.2.map fun out id => eventsOf id out) =
        final'.2.map fun out id => eventsOf id out := by
  obtain ⟨ops, hops, htrace⟩ := h
  obtain ⟨ops', hops', htrace'⟩ := h'
  have hflat := trace_flat htrace
  have hflat' := trace_flat htrace'
  rw [hops] at hflat
  rw [hops'] at hflat'
  exact Prod.mk.inj (Option.some.inj (hflat.symm.trans hflat'))

/-- The ids a sweep returns, as a set. -/
def returned (out : List Event) : Set String := {id | id ∈ Registry.evictedIds out}

/-- Whether an id is returned shows in what is notified of it. -/
theorem mem_returned (out : List Event) (id : String) :
    id ∈ returned out ↔ .agentEvicted id ∈ eventsOf id out :=
  Registry.mem_evictedIds.trans (mem_eventsOf_about (e := .agentEvicted id)).symm

theorem map_returned (outs : List (List Event)) :
    outs.map returned =
      (outs.map fun out id => eventsOf id out).map fun g => {id | .agentEvicted id ∈ g id} := by
  rw [List.map_map]
  refine List.map_congr_left fun out _ => ?_
  ext id
  exact mem_returned out id

/-- Shard counts, and the iteration orders of the maps, cannot be told apart. -/
theorem sharding_invisible (cfg : Config) (n m : ℕ) (hn : 1 ≤ n ∧ n < 2 ^ 32)
    (hm : 1 ≤ m ∧ m < 2 ^ 32) (requests : List Request) :
    (∃ final, Serves cfg n requests final) ∧ (∃ final, Serves cfg m requests final) ∧
      ∀ final final', Serves cfg n requests final → Serves cfg m requests final' →
        SameAnswers final.1 final'.1 ∧ ListsOnce final.1 ∧ ListsOnce final'.1 ∧
          final.2.map returned = final'.2.map returned ∧
          (∀ id, final.2.map (eventsOf id) = final'.2.map (eventsOf id)) ∧
          Placed n final.1 ∧ Placed m final'.1 := by
  have hexists : ∀ k, ∃ final, Serves cfg k requests final := by
    intro k
    obtain ⟨ops, q, hops, htrace⟩ := exists_trace (Registry.new { cfg with shardCount := k }) requests
    exact ⟨q, ops, hops, htrace⟩
  refine ⟨hexists n, hexists m, fun final final' h h' => ?_⟩
  obtain ⟨hfinal, houts⟩ := flat_of_serves h h'
  have hget : ∀ id, final.1.get id = final'.1.get id :=
    fun id => congrFun (congrArg FlatFleet.agent hfinal) id
  have hevents : ∀ id, final.2.map (eventsOf id) = final'.2.map (eventsOf id) := by
    intro id
    have hid := congrArg (List.map fun out : String → List Event => out id) houts
    rw [List.map_map, List.map_map] at hid
    exact hid
  refine ⟨sameAnswers_of_get hget, listsOnce _, listsOnce _, ?_, hevents,
    placed_of_serves hn h, placed_of_serves hm h'⟩
  rw [map_returned, map_returned, houts]

/-- Two agents are heard, the first one is marked and swept out. -/
def twoHeard : List Request :=
  [.report 0 heartbeat {}, .report 99000000000 secondHeartbeat {},
    .setConnected zeroUID false, .sweep 100000000000]

/-- One shard serves them, and its sweep walks both agents. -/
theorem one_shard_serves : ∃ final,
    Serves ⟨30000000000, 3, ["service.name"], 0⟩ 1 twoHeard final ∧
      final.1.get zeroUID = none ∧ (final.1.get secondUID).isSome ∧
      final.2.map Registry.evictedIds = [[], [], [], [zeroUID]] := by
  have hserved : (Machine.trace Registry.step (Registry.new ⟨30000000000, 3, ["service.name"], 1⟩)
      [.report 0 heartbeat {}, .report 99000000000 secondHeartbeat {},
        .setConnected zeroUID false, .sweep 100000000000 fun _ => [zeroUID, secondUID]]).any
      (fun final => decide (final.1.get zeroUID = none ∧ (final.1.get secondUID).isSome ∧
        final.2.map Registry.evictedIds = [[], [], [], [zeroUID]])) = true := by decide +kernel
  obtain ⟨final, htrace, hfinal⟩ := (Option.any_eq_true _ _).mp hserved
  exact ⟨final, ⟨_, rfl, htrace⟩, of_decide_eq_true hfinal⟩

/-- One shard against the default number of them. -/
theorem one_shard_as_many :
    ∃ final final', Serves ⟨30000000000, 3, ["service.name"], 0⟩ 1 twoHeard final ∧
      Serves ⟨30000000000, 3, ["service.name"], 0⟩ 256 twoHeard final' ∧
      SameAnswers final.1 final'.1 ∧
      final'.1.get zeroUID = none ∧ (final'.1.get secondUID).isSome ∧
      final.2.map Registry.evictedIds = [[], [], [], [zeroUID]] ∧
      final.2.map returned = final'.2.map returned ∧
      ∀ id, final.2.map (eventsOf id) = final'.2.map (eventsOf id) := by
  obtain ⟨-, ⟨final', h'⟩, hsame⟩ :=
    sharding_invisible ⟨30000000000, 3, ["service.name"], 0⟩ 1 256 (by decide) (by decide) twoHeard
  obtain ⟨final, h, hgone, hkept, hevicted⟩ := one_shard_serves
  obtain ⟨hanswers, -, -, hreturned, hevents, -⟩ := hsame final final' h h'
  exact ⟨final, final', h, h', hanswers, (hanswers.get _).symm.trans hgone,
    (hanswers.get secondUID) ▸ hkept, hevicted, hreturned, hevents⟩

end Grex.Sharding
