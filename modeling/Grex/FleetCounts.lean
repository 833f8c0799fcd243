import Grex.Filtering
import Mathlib.Algebra.BigOperators.Group.Finset.Basic

/-!
The numbers shown about the fleet. Metrics, the API, the status page, the filters and
the jobs each walk the agents on their own; every counter is the number of agents with
one property, so the walks agree whatever order they take.
-/

namespace Grex.FleetCounts

open AgentState FleetStats Matchers Filtering

/-! ### Status pages -/

/-- The counts of `GET /api/status`. -/
structure ApiStats where
  total : ℕ := 0
  connected : ℕ := 0
  disconnected : ℕ := 0
  healthy : ℕ := 0
  unhealthy : ℕ := 0
  healthUnknown : ℕ := 0
  awaitingFullState : ℕ := 0
  deriving DecidableEq

def ApiStats.add (stats : ApiStats) (a : Agent) : ApiStats :=
  let stats :=
    if a.connected then { stats with connected := stats.connected + 1 }
    else { stats with disconnected := stats.disconnected + 1 }
  let stats :=
    if !a.descriptionReported then { stats with awaitingFullState := stats.awaitingFullState + 1 }
    else stats
  if !a.healthReported then { stats with healthUnknown := stats.healthUnknown + 1 }
  else if a.healthy then { stats with healthy := stats.healthy + 1 }
  else { stats with unhealthy := stats.unhealthy + 1 }

def status (r : Registry) (orders : ℕ → List String) : ApiStats :=
  let agents := r.list orders
  agents.foldl ApiStats.add { total := agents.length }

/-- The counts of the status page. -/
structure StatusView where
  total : ℕ := 0
  connected : ℕ := 0
  disconnected : ℕ := 0
  awaiting : ℕ := 0
  healthUnknown : ℕ := 0
  healthy : ℕ := 0
  unhealthy : ℕ := 0
  deriving DecidableEq

def StatusView.add (sv : StatusView) (a : Agent) : StatusView :=
  let sv :=
    if a.connected then { sv with connected := sv.connected + 1 }
    else { sv with disconnected := sv.disconnected + 1 }
  let sv :=
    if !a.descriptionReported then { sv with awaiting := sv.awaiting + 1 }
    else sv
  if !a.healthReported then { sv with healthUnknown := sv.healthUnknown + 1 }
  else if a.healthy then { sv with healthy := sv.healthy + 1 }
  else { sv with unhealthy := sv.unhealthy + 1 }

def statusData (r : Registry) (orders : ℕ → List String) : StatusView :=
  let agents := r.list orders
  agents.foldl StatusView.add { total := agents.length }

/-! ### Job targets -/

def rejectionReasonNotSupervisorManaged : String := "not supervisor_managed"

structure RejectedTarget where
  instanceUID : String
  reason : String
  deriving DecidableEq

/-- The uid joins the accepted ones, or the rejected ones with the reason. -/
def place (split : List String × List RejectedTarget) (a : Agent) :
    List String × List RejectedTarget :=
  let (accepted, rejected) := split
  if !AgentState.supervisorManaged a then
    (accepted, rejected ++ [⟨a.instanceUID, rejectionReasonNotSupervisorManaged⟩])
  else (accepted ++ [a.instanceUID], rejected)

/-- The uids a job may target, and the others with the reason. -/
def partitionJobTargets (agents : List Agent) : List String × List RejectedTarget :=
  agents.foldl place ([], [])

/-! ### Counters -/

/-- A counter that starts at zero, and that a turn of the loop moves for the agents with
one property. -/
theorem foldl_counter {σ : Type} (turn : σ → Agent → σ) (field : σ → ℕ) (p : Agent → Bool)
    (hturn : ∀ s a, field (turn s a) = field s + (p a).toNat) {s : σ} (hs : field s = 0)
    (l : List Agent) : field (l.foldl turn s) = l.countP p := by
  have hrun : ∀ s, field (l.foldl turn s) = field s + l.countP p := by
    induction l with
    | nil => simp
    | cons a l ih =>
      intro s
      rw [List.foldl_cons, ih, hturn, List.countP_cons]
      cases p a with
      | false => simp
      | true =>
        simp only [Bool.toNat_true, if_true]
        omega
  rw [hrun, hs, Nat.zero_add]

/-- Connected on a route. -/
def onRoute (route : ConnRoute) (a : Agent) : Bool := a.connected && decide (routeOf a = route)

/-- The connected agents of a list by route. -/
def routes (l : List Agent) : FinMap ConnRoute ℕ where
  find route := if l.countP (onRoute route) = 0 then none else some (l.countP (onRoute route))
  keys := ((l.filter fun a => a.connected).map routeOf).toFinset
  mem_keys route := by
    have hpos : route ∈ ((l.filter fun a => a.connected).map routeOf).toFinset ↔
        0 < l.countP (onRoute route) := by
      rw [List.countP_pos_iff]
      simp [onRoute, and_assoc]
    rw [hpos]
    split_ifs with hzero
    · simp [hzero]
    · simpa using Nat.pos_of_ne_zero hzero

/-- The counts of a list of agents. -/
def countsOf (l : List Agent) : FleetStats where
  size := l.length
  connected := routes l
  disconnected := l.countP fun a => !a.connected
  noncompliant := l.countP fun a => decide (0 < a.missingAttributes.length)
  supervisorManaged := l.countP AgentState.supervisorManaged
  awaitingFullState := l.countP fun a => !a.descriptionReported

theorem find_connected_count (route : ConnRoute) (stats : FleetStats) (a : Agent) :
    (stats.count a).connected.find route =
      if onRoute route a then some ((stats.connected.find route).getD 0 + 1)
      else stats.connected.find route := by
  unfold count onRoute
  cases a.connected with
  | false => rfl
  | true =>
    simp only [if_true, Bool.true_and, decide_eq_true_eq, find_increment]
    by_cases hroute : routeOf a = route
    · rw [if_pos hroute.symm, if_pos hroute, hroute]
    · rw [if_neg (Ne.symm hroute), if_neg hroute]

theorem find_connected_foldl (route : ConnRoute) (l : List Agent) (stats : FleetStats) :
    (l.foldl count stats).connected.find route =
      if l.countP (onRoute route) = 0 then stats.connected.find route
      else some ((stats.connected.find route).getD 0 + l.countP (onRoute route)) := by
  induction l generalizing stats with
  | nil => simp
  | cons a l ih =>
    rw [List.foldl_cons, ih, find_connected_count, List.countP_cons]
    by_cases ha : onRoute route a = true
    · by_cases hrest : l.countP (onRoute route) = 0
      · simp [ha, hrest]
      · simp only [ha, hrest, if_true, if_false, Option.getD_some, Nat.add_eq_zero_iff]
        simp
        omega
    · simp [ha]

/-- Counting agents one by one gives the counts of the list. -/
theorem foldl_count_eq (l : List Agent) : l.foldl count zero = countsOf l := by
  have hsize : (l.foldl count zero).size = l.length := by
    rw [foldl_counter count FleetStats.size (fun _ => true) (fun _ _ => rfl) rfl, List.countP_true]
  have hconnected : (l.foldl count zero).connected = routes l := by
    ext1 route
    rw [find_connected_foldl]
    simp [zero, routes]
  have hdisconnected : (l.foldl count zero).disconnected = l.countP fun a => !a.connected := by
    refine foldl_counter count FleetStats.disconnected _ (fun s a => ?_) rfl l
    unfold count
    cases a.connected <;> rfl
  have hnoncompliant : (l.foldl count zero).noncompliant =
      l.countP fun a => decide (0 < a.missingAttributes.length) := by
    refine foldl_counter count FleetStats.noncompliant _ (fun s a => ?_) rfl l
    unfold count
    by_cases ha : 0 < a.missingAttributes.length <;> simp [ha]
  have hmanaged : (l.foldl count zero).supervisorManaged = l.countP AgentState.supervisorManaged := by
    refine foldl_counter count FleetStats.supervisorManaged _ (fun s a => ?_) rfl l
    unfold count
    cases AgentState.supervisorManaged a <;> rfl
  have hawaiting : (l.foldl count zero).awaitingFullState =
      l.countP fun a => !a.descriptionReported := by
    refine foldl_counter count FleetStats.awaitingFullState _ (fun s a => ?_) rfl l
    unfold count
    cases a.descriptionReported <;> rfl
  unfold countsOf
  rw [← hsize, ← hconnected, ← hdisconnected, ← hnoncompliant, ← hmanaged, ← hawaiting]

/-- The counts do not depend on the order of the list. -/
theorem countsOf_perm {l l' : List Agent} (h : l.Perm l') : countsOf l = countsOf l' := by
  rw [← foldl_count_eq, ← foldl_count_eq]
  exact h.foldl_eq zero

theorem aggregate_eq {r : Registry} {orders orders' : ℕ → List String} (horders : r.Orders orders)
    (horders' : r.Orders orders') : aggregate r orders = countsOf (r.list orders') := by
  rw [aggregate_eq_foldl, foldl_count_eq]
  exact countsOf_perm (Registry.perm_list (fun _ => rfl) horders horders')

/-- The agents connected on all routes together. -/
def routed (connected : FinMap ConnRoute ℕ) : ℕ :=
  ∑ route ∈ connected.keys, (connected.find route).getD 0

theorem routed_routes (l : List Agent) : routed (routes l) = l.countP fun a => a.connected := by
  have hcount : ∀ route, ((routes l).find route).getD 0 =
      ((l.filter fun a => a.connected).map routeOf).count route := by
    intro route
    have hroute : ((l.filter fun a => a.connected).map routeOf).count route =
        l.countP (onRoute route) := by
      rw [List.count_eq_countP, List.countP_map, List.countP_filter]
      apply List.countP_congr
      intro a _
      simp [onRoute, and_comm]
    rw [hroute]
    unfold routes
    simp only
    split_ifs with hzero
    · exact hzero.symm
    · rfl
  unfold routed
  rw [Finset.sum_congr rfl fun route _ => hcount route]
  show ∑ route ∈ ((l.filter fun a => a.connected).map routeOf).toFinset, _ = _
  rw [List.sum_toFinset_count_eq_length, List.length_map, List.countP_eq_length_filter]

/-! ### The other walks -/

/-- A turn of the API's loop moves one of the two counters of presence and one of the
three of health. -/
theorem ApiStats.add_eq (stats : ApiStats) (a : Agent) : stats.add a =
    { total := stats.total
      connected := stats.connected + a.connected.toNat
      disconnected := stats.disconnected + (!a.connected).toNat
      healthy := stats.healthy + (a.healthReported && a.healthy).toNat
      unhealthy := stats.unhealthy + (a.healthReported && !a.healthy).toNat
      healthUnknown := stats.healthUnknown + (!a.healthReported).toNat
      awaitingFullState := stats.awaitingFullState + (!a.descriptionReported).toNat } := by
  unfold ApiStats.add
  cases a.connected <;> cases a.descriptionReported <;> cases a.healthReported <;>
    cases a.healthy <;> rfl

/-- The counts of the API. -/
theorem status_eq (r : Registry) (orders : ℕ → List String) : status r orders =
    { total := (r.list orders).length
      connected := (r.list orders).countP fun a => a.connected
      disconnected := (r.list orders).countP fun a => !a.connected
      healthy := (r.list orders).countP fun a => a.healthReported && a.healthy
      unhealthy := (r.list orders).countP fun a => a.healthReported && !a.healthy
      healthUnknown := (r.list orders).countP fun a => !a.healthReported
      awaitingFullState := (r.list orders).countP fun a => !a.descriptionReported } := by
  have hfield : ∀ (field : ApiStats → ℕ) (p : Agent → Bool),
      (∀ stats a, field (stats.add a) = field stats + (p a).toNat) →
      field { total := (r.list orders).length } = 0 →
      field (status r orders) = (r.list orders).countP p := fun field p hturn hzero =>
    foldl_counter ApiStats.add field p hturn hzero _
  have htotal : ∀ (l : List Agent) stats, (l.foldl ApiStats.add stats).total = stats.total := by
    intro l
    induction l with
    | nil => exact fun _ => rfl
    | cons a l ih =>
      intro stats
      rw [List.foldl_cons, ih, ApiStats.add_eq]
  have hlength : (status r orders).total = (r.list orders).length := htotal _ _
  rw [← hfield ApiStats.connected _ (fun _ _ => by rw [ApiStats.add_eq]) rfl,
    ← hfield ApiStats.disconnected _ (fun _ _ => by rw [ApiStats.add_eq]) rfl,
    ← hfield ApiStats.healthy _ (fun _ _ => by rw [ApiStats.add_eq]) rfl,
    ← hfield ApiStats.unhealthy _ (fun _ _ => by rw [ApiStats.add_eq]) rfl,
    ← hfield ApiStats.healthUnknown _ (fun _ _ => by rw [ApiStats.add_eq]) rfl,
    ← hfield ApiStats.awaitingFullState _ (fun _ _ => by rw [ApiStats.add_eq]) rfl, ← hlength]

theorem status_order_independent {r : Registry} {orders orders' : ℕ → List String}
    (horders : r.Orders orders) (horders' : r.Orders orders') :
    status r orders = status r orders' := by
  have hperm : (r.list orders).Perm (r.list orders') :=
    Registry.perm_list (fun _ => rfl) horders horders'
  simp only [status_eq, hperm.length_eq, hperm.countP_eq]

/-- The counts of the API under the names of the status page. -/
def ApiStats.view (stats : ApiStats) : StatusView where
  total := stats.total
  connected := stats.connected
  disconnected := stats.disconnected
  awaiting := stats.awaitingFullState
  healthUnknown := stats.healthUnknown
  healthy := stats.healthy
  unhealthy := stats.unhealthy

/-- The two status pages count alike. -/
theorem statusData_eq (r : Registry) (orders : ℕ → List String) :
    statusData r orders = (status r orders).view := by
  have hturn : ∀ stats a, StatusView.add (ApiStats.view stats) a = (ApiStats.add stats a).view := by
    intro stats a
    unfold ApiStats.add StatusView.add
    cases a.connected <;> cases a.descriptionReported <;> cases a.healthReported <;>
      cases a.healthy <;> rfl
  show (r.list orders).foldl StatusView.add (ApiStats.view { total := (r.list orders).length }) = _
  exact List.foldl_hom ApiStats.view hturn

theorem partitionJobTargets_eq (agents : List Agent) : partitionJobTargets agents =
    ((agents.filter AgentState.supervisorManaged).map Agent.instanceUID,
      (agents.filter fun a => !AgentState.supervisorManaged a).map
        fun a => ⟨a.instanceUID, rejectionReasonNotSupervisorManaged⟩) := by
  have hrun : ∀ accepted rejected, agents.foldl place (accepted, rejected) =
      (accepted ++ (agents.filter AgentState.supervisorManaged).map Agent.instanceUID,
        rejected ++ (agents.filter fun a => !AgentState.supervisorManaged a).map
          fun a => ⟨a.instanceUID, rejectionReasonNotSupervisorManaged⟩) := by
    induction agents with
    | nil => simp
    | cons a agents ih =>
      intro accepted rejected
      rw [List.foldl_cons]
      cases ha : AgentState.supervisorManaged a with
      | false => simp [place, ha, ih]
      | true => simp [place, ha, ih]
  exact hrun [] []

/-- Every target is accepted or rejected, and only once. -/
theorem partitionJobTargets_perm (agents : List Agent) :
    ((partitionJobTargets agents).1 ++
      (partitionJobTargets agents).2.map RejectedTarget.instanceUID).Perm
      (agents.map Agent.instanceUID) := by
  rw [partitionJobTargets_eq, List.map_map]
  show ((agents.filter AgentState.supervisorManaged).map Agent.instanceUID ++
    (agents.filter fun a => !AgentState.supervisorManaged a).map Agent.instanceUID).Perm _
  rw [← List.map_append]
  exact (List.filter_append_perm AgentState.supervisorManaged agents).map _

/-! ### The filter on supervised agents -/

def managedQuery : Query := Query.single BoolField.supervisorManaged.name "true"

theorem parseFilters_managedQuery (rt : Runtime) {order : List String}
    (horder : FinMap.Enumerates order managedQuery.keys) : parseFilters rt managedQuery order =
      .ok ⟨[], (∅ : FinMap BoolField Bool).insert .supervisorManaged true⟩ := by
  have hkeys : managedQuery.keys = {BoolField.supervisorManaged.name} := rfl
  have hone : order.Perm [BoolField.supervisorManaged.name] := by
    refine (List.perm_ext_iff_of_nodup horder.nodup (List.nodup_singleton _)).mpr fun key => ?_
    rw [horder.mem_iff, hkeys, Finset.mem_singleton, List.mem_singleton]
  rw [List.perm_singleton.mp hone]
  rfl

/-- The filter selects the supervised agents. -/
theorem matchingAgents_managedQuery {rt : Runtime} {order : List String} {f : Filters}
    (horder : FinMap.Enumerates order managedQuery.keys)
    (hf : parseFilters rt managedQuery order = .ok f) {orders : ℕ → List BoolField}
    (horders : ∀ i, FinMap.Enumerates (orders i) f.bools.keys) (agents : List Agent) :
    matchingAgents orders agents f = agents.filter AgentState.supervisorManaged := by
  apply matchingAgents_eq_filter horders
  intro a
  rw [parseFilters_managedQuery rt horder, Except.ok.injEq] at hf
  subst hf
  constructor
  · intro ha
    refine ⟨fun _ hm => absurd hm List.not_mem_nil, fun field want hfind => ?_⟩
    rw [FinMap.find_set] at hfind
    split_ifs at hfind with hfield
    rw [hfield, ← Option.some.inj hfind]
    exact ha
  · intro hholds
    exact hholds.2 .supervisorManaged true (FinMap.find_set_self _ _ _)

/-! ### Agreement -/

/-- The numbers shown by metrics, by the API and by the status page. -/
structure Agree (stats : FleetStats) (api : ApiStats) (ui : StatusView) : Prop where
  total : api.total = stats.size ∧ ui.total = stats.size
  connected : api.connected = routed stats.connected ∧ ui.connected = routed stats.connected
  disconnected : api.disconnected = stats.disconnected ∧ ui.disconnected = stats.disconnected
  awaiting : api.awaitingFullState = stats.awaitingFullState ∧
    ui.awaiting = stats.awaitingFullState
  health : api.healthy + api.unhealthy + api.healthUnknown = api.total ∧
    ui.healthy + ui.unhealthy + ui.healthUnknown = ui.total

theorem countP_add_countP_not (p : Agent → Bool) (l : List Agent) :
    l.countP p + l.countP (fun a => !p a) = l.length := by
  rw [l.length_eq_countP_add_countP p]
  simp

/-- Reported healthy, reported unhealthy or never reported. -/
theorem countP_health (l : List Agent) :
    (l.countP fun a => a.healthReported && a.healthy) +
        (l.countP fun a => a.healthReported && !a.healthy) +
      (l.countP fun a => !a.healthReported) = l.length := by
  have hreported := countP_add_countP_not Agent.healthy (l.filter Agent.healthReported)
  rw [List.countP_filter, List.countP_filter, ← List.countP_eq_length_filter] at hreported
  rw [← countP_add_countP_not Agent.healthReported l, ← hreported]
  simp only [Bool.and_comm]

theorem agree {r : Registry} {orders forApi forUi : ℕ → List String} (horders : r.Orders orders)
    (hapi : r.Orders forApi) (hui : r.Orders forUi) :
    Agree (aggregate r orders) (status r forApi) (statusData r forUi) := by
  have hboth : Agree (countsOf (r.list forApi)) (status r forApi) (status r forApi).view := by
    rw [status_eq]
    refine ⟨⟨rfl, rfl⟩, ?_, ⟨rfl, rfl⟩, ⟨rfl, rfl⟩, countP_health _, countP_health _⟩
    unfold countsOf
    rw [routed_routes]
    exact ⟨rfl, rfl⟩
  rw [aggregate_eq horders hapi, statusData_eq, status_order_independent hui hapi]
  exact hboth

/-- However the agents are walked, the aggregate is the count over the list, its
connected and disconnected agents are all of them, both status pages show its numbers,
and its supervised agents are the ones the filter selects and a job accepts. -/
theorem fleet_counters_agree (rt : Runtime) (r : Registry)
    (forAggregate forList forApi forUi : ℕ → List String) (haggregate : r.Orders forAggregate)
    (hlist : r.Orders forList) (hapi : r.Orders forApi) (hui : r.Orders forUi) :
    aggregate r forAggregate = countsOf (r.list forList) ∧
      routed (aggregate r forAggregate).connected + (aggregate r forAggregate).disconnected =
        (aggregate r forAggregate).size ∧
      Agree (aggregate r forAggregate) (status r forApi) (statusData r forUi) ∧
      (∀ order, FinMap.Enumerates order managedQuery.keys →
        ∃ f, parseFilters rt managedQuery order = .ok f ∧
          ∀ orders : ℕ → List BoolField, (∀ i, FinMap.Enumerates (orders i) f.bools.keys) →
            (matchingAgents orders (r.list forList) f).length =
              (aggregate r forAggregate).supervisorManaged) ∧
      (partitionJobTargets (r.list forList)).1.length =
        (aggregate r forAggregate).supervisorManaged ∧
      ((partitionJobTargets (r.list forList)).1 ++
        (partitionJobTargets (r.list forList)).2.map RejectedTarget.instanceUID).Perm
        ((r.list forList).map Agent.instanceUID) ∧
      ((r.list forList).map Agent.instanceUID).Nodup := by
  have hcounts := aggregate_eq haggregate hlist
  have hmanaged : (aggregate r forAggregate).supervisorManaged =
      ((r.list forList).filter AgentState.supervisorManaged).length := by
    rw [hcounts]
    exact List.countP_eq_length_filter
  refine ⟨hcounts, ?_, agree haggregate hapi hui, fun order horder => ?_, ?_,
    partitionJobTargets_perm _, r.nodup_list forList hlist⟩
  · rw [hcounts]
    unfold countsOf
    rw [routed_routes]
    exact countP_add_countP_not _ _
  · refine ⟨_, parseFilters_managedQuery rt horder, fun orders horders => ?_⟩
    rw [matchingAgents_managedQuery horder (parseFilters_managedQuery rt horder) horders, hmanaged]
  · rw [partitionJobTargets_eq, List.length_map, hmanaged]

/-- An agent that is managed by a supervisor. -/
def managedAgent : Agent :=
  { instanceUID := "a"
    connected := true
    nonIdentifying :=
      (∅ : FinMap String String).insert "opamp.managed_by" supervisorManagedByValue }

theorem keyed_self (a : Agent) : AgentProgram.Keyed a.instanceUID (some a) := by
  rintro _ ⟨⟩
  rfl

/-- With one that is not, and one that is gone. -/
def mixedFleet : Registry :=
  (((Registry.new ⟨30, 3, [], 1⟩).put "a" (some managedAgent) (keyed_self _)).put "b"
    (some { instanceUID := "b", connected := true }) (keyed_self _)).put "c"
    (some { instanceUID := "c" }) (keyed_self _)

def mixedUIDs : List String := ["a", "b", "c"]

theorem orders_mixedUIDs : (mixedFleet.Orders fun _ => mixedUIDs) ∧
    mixedFleet.Orders fun _ => mixedUIDs.reverse := by
  decide +kernel

theorem aggregate_mixedFleet :
    (aggregate mixedFleet fun _ => mixedUIDs).size = 3 ∧
      (aggregate mixedFleet fun _ => mixedUIDs).disconnected = 1 ∧
      (aggregate mixedFleet fun _ => mixedUIDs).supervisorManaged = 1 := by
  decide +kernel

theorem uids_mixedFleet : (mixedFleet.list fun _ => mixedUIDs.reverse).map Agent.instanceUID =
    mixedUIDs.reverse := by
  decide +kernel

/-- The metrics and the status page walk the agents one way, the list and the API the
other way. -/
theorem fleet_counters_agree_mixed :
    aggregate mixedFleet (fun _ => mixedUIDs) =
        countsOf (mixedFleet.list fun _ => mixedUIDs.reverse) ∧
      routed (aggregate mixedFleet fun _ => mixedUIDs).connected + 1 = 3 ∧
      Agree (aggregate mixedFleet fun _ => mixedUIDs)
        (status mixedFleet fun _ => mixedUIDs.reverse) (statusData mixedFleet fun _ => mixedUIDs) ∧
      (∃ f, parseFilters .core managedQuery [BoolField.supervisorManaged.name] = .ok f ∧
        ∀ orders : ℕ → List BoolField, (∀ i, FinMap.Enumerates (orders i) f.bools.keys) →
          (matchingAgents orders (mixedFleet.list fun _ => mixedUIDs.reverse) f).length = 1) ∧
      (partitionJobTargets (mixedFleet.list fun _ => mixedUIDs.reverse)).1.length = 1 ∧
      ((partitionJobTargets (mixedFleet.list fun _ => mixedUIDs.reverse)).1 ++
        (partitionJobTargets (mixedFleet.list fun _ => mixedUIDs.reverse)).2.map
          RejectedTarget.instanceUID).Perm mixedUIDs.reverse := by
  obtain ⟨hsize, hgone, hmanaged⟩ := aggregate_mixedFleet
  obtain ⟨hcounts, hsum, hagree, hfilter, hjobs, hperm, -⟩ := fleet_counters_agree .core mixedFleet
    (fun _ => mixedUIDs) (fun _ => mixedUIDs.reverse) (fun _ => mixedUIDs.reverse)
    (fun _ => mixedUIDs) orders_mixedUIDs.1 orders_mixedUIDs.2 orders_mixedUIDs.2 orders_mixedUIDs.1
  rw [hsize, hgone] at hsum
  rw [hmanaged] at hfilter hjobs
  rw [uids_mixedFleet] at hperm
  exact ⟨hcounts, hsum, hagree, hfilter _ (by decide), hjobs, hperm⟩

end Grex.FleetCounts
