import Grex.AgentViews
import Grex.BoundedHeap
import Grex.Filtering
import Grex.FleetView
import Grex.SortedWindows

/-!
The list the read API serves, a page at a time. Each request lists the registry in
an order of its own, merges the stored agents in, filters, and picks a window of the
agents by uid; the windows fit together because the agents sorted by uid do not
depend on the order they were found in.
-/

namespace Grex.Pages

open GoText AgentState AgentViews Reads Matchers Filtering SortedWindows

/-! ### A page of agents -/

/-- The heap's order puts the largest uid at the root. -/
def uidKey (a : Agent) : OrderDual String := OrderDual.toDual a.instanceUID

def sortByInstanceUID (agents : List Agent) : List Agent := sortBy Agent.instanceUID agents

/-- `agents[start:stop]` by uid. A window short of the end is picked with a heap of
that size; `none` is an index out of range. -/
def pageByInstanceUID (agents : List Agent) (start stop : ℕ) : Option (List Agent) :=
  if stop = 0 then some []
  else if agents.length ≤ stop then slice (sortByInstanceUID agents) start stop
  else
    (agents.foldlM (Heap.offer uidKey stop) #[]).bind fun page =>
      slice (sortByInstanceUID page.toList) start stop

theorem pageByInstanceUID_eq {agents : List Agent} (hnodup : (agents.map Agent.instanceUID).Nodup)
    {start stop : ℕ} (hstart : start ≤ stop) (hstop : stop ≤ agents.length) :
    pageByInstanceUID agents start stop =
      some (((sortByInstanceUID agents).drop start).take (stop - start)) := by
  unfold pageByInstanceUID sortByInstanceUID
  by_cases hzero : stop = 0
  · rw [if_pos hzero, hzero, Nat.zero_sub, List.take_zero]
  · rw [if_neg hzero]
    by_cases hall : agents.length ≤ stop
    · rw [if_pos hall, slice_eq_some hstart (by rwa [length_sortBy])]
    · rw [if_neg hall]
      obtain ⟨page, hrun, hkeeps⟩ :=
        Heap.foldlM_offer (Heap.keeps_nil uidKey stop) (Nat.pos_of_ne_zero hzero) agents
      rw [List.nil_append] at hkeeps
      have hsize : page.toList.length = stop := by
        rw [Array.length_toList, hkeeps.size]
        omega
      obtain ⟨dropped, hperm, hle⟩ := hkeeps.dropped
      have hsplit := sortBy_of_split hnodup hperm fun a ha b hb =>
        OrderDual.toDual_le_toDual.mp (hle a ha b hb)
      have htake : (sortBy Agent.instanceUID agents).take stop =
          sortBy Agent.instanceUID page.toList := by
        rw [hsplit, List.take_left' (by rw [length_sortBy, hsize])]
      rw [hrun, Option.bind_some, slice_eq_some hstart (by rw [length_sortBy, hsize]), ← htake,
        List.drop_take, List.take_take, min_self]

/-! ### The request -/

def defaultLimit : ℕ := 100

def maxLimit : ℕ := 1000

/-- The limit of a request; a larger one is capped. -/
def parseLimit (q : Query) : Except String ℕ :=
  if q.get "limit" = "" then .ok defaultLimit
  else
    match atoi (q.get "limit") with
    | none => .error "limit must be a positive integer"
    | some n =>
        if n ≤ 0 then .error "limit must be a positive integer" else .ok (min n.toNat maxLimit)

def parseOffset (q : Query) : Except String ℕ :=
  if q.get "offset" = "" then .ok 0
  else
    match atoi (q.get "offset") with
    | none => .error "offset must be a non-negative integer"
    | some n => if n < 0 then .error "offset must be a non-negative integer" else .ok n.toNat

def parsePagination (q : Query) : Except String (ℕ × ℕ) := do
  let limit ← parseLimit q
  let offset ← parseOffset q
  return (limit, offset)

/-- What a handler reads from the store. A call that fails has no result; the
inner `none` of a lookup is an unknown agent. -/
structure Store where
  listAgents : Option (List Agent)
  getAgent : String → Option (Option Agent)

/-- The registry of this replica, and the store where one is configured. -/
structure Handler where
  registry : Registry
  store : Option Store

/-- The agents of the whole fleet, or those of the registry where the store cannot
be read; the flag tells so. -/
def Handler.mergedAgents (h : Handler) (orders : ℕ → List String) (now : ℤ) : List Agent × Bool :=
  let localAgents := h.registry.list orders
  match h.store with
  | none => (localAgents, false)
  | some store =>
      match store.listAgents with
      | none => (localAgents, true)
      | some dbAgents =>
          (mergeAgents localAgents dbAgents now h.registry.cfg.disconnectThreshold, false)

/-- The orders in which one request iterates over maps: the shards of the registry,
the query, and for each agent the fields of the filters. -/
structure Iteration where
  shards : ℕ → List String
  params : List String
  fields : ℕ → List BoolField

structure Iteration.Of (it : Iteration) (rt : Runtime) (r : Registry) (q : Query) : Prop where
  shards : r.Orders it.shards
  params : FinMap.Enumerates it.params q.keys
  fields : ∀ f, parseFilters rt q it.params = .ok f →
    ∀ i, FinMap.Enumerates (it.fields i) f.bools.keys

structure HTTPError where
  status : ℕ
  message : String
  deriving DecidableEq

structure ListResponse where
  agents : List AgentView
  total : ℕ
  limit : ℕ
  offset : ℕ
  isPartial : Bool
  deriving DecidableEq

/-- The agents a request is about; the API and the page select them in the same way. -/
def selectedAgents (rt : Runtime) (h : Handler) (it : Iteration) (now : ℤ) (q : Query) :
    Except String (List Agent × Bool) :=
  match parseFilters rt q it.params with
  | .error e => .error e
  | .ok filters =>
      let (mergedAgents, isPartial) := h.mergedAgents it.shards now
      .ok (matchingAgents it.fields mergedAgents filters, isPartial)

/-- `GET /api/agents`; the outer `none` is an index out of range. -/
def listAgents (rt : Runtime) (lower : String → String) (h : Handler) (it : Iteration) (now : ℤ)
    (q : Query) : Option (Except HTTPError ListResponse) :=
  match parsePagination q with
  | .error e => some (.error ⟨400, e⟩)
  | .ok (limit, offset) =>
      match selectedAgents rt h it now q with
      | .error e => some (.error ⟨400, e⟩)
      | .ok (agents, isPartial) =>
          let total := agents.length
          let start := min offset total
          let stop := min (start + limit) total
          (pageByInstanceUID agents start stop).map fun page =>
            .ok { agents := page.map (summaryView lower)
                  total := total
                  limit := limit
                  offset := offset
                  isPartial := isPartial }

/-! ### The fleet -/

/-- The agents the store lists; there are none without a store. -/
def Handler.Serves (h : Handler) (rows : List Agent) : Prop :=
  match h.store with
  | none => rows = []
  | some store => store.listAgents = some rows

/-- An agent of this registry, or a stored one that is neither registered here nor
evicted, with its presence corrected. -/
def InFleet (r : Registry) (rows : List Agent) (now : ℤ) (a : Agent) : Prop :=
  r.get a.instanceUID = some a ∨
    ∃ b ∈ rows, b.evictedAt = none ∧ r.get b.instanceUID = none ∧
      a = corrected now r.cfg.disconnectThreshold b

theorem mergedAgents_eq {h : Handler} {rows : List Agent} (hserves : h.Serves rows)
    (orders : ℕ → List String) (now : ℤ) :
    h.mergedAgents orders now =
      (mergeAgents (h.registry.list orders) rows now h.registry.cfg.disconnectThreshold, false) := by
  unfold Handler.Serves at hserves
  unfold Handler.mergedAgents
  cases hstore : h.store with
  | none =>
    rw [hstore] at hserves
    simp [hserves, mergeAgents]
  | some store =>
    rw [hstore] at hserves
    simp [hserves]

theorem any_list_eq_false {r : Registry} {orders : ℕ → List String} (horders : r.Orders orders)
    (id : String) : ((r.list orders).any fun b => b.instanceUID == id) = false ↔ r.get id = none := by
  rw [List.any_eq_false]
  constructor
  · intro h
    cases hget : r.get id with
    | none => rfl
    | some a =>
      have hid := r.get_keyed id a hget
      exact absurd (beq_iff_eq.mpr hid) (h a ((r.mem_list orders horders a).mpr (hid ▸ hget)))
  · intro hget b hb heq
    have hlisted := (r.mem_list orders horders b).mp hb
    rw [beq_iff_eq.mp heq, hget] at hlisted
    cases hlisted

theorem mem_merged {r : Registry} {orders : ℕ → List String} (horders : r.Orders orders)
    (rows : List Agent) (now : ℤ) (a : Agent) :
    a ∈ mergeAgents (r.list orders) rows now r.cfg.disconnectThreshold ↔ InFleet r rows now a := by
  unfold mergeAgents InFleet
  rw [List.mem_append, r.mem_list orders horders]
  apply or_congr_right
  simp only [List.mem_map, List.mem_filter, Bool.and_eq_true, Bool.not_eq_true',
    any_list_eq_false horders, Option.isNone_iff_eq_none]
  constructor
  · rintro ⟨b, ⟨hb, hget, hlive⟩, rfl⟩
    exact ⟨b, hb, hlive, hget, rfl⟩
  · rintro ⟨b, hb, hlive, hget, rfl⟩
    exact ⟨b, ⟨hb, hget, hlive⟩, rfl⟩

theorem nodup_merged {r : Registry} {orders : ℕ → List String} (horders : r.Orders orders)
    {rows : List Agent} (hrows : (rows.map Agent.instanceUID).Nodup) (now : ℤ) :
    ((mergeAgents (r.list orders) rows now r.cfg.disconnectThreshold).map
      Agent.instanceUID).Nodup := by
  have hrecords := FleetView.nodup_mergeRecords (r.nodup_list orders horders) hrows
  rw [← FleetView.shown_mergeRecords, List.map_map]
  convert hrecords using 2
  funext rec
  exact rec.uid_shown now r.cfg.disconnectThreshold

/-- The agents of the fleet that satisfy the query. -/
def matched (rt : Runtime) (r : Registry) (rows : List Agent) (now : ℤ) (q : Query)
    (orders : ℕ → List String) : List Agent :=
  (mergeAgents (r.list orders) rows now r.cfg.disconnectThreshold).filter fun a =>
    decide (Satisfies rt q a)

theorem mem_matched {rt : Runtime} {r : Registry} {rows : List Agent} {now : ℤ} {q : Query}
    {orders : ℕ → List String} (horders : r.Orders orders) {a : Agent} :
    a ∈ matched rt r rows now q orders ↔ InFleet r rows now a ∧ Satisfies rt q a := by
  unfold matched
  rw [List.mem_filter, mem_merged horders, decide_eq_true_eq]

theorem nodup_matched {rt : Runtime} {r : Registry} {rows : List Agent} {now : ℤ} {q : Query}
    {orders : ℕ → List String} (horders : r.Orders orders)
    (hrows : (rows.map Agent.instanceUID).Nodup) :
    ((matched rt r rows now q orders).map Agent.instanceUID).Nodup :=
  (nodup_merged horders hrows now).sublist (List.filter_sublist.map _)

/-- Sorted by uid, the agents come in the same order whatever way the registry was
walked. -/
theorem sort_matched_eq {rt : Runtime} {r : Registry} {rows : List Agent} {now : ℤ} {q : Query}
    {orders orders' : ℕ → List String} (horders : r.Orders orders) (horders' : r.Orders orders')
    (hrows : (rows.map Agent.instanceUID).Nodup) :
    sortByInstanceUID (matched rt r rows now q orders) =
      sortByInstanceUID (matched rt r rows now q orders') := by
  apply (ascending_sortBy (nodup_matched horders hrows)).eq_of_mem_iff
    (ascending_sortBy (nodup_matched horders' hrows))
  intro a
  rw [mem_sortBy, mem_sortBy, mem_matched horders, mem_matched horders']

theorem selectedAgents_eq {rt : Runtime} {h : Handler} {rows : List Agent}
    (hserves : h.Serves rows) {it : Iteration} {q : Query} (hit : it.Of rt h.registry q) (now : ℤ)
    (hq : Accepted rt q) :
    selectedAgents rt h it now q = .ok (matched rt h.registry rows now q it.shards, false) := by
  obtain ⟨f, hf⟩ := (parseFilters_ok_iff hit.params).mpr hq
  have hmatching : matchingAgents it.fields (mergeAgents (h.registry.list it.shards) rows now
      h.registry.cfg.disconnectThreshold) f = matched rt h.registry rows now q it.shards :=
    matchingAgents_of_parse hit.params hf (hit.fields f hf) _
  unfold selectedAgents
  rw [hf, mergedAgents_eq hserves, ← hmatching]

/-- One page of an accepted request. -/
theorem listAgents_eq {rt : Runtime} (lower : String → String) {h : Handler} {rows : List Agent}
    (hserves : h.Serves rows) (hrows : (rows.map Agent.instanceUID).Nodup) {it : Iteration} {q : Query}
    (hit : it.Of rt h.registry q) (now : ℤ) (hq : Accepted rt q) {limit offset : ℕ}
    (hpage : parsePagination q = .ok (limit, offset)) :
    listAgents rt lower h it now q = some (.ok
      { agents := (((sortByInstanceUID (matched rt h.registry rows now q it.shards)).drop offset).take
          limit).map (summaryView lower)
        total := (matched rt h.registry rows now q it.shards).length
        limit := limit
        offset := offset
        isPartial := false }) := by
  unfold listAgents
  rw [hpage, selectedAgents_eq hserves hit now hq]
  simp only
  rw [pageByInstanceUID_eq (nodup_matched hit.shards hrows) (by omega) (min_le_right _ _)]
  have hwindow := clamped_window (sortByInstanceUID (matched rt h.registry rows now q it.shards))
    offset limit
  unfold sortByInstanceUID at hwindow ⊢
  rw [length_sortBy] at hwindow
  rw [Option.map_some, ← hwindow]

/-! ### Consecutive pages -/

/-- The query for the page at an offset. -/
def pageQuery (q : Query) (offset : ℕ) : Query := q.insert "offset" [offset.repr]

theorem values_pageQuery {q : Query} {offset : ℕ} {key : String} (hkey : key ≠ "offset") :
    (pageQuery q offset).values key = q.values key := by
  unfold Query.values pageQuery
  rw [FinMap.find_set_of_ne _ _ hkey]

theorem get_pageQuery {q : Query} {offset : ℕ} {key : String} (hkey : key ≠ "offset") :
    (pageQuery q offset).get key = q.get key := by
  unfold Query.get
  rw [values_pageQuery hkey]

theorem sameFilters_pageQuery (q : Query) (offset : ℕ) : SameFilters (pageQuery q offset) q where
  bare key hkey := by
    apply get_pageQuery
    rintro rfl
    exact hkey (by decide)
  repeated := values_pageQuery (by decide)
  attr_key := get_pageQuery (by decide)
  attr_value := get_pageQuery (by decide)

/-- An offset is read back from its decimal text. -/
theorem parsePagination_pageQuery {q : Query} {limit offset : ℕ} (hlimit : parseLimit q = .ok limit)
    (hoffset : offset < 2 ^ 63) : parsePagination (pageQuery q offset) = .ok (limit, offset) := by
  have hread := atoi_repr hoffset
  have hget : (pageQuery q offset).get "offset" = offset.repr := by
    simp [pageQuery, Query.get, Query.values]
  have hne : offset.repr ≠ "" := by
    intro hempty
    have hnone : atoi "" = none := by decide
    rw [hempty, hnone] at hread
    cases hread
  have hlimit' : parseLimit (pageQuery q offset) = .ok limit := by
    unfold parseLimit at hlimit ⊢
    rwa [get_pageQuery (by decide)]
  have hoffset' : parseOffset (pageQuery q offset) = .ok offset := by
    unfold parseOffset
    rw [hget, if_neg hne, hread]
    simp
  unfold parsePagination
  rw [hlimit', hoffset']
  rfl

theorem uids_summaryView (lower : String → String) (agents : List Agent) :
    (agents.map (summaryView lower)).map AgentView.instanceUID = agents.map Agent.instanceUID := by
  rw [List.map_map]
  exact List.map_congr_left fun _ _ => rfl

/-- The page at an offset is the same window whatever way its request and the listing
walked the registry. -/
theorem listAgents_pageQuery {rt : Runtime} (lower : String → String) {h : Handler}
    {rows : List Agent} (hserves : h.Serves rows) (hrows : (rows.map Agent.instanceUID).Nodup)
    {it : Iteration} {q : Query} {L offset : ℕ} (hit : it.Of rt h.registry (pageQuery q offset))
    (now : ℤ) (hq : Accepted rt q) (hlimit : parseLimit q = .ok L) (hoffset : offset < 2 ^ 63)
    {orders : ℕ → List String} (horders : h.registry.Orders orders) :
    listAgents rt lower h it now (pageQuery q offset) = some (.ok
      { agents := (((sortByInstanceUID (matched rt h.registry rows now q orders)).drop offset).take
          L).map (summaryView lower)
        total := (sortByInstanceUID (matched rt h.registry rows now q orders)).length
        limit := L
        offset := offset
        isPartial := false }) := by
  have hsame := sameFilters_pageQuery q offset
  have hmatched : matched rt h.registry rows now (pageQuery q offset) it.shards =
      matched rt h.registry rows now q it.shards := by
    apply List.filter_congr
    intro a _
    exact decide_eq_decide.mpr hsame.satisfies_iff
  have htotal : (matched rt h.registry rows now q it.shards).length =
      (sortByInstanceUID (matched rt h.registry rows now q it.shards)).length :=
    (length_sortBy _ _).symm
  rw [listAgents_eq lower hserves hrows hit now (hsame.accepted_iff.mpr hq)
    (parsePagination_pageQuery hlimit hoffset), hmatched, htotal,
    sort_matched_eq hit.shards horders hrows]

/-- The pages of an accepted query, however each request walks the registry: there
is one list, ascending by uid, of the agents of the fleet that satisfy the query;
the page at `i * L` shows the uids of the window of `L` at that place in it, every
page reports its length, and consecutive pages show each uid of the list once and in
its order. -/
theorem pages_partition_fleet (rt : Runtime) (lower : String → String) (h : Handler)
    (rows : List Agent) (now : ℤ) (q : Query) (L : ℕ) (hserves : h.Serves rows)
    (hrows : (rows.map Agent.instanceUID).Nodup) (hq : Accepted rt q)
    (hlimit : parseLimit q = .ok L) :
    ∃ listing : List Agent, Ascending Agent.instanceUID listing ∧
      (∀ a, a ∈ listing ↔ InFleet h.registry rows now a ∧ Satisfies rt q a) ∧
      (∀ i it, i * L < 2 ^ 63 → Iteration.Of it rt h.registry (pageQuery q (i * L)) →
        ∃ response, listAgents rt lower h it now (pageQuery q (i * L)) = some (.ok response) ∧
          response.agents = ((listing.drop (i * L)).take L).map (summaryView lower) ∧
          response.agents.map AgentView.instanceUID =
            ((listing.map Agent.instanceUID).drop (i * L)).take L ∧
          response.total = listing.length ∧ response.limit = L ∧ response.offset = i * L ∧
          response.isPartial = false) ∧
      ∀ (n : ℕ) (its : ℕ → Iteration) (responses : ℕ → ListResponse), n * L < 2 ^ 63 →
        listing.length ≤ n * L →
        (∀ i < n, (its i).Of rt h.registry (pageQuery q (i * L)) ∧
          listAgents rt lower h (its i) now (pageQuery q (i * L)) = some (.ok (responses i))) →
        ((List.range n).flatMap fun i => (responses i).agents.map AgentView.instanceUID) =
          listing.map Agent.instanceUID := by
  obtain ⟨orders, horders⟩ := h.registry.exists_orders
  refine ⟨sortByInstanceUID (matched rt h.registry rows now q orders),
    ascending_sortBy (nodup_matched horders hrows), fun a => ?_, fun i it hi hit => ?_,
    fun n its responses hn hlength hpages => ?_⟩
  · rw [← mem_matched horders]
    exact mem_sortBy
  · refine ⟨_, listAgents_pageQuery lower hserves hrows hit now hq hlimit hi horders, rfl, ?_,
      rfl, rfl, rfl, rfl⟩
    rw [uids_summaryView, List.map_take, List.map_drop]
  · have hwindows : ∀ i ∈ List.range n, (responses i).agents.map AgentView.instanceUID =
        (((sortByInstanceUID (matched rt h.registry rows now q orders)).map
          Agent.instanceUID).drop (i * L)).take L := by
      intro i hi
      have hlt := List.mem_range.mp hi
      have hle : i * L ≤ n * L := Nat.mul_le_mul_right L hlt.le
      obtain ⟨hit, hresponse⟩ := hpages i hlt
      rw [listAgents_pageQuery lower hserves hrows hit now hq hlimit (by omega) horders,
        Option.some.injEq, Except.ok.injEq] at hresponse
      rw [← hresponse, uids_summaryView, List.map_take, List.map_drop]
    rw [List.flatMap_congr hwindows, flatMap_windows, List.take_of_length_le]
    rwa [List.length_map]

def stored : List Agent := [{ instanceUID := "agent-2" }, { instanceUID := "agent-1" }]

/-- A replica that has heard no agent, over a store with two. -/
def reader : Handler where
  registry := Registry.new { heartbeatInterval := 30000000000, staleMissedHeartbeats := 3 }
  store := some
    { listAgents := some stored
      getAgent := fun id => some (stored.find? fun b => b.instanceUID = id) }

/-- Every page of at most one agent. -/
def oneEach : Query := .single "limit" "1"

/-- A request over empty maps for a page of that size. -/
def pageIteration : Iteration where
  shards _ := []
  params := ["limit", "offset"]
  fields _ := []

theorem accepted_oneEach : Accepted .core oneEach := by
  have horder : FinMap.Enumerates ["limit"] oneEach.keys := by decide
  exact (parseFilters_ok_iff horder).mp ⟨.empty, rfl⟩

theorem parseLimit_oneEach : parseLimit oneEach = .ok 1 := by
  have hget : oneEach.get "limit" = "1" := by simp [oneEach, Query.get]
  have hread : atoi "1" = some 1 := atoi_repr (n := 1) (by decide)
  unfold parseLimit
  rw [hget, if_neg (by decide), hread]
  rfl

theorem pageIteration_of (offset : ℕ) :
    pageIteration.Of .core reader.registry (pageQuery oneEach offset) := by
  refine ⟨fun _ _ => ⟨List.nodup_nil, fun _ => ?_⟩, ⟨by decide, fun key => ?_⟩, fun f hf i => ?_⟩
  · simp [pageIteration, reader, Registry.new]
  · rw [FinMap.mem_keys, pageQuery, FinMap.find_set, oneEach, Query.single, FinMap.find_set]
    by_cases hoffset : key = "offset"
    · simp [pageIteration, hoffset]
    · by_cases hlimit : key = "limit" <;> simp [pageIteration, hoffset, hlimit]
  · obtain rfl : Filters.empty = f := Except.ok.inj hf
    exact ⟨List.nodup_nil, fun _ => by simp [pageIteration, Filters.empty]⟩

/-- The two pages of the two agents, the stored order of which is the other one. -/
theorem pages_partition_stored :
    ∃ first second, listAgents .core id reader pageIteration 0 (pageQuery oneEach 0) =
        some (.ok first) ∧
      listAgents .core id reader pageIteration 0 (pageQuery oneEach 1) = some (.ok second) ∧
      first.agents.map AgentView.instanceUID = ["agent-1"] ∧ first.total = 2 ∧
      second.agents.map AgentView.instanceUID = ["agent-2"] ∧ second.total = 2 := by
  obtain ⟨listing, hascending, hmem, hpages, -⟩ := pages_partition_fleet .core id reader stored 0
    oneEach 1 rfl (by decide) accepted_oneEach parseLimit_oneEach
  have hlisting : listing = [{ instanceUID := "agent-1" }, { instanceUID := "agent-2" }] := by
    refine hascending.eq_of_mem_iff (by unfold Ascending; decide) fun a => ?_
    rw [hmem]
    constructor
    · rintro ⟨hlocal | ⟨b, hb, -, -, rfl⟩, -⟩
      · simp [reader, Registry.get, Registry.new] at hlocal
      · simp only [stored, List.mem_cons, List.not_mem_nil, or_false] at hb
        rcases hb with rfl | rfl
        · simp [corrected, staleConnected]
        · simp [corrected, staleConnected]
    · intro ha
      simp only [List.mem_cons, List.not_mem_nil, or_false] at ha
      rcases ha with rfl | rfl
      · exact ⟨Or.inr ⟨{ instanceUID := "agent-1" }, by decide, rfl, rfl, rfl⟩, by decide⟩
      · exact ⟨Or.inr ⟨{ instanceUID := "agent-2" }, by decide, rfl, rfl, rfl⟩, by decide⟩
  obtain ⟨first, hfirst, -, huids, htotal, -⟩ :=
    hpages 0 pageIteration (by decide) (pageIteration_of _)
  obtain ⟨second, hsecond, -, huids', htotal', -⟩ :=
    hpages 1 pageIteration (by decide) (pageIteration_of _)
  rw [hlisting] at huids htotal huids' htotal'
  exact ⟨first, second, hfirst, hsecond, huids, htotal, huids', htotal'⟩

end Grex.Pages
