import Grex.Pages
import Grex.Resubmission

/-!
The fleet page and the lookups of one agent. The page sorts the same agents by a
column of its table; a lookup asks the registry first and the store after it, under
the same rules as the list, so an agent is found exactly when it is listed, and as
the same record.
-/

namespace Grex.FleetPage

open GoText GoTime AgentState AgentViews Reads Matchers Filtering SortedWindows Pages

/-! ### The table -/

/-- The columns the table can be sorted by. -/
inductive SortKey
  | status
  | name
  | role
  | version
  | via
  | transport
  | lastSeen
  | instanceUID
  deriving DecidableEq

namespace SortKey

def text : SortKey → String
  | status => "status"
  | name => "name"
  | role => "role"
  | version => "version"
  | via => "via"
  | transport => "transport"
  | lastSeen => "last_seen"
  | instanceUID => "instance"

def ofText (s : String) : Option SortKey :=
  [status, name, role, version, via, transport, lastSeen, instanceUID].find? fun key => key.text = s

end SortKey

/-- The column and whether the order is descending; `lower` is `strings.ToLower`. -/
def parseSort (lower : String → String) (q : Query) : SortKey × Bool :=
  let sortKey := (SortKey.ofText (trimSpace (q.get "sort"))).getD .instanceUID
  let order := lower (trimSpace (q.get "order"))
  let desc :=
    if order ≠ "asc" ∧ order ≠ "desc" then
      decide (sortKey = .lastSeen ∧ q.get "order" = "" ∧ q.get "sort" ≠ "")
    else decide (order = "desc")
  if q.get "sort" = "" then (.instanceUID, false) else (sortKey, desc)

def statusRank (a : Agent) : String :=
  if !a.connected then "3-disconnected"
  else if !a.healthReported then "2-unknown"
  else if a.healthy then "0-healthy"
  else "1-unhealthy"

/-- The order of a column; ties are broken by uid. -/
def compareBy (lower : String → String) (sortKey : SortKey) (desc : Bool) (a b : Agent) : Ordering :=
  let c :=
    match sortKey with
    | .status => compare (statusRank a) (statusRank b)
    | .name => compare (lower (displayNameOf a)) (lower (displayNameOf b))
    | .role => compare (lower (roleOf lower a)) (lower (roleOf lower b))
    | .version => compare (attr a "service.version") (attr b "service.version")
    | .via => compare a.conn.viaGateway.toNat b.conn.viaGateway.toNat
    | .transport => compare a.conn.transport b.conn.transport
    | .lastSeen => compare a.lastSeen b.lastSeen
    | .instanceUID => compare a.instanceUID b.instanceUID
  let c :=
    if c = .eq ∧ sortKey ≠ .instanceUID then compare a.instanceUID b.instanceUID else c
  if desc then c.swap else c

def sortAgents (lower : String → String) (agents : List Agent) (sortKey : SortKey) (desc : Bool) :
    List Agent :=
  agents.mergeSort fun a b => compareBy lower sortKey desc a b != .gt

/-- What the fleet page is rendered from. -/
structure PageData where
  agents : List AgentView
  total : ℕ
  limit : ℕ
  offset : ℕ
  isPartial : Bool
  sort : SortKey
  desc : Bool
  healthy : String
  connected : String
  viaGateway : String
  matchers : List String

/-- The data of the fleet page. The query is iterated over once more for the
filters it displays; the outer `none` is an index out of range. -/
def fleetData (rt : Runtime) (lower : String → String) (h : Pages.Handler) (it : Iteration)
    (displayed : List String) (now : ℤ) (q : Query) : Option (Except String PageData) :=
  match parsePagination q with
  | .error e => some (.error e)
  | .ok (limit, offset) =>
      match selectedAgents rt h it now q with
      | .error e => some (.error e)
      | .ok (agents, isPartial) =>
          let (sortKey, desc) := parseSort lower q
          let sorted := sortAgents lower agents sortKey desc
          let total := sorted.length
          let start := min offset total
          let stop := min (start + limit) total
          (slice sorted start stop).map fun page =>
            .ok { agents := page.map (summaryView lower)
                  total := total
                  limit := limit
                  offset := offset
                  isPartial := isPartial
                  sort := sortKey
                  desc := desc
                  healthy := q.get "healthy"
                  connected := q.get "connected"
                  viaGateway := q.get "via_gateway"
                  matchers := Resubmission.collectMatches q displayed }

/-! ### Single agents -/

/-- `GET /api/agents/{id}`: the registry first, then the store. -/
def getAgent (lower : String → String) (h : Pages.Handler) (id : String) (now : ℤ) :
    Except HTTPError AgentView :=
  if id = "" then .error ⟨400, "missing agent id"⟩
  else
    match h.registry.get id with
    | some a => .ok (detailView lower a)
    | none =>
        match h.store with
        | none => .error ⟨404, "agent not found"⟩
        | some store =>
            match store.getAgent id with
            | none => .error ⟨500, "lookup failed"⟩
            | some none => .error ⟨404, "agent not found"⟩
            | some (some a) =>
                if a.evictedAt.isSome then .error ⟨404, "agent not found"⟩
                else if staleConnected a now h.registry.cfg.disconnectThreshold then
                  .ok (detailView lower { a with connected := false })
                else .ok (detailView lower a)

/-- The agent of a page, where it is found; a failed lookup is shown as not found. -/
def agentData (lower : String → String) (h : Pages.Handler) (id : String) (now : ℤ) :
    Option AgentView :=
  match h.registry.get id with
  | some a => some (detailView lower a)
  | none =>
      match h.store with
      | none => none
      | some store =>
          match store.getAgent id with
          | none => none
          | some none => none
          | some (some a) =>
              if a.evictedAt.isSome then none
              else if staleConnected a now h.registry.cfg.disconnectThreshold then
                some (detailView lower { a with connected := false })
              else some (detailView lower a)

/-- The two reads of the store see the same rows, one for each uid, and neither
fails. -/
structure Consistent (h : Pages.Handler) (rows : List Agent) : Prop where
  serves : h.Serves rows
  distinct : (rows.map Agent.instanceUID).Nodup
  found : ∀ store, h.store = some store → ∀ id,
    store.getAgent id = some (rows.find? fun b => b.instanceUID = id)

theorem find?_uid_eq_some {rows : List Agent} (hrows : (rows.map Agent.instanceUID).Nodup)
    {id : String} {b : Agent} :
    (rows.find? fun b => b.instanceUID = id) = some b ↔ b ∈ rows ∧ b.instanceUID = id := by
  constructor
  · intro h
    have huid := List.find?_some h
    exact ⟨List.mem_of_find?_eq_some h, by simpa using huid⟩
  · rintro ⟨hb, rfl⟩
    cases hfind : rows.find? fun c => c.instanceUID = b.instanceUID with
    | none => exact absurd (decide_eq_true rfl) (List.find?_eq_none.mp hfind b hb)
    | some c =>
      have hc := List.mem_of_find?_eq_some hfind
      have huid := List.find?_some hfind
      rw [List.inj_on_of_nodup_map hrows hc hb (by simpa using huid)]

/-- A registered uid is the registry's agent. -/
theorem inFleet_of_registered {r : Registry} {id : String} {b : Agent} (hget : r.get id = some b)
    (rows : List Agent) (now : ℤ) (a : Agent) :
    InFleet r rows now a ∧ a.instanceUID = id ↔ a = b := by
  have hid := r.get_keyed id b hget
  unfold InFleet
  constructor
  · rintro ⟨hlocal | ⟨c, -, -, hnone, rfl⟩, rfl⟩
    · exact Option.some.inj (hlocal.symm.trans hget)
    · rw [instanceUID_corrected, hnone] at hget
      cases hget
  · rintro rfl
    exact ⟨Or.inl (by rw [hid, hget]), hid⟩

/-- A uid that is not registered is the live row of that uid. -/
theorem inFleet_of_not_registered {r : Registry} {id : String} (hget : r.get id = none)
    (rows : List Agent) (now : ℤ) (a : Agent) :
    InFleet r rows now a ∧ a.instanceUID = id ↔ ∃ b ∈ rows, b.instanceUID = id ∧
      b.evictedAt = none ∧ a = corrected now r.cfg.disconnectThreshold b := by
  unfold InFleet
  constructor
  · rintro ⟨hlocal | ⟨b, hb, hlive, -, rfl⟩, rfl⟩
    · rw [hget] at hlocal
      cases hlocal
    · exact ⟨b, hb, (instanceUID_corrected _ _ b).symm, hlive, rfl⟩
  · rintro ⟨b, hb, rfl, hlive, rfl⟩
    exact ⟨Or.inr ⟨b, hb, hlive, hget, rfl⟩, instanceUID_corrected _ _ b⟩

theorem apply_corrected {α : Type} (f : Agent → α) (now disconnectAfter : ℤ) (a : Agent) :
    (if staleConnected a now disconnectAfter then f { a with connected := false } else f a) =
      f (corrected now disconnectAfter a) := by
  unfold corrected
  split <;> rfl

/-- The view of the agent that a store finds, where it is not evicted. -/
theorem stored_view_iff {lower : String → String} {now disconnectAfter : ℤ} {store : Store}
    {id : String} {b : Agent} (hfound : store.getAgent id = some (some b)) {v : AgentView} :
    (∃ a, (∃ other c, some store = some other ∧ other.getAgent id = some (some c) ∧
        c.evictedAt = none ∧ a = corrected now disconnectAfter c) ∧ v = detailView lower a) ↔
      b.evictedAt = none ∧ detailView lower (corrected now disconnectAfter b) = v := by
  constructor
  · rintro ⟨_, ⟨_, c, ⟨⟩, hother, hlive, rfl⟩, rfl⟩
    rw [hfound, Option.some.injEq, Option.some.injEq] at hother
    exact ⟨hother ▸ hlive, by rw [hother]⟩
  · rintro ⟨hlive, rfl⟩
    exact ⟨_, ⟨store, b, rfl, hfound, hlive, rfl⟩, rfl⟩

section Lookups

variable {h : Pages.Handler} {rows : List Agent} (hread : Consistent h rows) {id : String}
  (now : ℤ)

include hread

/-- A uid that is not registered is the live row the store finds. -/
theorem inFleet_iff_stored (hget : h.registry.get id = none) (a : Agent) :
    InFleet h.registry rows now a ∧ a.instanceUID = id ↔
      ∃ store b, h.store = some store ∧ store.getAgent id = some (some b) ∧ b.evictedAt = none ∧
        a = corrected now h.registry.cfg.disconnectThreshold b := by
  rw [inFleet_of_not_registered hget]
  cases hstore : h.store with
  | none =>
    have hserves := hread.serves
    unfold Pages.Handler.Serves at hserves
    rw [hstore] at hserves
    simp [show rows = [] from hserves]
  | some store =>
    constructor
    · rintro ⟨b, hb, hid, hlive, rfl⟩
      refine ⟨store, b, rfl, ?_, hlive, rfl⟩
      rw [hread.found store hstore id, (find?_uid_eq_some hread.distinct).mpr ⟨hb, hid⟩]
    · rintro ⟨_, b, ⟨⟩, hfound, hlive, rfl⟩
      rw [hread.found store hstore id, Option.some.injEq,
        find?_uid_eq_some hread.distinct] at hfound
      exact ⟨b, hfound.1, hfound.2, hlive, rfl⟩

/-- There is one agent of the fleet for a uid. -/
theorem inFleet_unique {a b : Agent} (ha : InFleet h.registry rows now a ∧ a.instanceUID = id)
    (hb : InFleet h.registry rows now b ∧ b.instanceUID = id) : a = b := by
  cases hget : h.registry.get id with
  | some c =>
    rw [inFleet_of_registered hget] at ha hb
    rw [ha, hb]
  | none =>
    obtain ⟨store, c, hstore, hc, -, rfl⟩ := (inFleet_iff_stored hread now hget a).mp ha
    obtain ⟨store', d, hstore', hd, -, rfl⟩ := (inFleet_iff_stored hread now hget b).mp hb
    obtain rfl := Option.some.inj (hstore.symm.trans hstore')
    rw [hc, Option.some.injEq, Option.some.injEq] at hd
    rw [hd]

/-- The API finds the agent of the fleet with that uid. -/
theorem getAgent_eq_ok_iff {lower : String → String} (hid : id ≠ "") {v : AgentView} :
    getAgent lower h id now = .ok v ↔ ∃ a, (InFleet h.registry rows now a ∧ a.instanceUID = id) ∧
      v = detailView lower a := by
  unfold getAgent
  rw [if_neg hid]
  cases hget : h.registry.get id with
  | some b =>
    simp only [inFleet_of_registered hget]
    simp [eq_comm]
  | none =>
    simp only [inFleet_iff_stored hread now hget]
    cases hstore : h.store with
    | none => simp
    | some store =>
      rcases hfound : store.getAgent id with _ | _ | b
      · simp [hfound]
      · simp [hfound]
      · rw [stored_view_iff hfound]
        simp only [hfound]
        by_cases hlive : b.evictedAt = none
        · rw [if_neg (by simp [hlive]),
            apply_corrected fun a => (.ok (detailView lower a) : Except HTTPError AgentView)]
          simp [hlive]
        · simp [Option.isSome_iff_ne_none.mpr hlive, hlive]

/-- The page finds the agent of the fleet with that uid. -/
theorem agentData_eq_some_iff {lower : String → String} {v : AgentView} :
    agentData lower h id now = some v ↔ ∃ a, (InFleet h.registry rows now a ∧ a.instanceUID = id) ∧
      v = detailView lower a := by
  unfold agentData
  cases hget : h.registry.get id with
  | some b =>
    simp only [inFleet_of_registered hget]
    simp [eq_comm]
  | none =>
    simp only [inFleet_iff_stored hread now hget]
    cases hstore : h.store with
    | none => simp
    | some store =>
      rcases hfound : store.getAgent id with _ | _ | b
      · simp [hfound]
      · simp [hfound]
      · rw [stored_view_iff hfound]
        simp only [hfound]
        by_cases hlive : b.evictedAt = none
        · rw [if_neg (by simp [hlive]), apply_corrected fun a => some (detailView lower a)]
          simp [hlive]
        · simp [Option.isSome_iff_ne_none.mpr hlive, hlive]

end Lookups

/-! ### The database as a store -/

/-- The store of a database. -/
def storeOf (db : Tables.Database) : Store where
  listAgents := storedAgents db
  getAgent := storedAgent db

theorem consistent_storeOf (r : Registry) {db : Tables.Database} {rows : List Agent}
    (h : storedAgents db = some rows) : Consistent ⟨r, some (storeOf db)⟩ rows := by
  have hids : rows.map Agent.instanceUID = db.agents.keys.sort (· ≤ ·) := by
    apply Scans.map_of_mapM _ h
    intro id a ha
    obtain ⟨row, -, hrow⟩ := Option.bind_eq_some_iff.mp ha
    exact (scanAgent_eq_some hrow).1
  have hdistinct : (rows.map Agent.instanceUID).Nodup := by
    rw [hids]
    exact Finset.sort_nodup _ _
  refine ⟨h, hdistinct, fun store hstore id => ?_⟩
  obtain rfl := Option.some.inj hstore
  change storedAgent db id = _
  unfold storedAgent
  cases hrow : db.agents.find id with
  | none =>
    have hnone : (rows.find? fun b => b.instanceUID = id) = none := by
      rw [List.find?_eq_none]
      intro b hb huid
      have hmem : id ∈ rows.map Agent.instanceUID :=
        List.mem_map.mpr ⟨b, hb, of_decide_eq_true huid⟩
      rw [hids, Finset.mem_sort, FinMap.mem_keys, hrow] at hmem
      cases hmem
    rw [hnone]
  | some row =>
    have hmem : id ∈ db.agents.keys.sort (· ≤ ·) :=
      (Finset.mem_sort _).mpr ((db.agents.mem_keys_iff id).mpr ⟨row, hrow⟩)
    obtain ⟨a, ha, hfound⟩ := Scans.mem_of_mapM h hmem
    rw [hrow, Option.bind_some] at hfound
    have hfind := (find?_uid_eq_some hdistinct).mpr ⟨ha, (scanAgent_eq_some hfound).1⟩
    simp only [hfound, Option.map_some, hfind]

/-! ### Lists -/

/-- The list of the API without its pages. -/
def apiList (rt : Runtime) (lower : String → String) (h : Pages.Handler) (it : Iteration) (now : ℤ)
    (q : Query) : Option (List AgentView) :=
  match selectedAgents rt h it now q with
  | .error _ => none
  | .ok (agents, _) =>
      (pageByInstanceUID agents 0 agents.length).map fun page => page.map (summaryView lower)

/-- The list of the fleet page without its pages. -/
def uiList (rt : Runtime) (lower : String → String) (h : Pages.Handler) (it : Iteration) (now : ℤ)
    (q : Query) : Option (List AgentView) :=
  match selectedAgents rt h it now q with
  | .error _ => none
  | .ok (agents, _) =>
      let (sortKey, desc) := parseSort lower q
      some ((sortAgents lower agents sortKey desc).map (summaryView lower))

/-- The query asks for nothing in particular. -/
def Unfiltered (q : Query) : Prop := SameFilters ∅ q

theorem accepted_empty (rt : Runtime) : Accepted rt ∅ where
  params key hkey := absurd hkey (by simp)
  repeated raw hraw := absurd hraw (by simp [Query.values])
  legacy := rfl

theorem satisfies_empty (rt : Runtime) (a : Agent) : Satisfies rt ∅ a where
  bools field hblank := absurd trimSpace_empty hblank
  bare key _ _ hblank := absurd trimSpace_empty hblank
  repeated raw hraw := absurd hraw (by simp [Query.values])
  legacy hblank := absurd trimSpace_empty hblank

theorem mem_matched_of_unfiltered {rt : Runtime} {r : Registry} {rows : List Agent} {now : ℤ}
    {q : Query} (hq : Unfiltered q) {orders : ℕ → List String} (horders : r.Orders orders)
    {a : Agent} : a ∈ matched rt r rows now q orders ↔ InFleet r rows now a := by
  rw [mem_matched horders]
  exact and_iff_left (hq.satisfies (satisfies_empty rt a))

section Accepted

variable {rt : Runtime} (lower : String → String) {h : Pages.Handler} {rows : List Agent}
  (hread : Consistent h rows) {it : Iteration} {q : Query} (hit : it.Of rt h.registry q) (now : ℤ)

include hread hit

theorem apiList_of_accepted (hq : Accepted rt q) : apiList rt lower h it now q =
    some ((sortByInstanceUID (matched rt h.registry rows now q it.shards)).map
      (summaryView lower)) := by
  unfold apiList
  rw [selectedAgents_eq hread.serves hit now hq]
  simp only
  rw [pageByInstanceUID_eq (nodup_matched hit.shards hread.distinct) (Nat.zero_le _) (le_refl _),
    Option.map_some, List.drop_zero, Nat.sub_zero, List.take_of_length_le]
  exact (length_sortBy _ _).le

theorem uiList_of_accepted (hq : Accepted rt q) : uiList rt lower h it now q =
    some ((sortAgents lower (matched rt h.registry rows now q it.shards) (parseSort lower q).1
      (parseSort lower q).2).map (summaryView lower)) := by
  unfold uiList
  rw [selectedAgents_eq hread.serves hit now hq]

/-- One view of the fleet page for an accepted request. -/
theorem fleetData_eq (hq : Accepted rt q) {limit offset : ℕ}
    (hpage : parsePagination q = .ok (limit, offset)) (displayed : List String) :
    ∃ data, fleetData rt lower h it displayed now q = some (.ok data) ∧
      data.agents = (((sortAgents lower (matched rt h.registry rows now q it.shards)
        (parseSort lower q).1 (parseSort lower q).2).drop offset).take limit).map
          (summaryView lower) ∧
      data.total = (sortAgents lower (matched rt h.registry rows now q it.shards)
        (parseSort lower q).1 (parseSort lower q).2).length := by
  unfold fleetData
  rw [hpage, selectedAgents_eq hread.serves hit now hq]
  simp only
  rw [slice_eq_some (by omega) (min_le_right _ _), clamped_window]
  exact ⟨_, rfl, rfl, rfl⟩

/-- A page shows a window of the list. -/
theorem pages_of_lists (hq : Accepted rt q) {limit offset : ℕ}
    (hpage : parsePagination q = .ok (limit, offset)) (displayed : List String) :
    (∃ api response, apiList rt lower h it now q = some api ∧
        listAgents rt lower h it now q = some (.ok response) ∧
        response.agents = (api.drop offset).take limit ∧ response.total = api.length) ∧
      ∃ ui data, uiList rt lower h it now q = some ui ∧
        fleetData rt lower h it displayed now q = some (.ok data) ∧
        data.agents = (ui.drop offset).take limit ∧ data.total = ui.length := by
  constructor
  · refine ⟨_, _, apiList_of_accepted lower hread hit now hq,
      listAgents_eq lower hread.serves hread.distinct hit now hq hpage, ?_, ?_⟩
    · rw [List.map_take, List.map_drop]
    · rw [List.length_map]
      exact (length_sortBy _ _).symm
  · obtain ⟨data, hdata, hagents, htotal⟩ := fleetData_eq lower hread hit now hq hpage displayed
    refine ⟨_, data, uiList_of_accepted lower hread hit now hq, hdata, ?_, ?_⟩
    · rw [hagents, List.map_take, List.map_drop]
    · rw [htotal, List.length_map]

theorem apiList_eq (hq : Unfiltered q) :
    ∃ listed : List Agent, apiList rt lower h it now q = some (listed.map (summaryView lower)) ∧
      ∀ a, a ∈ listed ↔ InFleet h.registry rows now a := by
  refine ⟨_, apiList_of_accepted lower hread hit now (hq.accepted (accepted_empty rt)), fun a => ?_⟩
  rw [← mem_matched_of_unfiltered hq hit.shards]
  exact mem_sortBy

theorem uiList_eq (hq : Unfiltered q) :
    ∃ listed : List Agent, uiList rt lower h it now q = some (listed.map (summaryView lower)) ∧
      ∀ a, a ∈ listed ↔ InFleet h.registry rows now a := by
  refine ⟨_, uiList_of_accepted lower hread hit now (hq.accepted (accepted_empty rt)), fun a => ?_⟩
  rw [← mem_matched_of_unfiltered hq hit.shards]
  exact (List.mergeSort_perm _ _).mem_iff

end Accepted

/-- A list holds the summary of each agent of the fleet, and of no others. -/
theorem exists_listed_iff {r : Registry} {rows : List Agent} (lower : String → String)
    (id : String) (now : ℤ) {listed : List Agent}
    (hlisted : ∀ a, a ∈ listed ↔ InFleet r rows now a) :
    (∃ s ∈ listed.map (summaryView lower), s.instanceUID = id) ↔
      ∃ a, InFleet r rows now a ∧ a.instanceUID = id := by
  simp only [← hlisted, List.mem_map]
  constructor
  · rintro ⟨_, ⟨a, ha, rfl⟩, hid⟩
    exact ⟨a, ha, hid⟩
  · rintro ⟨a, ha, hid⟩
    exact ⟨_, ⟨a, ha, rfl⟩, hid⟩

/-- The entry of a list is the record of the lookup without its bulky parts. -/
theorem listed_eq {h : Pages.Handler} {rows : List Agent} (hread : Consistent h rows)
    (lower : String → String) {id : String} {now : ℤ} {listed : List Agent}
    (hlisted : ∀ a, a ∈ listed ↔ InFleet h.registry rows now a) {a : Agent}
    (ha : InFleet h.registry rows now a ∧ a.instanceUID = id) {s : AgentView}
    (hs : s ∈ listed.map (summaryView lower)) (hid : s.instanceUID = id) :
    s = { detailView lower a with effectiveConfig := ∅, packages := ∅ } := by
  obtain ⟨b, hb, rfl⟩ := List.mem_map.mp hs
  rw [inFleet_unique hread now ha ⟨(hlisted b).mp hb, hid⟩]
  rfl

/-- The two lookups and the two lists show the uid, with this `Connected`. -/
structure AllShow (lower : String → String) (h : Pages.Handler) (now : ℤ) (api ui : List AgentView)
    (id : String) (connected : Bool) : Prop where
  getAgent : ∃ v, getAgent lower h id now = .ok v ∧ v.instanceUID = id ∧ v.connected = connected
  agentData : ∃ v, agentData lower h id now = some v ∧ v.instanceUID = id ∧ v.connected = connected
  api : ∃ s ∈ api, s.instanceUID = id ∧ s.connected = connected
  ui : ∃ s ∈ ui, s.instanceUID = id ∧ s.connected = connected

theorem allShow_of_inFleet {h : Pages.Handler} {rows : List Agent} (hread : Consistent h rows)
    (lower : String → String) {id : String} (hid : id ≠ "") {now : ℤ} {listed listed' : List Agent}
    (hlisted : ∀ a, a ∈ listed ↔ InFleet h.registry rows now a)
    (hlisted' : ∀ a, a ∈ listed' ↔ InFleet h.registry rows now a) {a : Agent}
    (ha : InFleet h.registry rows now a ∧ a.instanceUID = id) :
    AllShow lower h now (listed.map (summaryView lower)) (listed'.map (summaryView lower)) id
      a.connected where
  getAgent := ⟨_, (getAgent_eq_ok_iff hread now hid).mpr ⟨a, ha, rfl⟩, ha.2, rfl⟩
  agentData := ⟨_, (agentData_eq_some_iff hread now).mpr ⟨a, ha, rfl⟩, ha.2, rfl⟩
  api := ⟨_, List.mem_map_of_mem ((hlisted a).mpr ha.1), ha.2, rfl⟩
  ui := ⟨_, List.mem_map_of_mem ((hlisted' a).mpr ha.1), ha.2, rfl⟩

/-- An id is answered by the two lookups exactly when it is in the two lists, and
then all four show one record: a registered agent as it is, and a stored one as
disconnected once its session row is stale. -/
theorem lists_and_lookups_agree (rt : Runtime) (lower : String → String) (h : Pages.Handler)
    (rows : List Agent) (hread : Consistent h rows) (now : ℤ) (q q' : Query) (it it' : Iteration)
    (hq : Unfiltered q) (hq' : Unfiltered q') (hit : it.Of rt h.registry q)
    (hit' : it'.Of rt h.registry q') (id : String) (hid : id ≠ "") :
    ∃ api ui, apiList rt lower h it now q = some api ∧ uiList rt lower h it' now q' = some ui ∧
      ((∃ v, getAgent lower h id now = .ok v) ↔ ∃ s ∈ api, s.instanceUID = id) ∧
      ((∃ v, agentData lower h id now = some v) ↔ ∃ s ∈ api, s.instanceUID = id) ∧
      ((∃ s ∈ ui, s.instanceUID = id) ↔ ∃ s ∈ api, s.instanceUID = id) ∧
      (∀ v, getAgent lower h id now = .ok v → agentData lower h id now = some v ∧
        (∀ s ∈ api, s.instanceUID = id → s = { v with effectiveConfig := ∅, packages := ∅ }) ∧
        ∀ s ∈ ui, s.instanceUID = id → s = { v with effectiveConfig := ∅, packages := ∅ }) ∧
      (∀ a, h.registry.get id = some a → AllShow lower h now api ui id a.connected) ∧
      ∀ b ∈ rows, b.instanceUID = id → b.evictedAt = none → h.registry.get id = none →
        AllShow lower h now api ui id
          (FleetView.presence now h.registry.cfg.disconnectThreshold b) := by
  obtain ⟨listed, hapi, hlisted⟩ := apiList_eq lower hread hit now hq
  obtain ⟨listed', hui, hlisted'⟩ := uiList_eq lower hread hit' now hq'
  refine ⟨_, _, hapi, hui, ?_, ?_, ?_, fun v hv => ?_, fun a hget => ?_,
    fun b hb huid hlive hget => ?_⟩
  · rw [exists_listed_iff lower id now hlisted]
    simp [getAgent_eq_ok_iff hread now hid]
  · rw [exists_listed_iff lower id now hlisted]
    simp [agentData_eq_some_iff hread now]
  · rw [exists_listed_iff lower id now hlisted, exists_listed_iff lower id now hlisted']
  · obtain ⟨a, ha, rfl⟩ := (getAgent_eq_ok_iff hread now hid).mp hv
    exact ⟨(agentData_eq_some_iff hread now).mpr ⟨a, ha, rfl⟩,
      fun s hs huid => listed_eq hread lower hlisted ha hs huid,
      fun s hs huid => listed_eq hread lower hlisted' ha hs huid⟩
  · exact allShow_of_inFleet hread lower hid hlisted hlisted'
      ((inFleet_of_registered hget rows now a).mpr rfl)
  · have hshow := allShow_of_inFleet hread lower hid hlisted hlisted'
      ((inFleet_of_not_registered hget rows now _).mpr ⟨b, hb, huid, hlive, rfl⟩)
    rwa [FleetView.corrected_eq] at hshow

/-- The row of the agent heard here, one of an agent whose replica crashed, and one of
an evicted agent. -/
def crashed : List Agent :=
  [{ instanceUID := Message.zeroUID, sessionUpdatedAt := 0 },
    { instanceUID := "agent-1", connected := true, sessionUpdatedAt := 0 },
    { instanceUID := "agent-2", connected := true, evictedAt := some 1 }]

/-- A replica that has heard one agent, over those rows. -/
def survivor : Pages.Handler where
  registry := Registry.heardOnce ⟨30, 3, [], 4⟩ 0
  store := some
    { listAgents := some crashed
      getAgent := fun id => some (crashed.find? fun b => b.instanceUID = id) }

/-- The fleet page sorted by the last message. -/
def latestFirst : Query := .single "sort" "last_seen"

theorem unfiltered_latestFirst : Unfiltered latestFirst := by
  have hother : ∀ key, key ≠ "sort" → latestFirst.values key = [] :=
    fun key hkey => Query.values_single_of_ne "last_seen" hkey
  refine ⟨fun key hkey => ?_, (hother _ (by decide)).symm, ?_, ?_⟩
  · have hsort : key ≠ "sort" := by
      rintro rfl
      exact hkey (by decide)
    simp only [Query.get, hother key hsort]
    rfl
  · simp only [Query.get, hother "attr_key" (by decide)]
    rfl
  · simp only [Query.get, hother "attr_value" (by decide)]
    rfl

theorem lists_and_lookups_agree_crashed :
    ∃ orders api ui, apiList .core id survivor ⟨orders, [], fun _ => []⟩ 91 ∅ = some api ∧
      uiList .core id survivor ⟨orders, ["sort"], fun _ => []⟩ 91 latestFirst = some ui ∧
      AllShow id survivor 91 api ui "agent-1" false ∧
      AllShow id survivor 91 api ui Message.zeroUID true ∧
      (¬ ∃ v, getAgent id survivor "agent-2" 91 = .ok v) ∧
      ¬ ∃ s ∈ api, s.instanceUID = "agent-2" := by
  have hread : Consistent survivor crashed := ⟨rfl, by decide, by rintro _ ⟨⟩ id; rfl⟩
  have hall : Unfiltered ∅ := ⟨fun _ _ => rfl, rfl, rfl, rfl⟩
  obtain ⟨orders, horders⟩ := survivor.registry.exists_orders
  have hit : Iteration.Of ⟨orders, [], fun _ => []⟩ .core survivor.registry ∅ := by
    refine ⟨horders, ⟨List.nodup_nil, by simp⟩, fun f hf _ => ?_⟩
    obtain rfl : Filters.empty = f := Except.ok.inj hf
    exact ⟨List.nodup_nil, by simp [Filters.empty]⟩
  have hit' : Iteration.Of ⟨orders, ["sort"], fun _ => []⟩ .core survivor.registry latestFirst := by
    have hparams : FinMap.Enumerates ["sort"] latestFirst.keys := by decide
    refine ⟨horders, hparams, fun f hf _ => ?_⟩
    obtain rfl : Filters.empty = f := Except.ok.inj hf
    exact ⟨List.nodup_nil, by simp [Filters.empty]⟩
  have hagree := lists_and_lookups_agree .core id survivor crashed hread 91 ∅ latestFirst _ _ hall
    unfiltered_latestFirst hit hit'
  obtain ⟨api, ui, hapi, hui, -, -, -, -, -, hstored⟩ := hagree "agent-1" (by decide)
  obtain ⟨_, _, hapi', hui', -, -, -, -, hlocal, -⟩ := hagree Message.zeroUID (by decide)
  obtain ⟨_, _, hapi'', -, hanswered, -⟩ := hagree "agent-2" (by decide)
  obtain rfl := Option.some.inj (hapi.symm.trans hapi')
  obtain rfl := Option.some.inj (hui.symm.trans hui')
  obtain rfl := Option.some.inj (hapi.symm.trans hapi'')
  have hregistered := Registry.get_heardOnce_self ⟨30, 3, [], 4⟩ 0
  have hmissing : ∀ id, id ≠ Message.zeroUID → survivor.registry.get id = none := by
    intro id hid
    exact (Registry.get_heardOnce ⟨30, 3, [], 4⟩ 0 id).trans (if_neg hid)
  have hevicted : ¬ ∃ v, getAgent id survivor "agent-2" 91 = .ok v := by
    unfold getAgent
    rw [hmissing "agent-2" (by decide)]
    rintro ⟨v, hv⟩
    cases hv
  refine ⟨orders, api, ui, hapi, hui, ?_, ?_, hevicted, hanswered.not.mp hevicted⟩
  · have hrow : { instanceUID := "agent-1", connected := true, sessionUpdatedAt := 0 } ∈ crashed :=
      List.mem_cons_of_mem _ List.mem_cons_self
    exact hstored _ hrow rfl rfl (hmissing "agent-1" (by decide))
  · have hshow := hlocal _ hregistered
    rwa [Registry.connected_heardAgent] at hshow

end Grex.FleetPage
