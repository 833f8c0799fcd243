import Grex.Machine
import Grex.QueryString
import Grex.TableOrder
import Mathlib.Algebra.BigOperators.Group.Finset.Piecewise
import Mathlib.Algebra.Order.BigOperators.Group.Finset

/-!
The links of the fleet page. Each page is rendered from the query it was asked
for and carries that query on in its links: a column header sorts by its column,
a page number moves the window, and the table polls itself. A query is written
into a link as text and read back from the text of the next request. However the
links are followed, and whatever becomes of the fleet in the meantime, the table
shows a window of the agents that match the filters of the first request.
-/

namespace Grex.Navigation

open GoText GoURL GoTime AgentState AgentViews Matchers Filtering Pages FleetPage TableOrder
open QueryString Machine

/-! ### Links -/

/-- Texts as bytes; bytes that are not valid UTF-8 are no text. -/
def utf8 : Coding String where
  code s := s.toUTF8.data.toList
  decode b := String.fromUTF8? ⟨b.toArray⟩
  decode_code s := by
    simp only [Array.toArray_toList]
    exact dif_pos s.isValidUTF8

/-- The parameters a request may have. -/
def maxParams : ℕ := 10000

/-- `r.URL.Query()`, of the request target. The model's texts are sequences of
characters: a target with a parameter whose bytes are not valid UTF-8 has no query
here, and what the server makes of it is not modelled. -/
def urlQuery (target : Bytes) : Option Query := parseQuery utf8 maxParams (cutQuery target).2.2

def pollQuery (q : Query) : Bytes :=
  let enc := encode utf8 q
  if enc = [] then [] else question :: enc

/-- The query with one parameter set, or deleted where the value is empty. -/
def queryWith (q : Query) (key val : String) : Bytes :=
  let cp : Query := if val = "" then q.erase key else q.insert key [val]
  let enc := encode utf8 cp
  if enc = [] then [] else question :: enc

def orderText (desc : Bool) : String := if desc then "desc" else "asc"

/-- The link of a column header. The column sorted by is turned around, any other
one starts ascending, except for the newest agents first. -/
def sortHref (q : Query) (col curSort : SortKey) (curDesc : Bool) : Bytes :=
  let cp : Query := q.erase "offset"
  let nextDesc := if curSort = col then !curDesc else decide (col = .lastSeen)
  let cp : Query := (cp.insert "sort" [col.text]).insert "order" [orderText nextDesc]
  let enc := encode utf8 cp
  if enc = [] then [slash] else slash :: question :: enc

/-- A query written after a path is read back from it. -/
theorem urlQuery_append {path : Bytes} (hpath : question ∉ path) {q : Query}
    (hfull : Values.Full q) (hfew : (pairs q).length ≤ maxParams) :
    urlQuery (path ++ pollQuery q) = some q := by
  have hread : parseQuery utf8 maxParams (encode utf8 q) = some q :=
    parseQuery_encode utf8 hfull (by decide) hfew
  unfold urlQuery pollQuery cutQuery
  by_cases henc : encode utf8 q = []
  · have hcut := cut_fromSep hpath none
    simp only [fromSep] at hcut
    rw [henc] at hread
    simp only [henc, if_true, hcut]
    exact hread
  · have hcut := cut_fromSep hpath (some (encode utf8 q))
    obtain ⟨c, rest, hcons⟩ := List.exists_cons_of_ne_nil henc
    simp only [fromSep] at hcut
    rw [hcons] at hcut hread
    simp only [hcons, reduceCtorEq, if_false, hcut]
    exact hread

theorem parseOffset_of_parsePagination {q : Query} {limit offset : ℕ}
    (h : parsePagination q = .ok (limit, offset)) : parseOffset q = .ok offset := by
  have hlimit := parseLimit_of_parsePagination h
  unfold parsePagination at h
  rw [hlimit] at h
  cases hoffset : parseOffset q with
  | error e =>
    rw [hoffset] at h
    cases h
  | ok n =>
    rw [hoffset] at h
    cases h
    rfl

/-! ### The browser -/

/-- One request as it is served: the fleet at that time, and the orders in which
the maps are iterated over. -/
structure Visit where
  handler : Pages.Handler
  it : Iteration
  displayed : List String
  now : ℤ

/-- The page and the table in it, which is replaced by each poll. -/
structure Browser where
  page : Query
  table : Query
  data : PageData

inductive Click
  | sortBy (col : SortKey)
  | page (p : ℤ)
  | poll

/-- The request of a click, where the page shows the link. -/
def link (b : Browser) : Click → Option Bytes
  | .sortBy col =>
      if b.data.total = 0 then none else some (sortHref b.table col b.data.sort b.data.desc)
  | .page p =>
      (pageList b.data.total b.data.limit).bind fun pages =>
        if 1 < pages.length ∧ p ∈ pages ∧ p ≠ pageNum b.data.offset b.data.limit then
          some (slash :: queryWith b.table "offset" (pageOffset p b.data.limit).repr)
        else none
  | .poll => some (utf8.code "/partials/agents" ++ pollQuery b.page)

variable (rt : Runtime) (lower : String → String)

/-- The data a request is answered with; an error has none. -/
def served (visit : Visit) (q : Query) : Option PageData :=
  match fleetData rt lower visit.handler visit.it visit.displayed visit.now q with
  | some (.ok data) => some data
  | _ => none

def openPage (visit : Visit) (q : Query) : Option Browser :=
  (served rt lower visit q).map fun data => ⟨q, q, data⟩

def step (b : Browser) (a : Click × Visit) : Option Browser :=
  (link b a.1).bind fun target =>
    (urlQuery target).bind fun q =>
      match a.1 with
      | .poll => (served rt lower a.2 q).map fun data => { b with table := q, data := data }
      | _ => openPage rt lower a.2 q

/-! ### What is shown -/

/-- The part of a query that the links change. -/
structure View where
  sort : SortKey
  desc : Bool
  offset : ℕ

def View.click (limit : ℕ) (v : View) : Click → View
  | .sortBy col =>
      { sort := col
        desc := if v.sort = col then !v.desc else decide (col = .lastSeen)
        offset := 0 }
  | .page p => { v with offset := (p - 1).toNat * limit }
  | .poll => v

/-- The view a query asks for by itself. -/
def View.asked (lower : String → String) (q : Query) (offset : ℕ) : View :=
  ⟨(parseSort lower q).1, (parseSort lower q).2, offset⟩

/-- The window of a view on the agents that match a query. -/
def tablePage (q : Query) (limit : ℕ) (v : View) (visit : Visit) : PageData :=
  let merged := visit.handler.mergedAgents visit.it.shards visit.now
  let sorted := sortAgents lower (merged.1.filter fun a => decide (Satisfies rt q a)) v.sort v.desc
  { agents := ((sorted.drop v.offset).take limit).map (summaryView lower)
    total := sorted.length
    limit := limit
    offset := v.offset
    isPartial := merged.2
    sort := v.sort
    desc := v.desc
    healthy := q.get "healthy"
    connected := q.get "connected"
    viaGateway := q.get "via_gateway"
    matchers := Resubmission.collectMatches q visit.displayed }

/-- The parameters the links set. -/
def linkParams : Finset String := {"sort", "order", "offset"}

/-- No filter is read from them and no filter is shown for them. -/
theorem mem_of_mem_linkParams {key : String} (h : key ∈ linkParams) :
    key ∈ reservedParams ∧ key ∈ Resubmission.shownElsewhere := by
  simp only [linkParams, Finset.mem_insert, Finset.mem_singleton] at h
  rcases h with rfl | rfl | rfl <;> decide

/-- The query asks for a view of the agents of the first query. -/
structure Asks (first : Query) (v : View) (q : Query) : Prop where
  full : Values.Full q
  kept : ∀ key ∉ linkParams, q.values key = first.values key
  short : ∀ key, (q.values key).length ≤ (first.values key).length + 1
  sort : parseSort lower q = (v.sort, v.desc)
  offset : parseOffset q = .ok v.offset

namespace Asks

variable {rt lower} {first q : Query} {v : View}

theorem get_kept (h : Asks lower first v q) {key : String} (hkey : key ∉ linkParams) :
    q.get key = first.get key := by
  unfold Query.get
  rw [h.kept key hkey]

theorem sameFilters (h : Asks lower first v q) : SameFilters q first where
  bare key hkey := h.get_kept fun hlink => hkey (mem_of_mem_linkParams hlink).1
  repeated := h.kept _ (by decide)
  attr_key := h.get_kept (by decide)
  attr_value := h.get_kept (by decide)

theorem parsePagination_eq (h : Asks lower first v q) {limit : ℕ}
    (hlimit : parseLimit first = .ok limit) : parsePagination q = .ok (limit, v.offset) := by
  have hlimit' : parseLimit q = .ok limit := by
    unfold parseLimit at hlimit ⊢
    rwa [h.get_kept (by decide)]
  unfold parsePagination
  rw [hlimit', h.offset]
  rfl

theorem collectMatches_eq (h : Asks lower first v q) (order : List String) :
    Resubmission.collectMatches q order = Resubmission.collectMatches first order := by
  have hparam : Resubmission.displayParam q = Resubmission.displayParam first := by
    funext k
    unfold Resubmission.displayParam
    by_cases hk : k ∈ Resubmission.shownElsewhere
    · rw [if_pos hk, if_pos hk]
    · rw [h.kept k fun hlink => hk (mem_of_mem_linkParams hlink).2]
  unfold Resubmission.collectMatches
  rw [h.kept "match" (by decide), h.get_kept (show "attr_key" ∉ linkParams by decide),
    h.get_kept (show "attr_value" ∉ linkParams by decide), hparam]

/-- The links add at most one value for each of their parameters. -/
theorem length_pairs_le (h : Asks lower first v q) :
    (pairs q).length ≤ (pairs first).length + 3 := by
  have hkeys : q.keys ⊆ first.keys ∪ linkParams := by
    intro key hkey
    rw [Finset.mem_union]
    by_cases hlink : key ∈ linkParams
    · exact Or.inr hlink
    · left
      obtain ⟨xs, hxs⟩ := (q.mem_keys_iff key).mp hkey
      have hkept := h.kept key hlink
      by_contra hnone
      rw [Query.values, Query.values, (first.find_eq_none key).mpr hnone, hxs] at hkept
      obtain rfl : xs = [] := hkept
      exact h.full key hxs
  calc (pairs q).length
      = ∑ key ∈ q.keys, (q.values key).length := length_pairs q
    _ ≤ ∑ key ∈ first.keys ∪ linkParams, (q.values key).length :=
        Finset.sum_le_sum_of_subset hkeys
    _ ≤ ∑ key ∈ first.keys ∪ linkParams,
          ((first.values key).length + if key ∈ linkParams then 1 else 0) := by
        apply Finset.sum_le_sum
        intro key _
        split_ifs with hlink
        · exact h.short key
        · exact (congrArg List.length (h.kept key hlink)).le
    _ = ∑ key ∈ first.keys ∪ linkParams, (first.values key).length + linkParams.card := by
        rw [Finset.sum_add_distrib]
        congr 1
        rw [← Finset.card_filter]
        congr 1
        ext key
        simp only [Finset.mem_filter, Finset.mem_union]
        tauto
    _ = (pairs first).length + 3 := by
        rw [length_pairs]
        congr 1
        symm
        apply Finset.sum_subset Finset.subset_union_left
        intro key _ hnone
        rw [Values.values, (first.find_eq_none key).mpr hnone]
        rfl

/-- A link is read back as the query it was written from. -/
theorem urlQuery_eq (h : Asks lower first v q) (hfew : (pairs first).length + 3 ≤ maxParams)
    {path : Bytes} (hpath : question ∉ path) : urlQuery (path ++ pollQuery q) = some q :=
  urlQuery_append hpath h.full (h.length_pairs_le.trans hfew)

theorem served_eq (h : Asks lower first v q) (haccepted : Accepted rt first) {limit : ℕ}
    (hlimit : parseLimit first = .ok limit) {visit : Visit}
    (hvisit : visit.it.Of rt visit.handler.registry q) :
    served rt lower visit q = some (tablePage rt lower first limit v visit) := by
  obtain ⟨f, hf⟩ := (parseFilters_ok_iff hvisit.params).mpr (h.sameFilters.accepted_iff.mpr haccepted)
  have hselected : selectedAgents rt visit.handler visit.it visit.now q =
      .ok ((visit.handler.mergedAgents visit.it.shards visit.now).1.filter fun a =>
        decide (Satisfies rt first a),
        (visit.handler.mergedAgents visit.it.shards visit.now).2) := by
    unfold selectedAgents
    simp only [hf, matchingAgents_of_parse hvisit.params hf (hvisit.fields f hf),
      h.sameFilters.satisfies_iff]
  unfold served fleetData
  simp only [h.parsePagination_eq hlimit, hselected, h.sort, h.collectMatches_eq]
  rw [SortedWindows.slice_eq_some (by omega) (min_le_right _ _), SortedWindows.clamped_window]
  simp only [Option.map_some, tablePage, h.get_kept (show "healthy" ∉ linkParams by decide),
    h.get_kept (show "connected" ∉ linkParams by decide),
    h.get_kept (show "via_gateway" ∉ linkParams by decide)]

end Asks

/-! ### Following links -/

section Links

variable {lower} {first q : Query} {v : View}

theorem values_set (q : Query) (key j : String) (slot : Option (List String)) :
    Query.values (q.set key slot) j = if j = key then slot.getD [] else q.values j := by
  unfold Query.values
  rw [FinMap.find_set]
  split_ifs <;> rfl

theorem full_set (hq : Values.Full q) {key : String} {slot : Option (List String)}
    (hslot : slot ≠ some []) : Values.Full (q.set key slot) := by
  intro j
  rw [FinMap.find_set]
  split_ifs
  · exact hslot
  · exact hq j

theorem ofText_text (col : SortKey) : SortKey.ofText (trimSpace col.text) = some col := by
  cases col <;> decide

theorem parseSort_of_get (hasc : lower "asc" = "asc") (hdesc : lower "desc" = "desc")
    {col : SortKey} {desc : Bool} (hsort : q.get "sort" = col.text)
    (horder : q.get "order" = orderText desc) : parseSort lower q = (col, desc) := by
  have hne : col.text ≠ "" := by cases col <;> decide
  unfold parseSort
  rw [hsort, horder, ofText_text]
  cases desc
  · simp [hne, orderText, show trimSpace "asc" = "asc" by decide, hasc]
  · simp [hne, orderText, show trimSpace "desc" = "desc" by decide, hdesc]

theorem asks_sort (hasc : lower "asc" = "asc") (hdesc : lower "desc" = "desc")
    (h : Asks lower first v q) (col : SortKey) (limit : ℕ) :
    Asks lower first (v.click limit (.sortBy col))
      (((FinMap.erase q "offset").insert "sort" [col.text]).insert "order"
        [orderText (if v.sort = col then !v.desc else decide (col = .lastSeen))]) where
  full := full_set (full_set (full_set h.full (by simp)) (by simp)) (by simp)
  kept key hkey := by
    simp only [linkParams, Finset.mem_insert, Finset.mem_singleton, not_or] at hkey
    rw [values_set, if_neg hkey.2.1, values_set, if_neg hkey.1, values_set, if_neg hkey.2.2]
    exact h.kept key (by simp [linkParams, hkey])
  short key := by
    simp only [values_set]
    have hkey := h.short key
    split_ifs <;> simp
    omega
  sort := by
    apply parseSort_of_get hasc hdesc
    · simp [Query.get, values_set, View.click]
    · simp [Query.get, values_set, View.click]
  offset := by
    unfold parseOffset
    simp [Query.get, values_set, View.click]

theorem asks_page (h : Asks lower first v q) {limit : ℕ} (hlimit : parseLimit first = .ok limit)
    {p : ℤ} (hfits : (p - 1).toNat * limit < 2 ^ 63) :
    Asks lower first (v.click limit (.page p)) (pageQuery q ((p - 1).toNat * limit)) where
  full := full_set h.full (by simp)
  kept key hkey := by
    have hoffset : key ≠ "offset" := by
      rintro rfl
      exact hkey (by decide)
    rw [values_pageQuery hoffset, h.kept key hkey]
  short key := by
    rw [pageQuery, values_set]
    split_ifs
    · simp
    · exact h.short key
  sort := by
    have hsort := h.sort
    unfold parseSort at hsort ⊢
    rwa [get_pageQuery (by decide), get_pageQuery (by decide)]
  offset := by
    have hlimit' := parseLimit_of_parsePagination (h.parsePagination_eq hlimit)
    exact parseOffset_of_parsePagination (parsePagination_pageQuery hlimit' hfits)

theorem sortHref_eq (q : Query) (col curSort : SortKey) (curDesc : Bool) :
    sortHref q col curSort curDesc =
      [slash] ++ pollQuery (((FinMap.erase q "offset").insert "sort" [col.text]).insert "order"
        [orderText (if curSort = col then !curDesc else decide (col = .lastSeen))]) := by
  unfold sortHref pollQuery
  exact (apply_ite (fun text : Bytes => [slash] ++ text) _ _ _).symm

theorem queryWith_eq {q : Query} {key val : String} (hval : val ≠ "") :
    queryWith q key val = pollQuery (FinMap.insert q key [val]) := by
  unfold queryWith pollQuery
  rw [if_neg hval]

end Links

/-! ### Runs -/

/-- The request is walked in the order of its maps, over a fleet that fits into
memory. -/
structure Visit.Serves (visit : Visit) (q : Query) : Prop where
  orders : visit.it.Of rt visit.handler.registry q
  fits : (visit.handler.mergedAgents visit.it.shards visit.now).1.length + maxLimit ≤ 2 ^ 63

/-- The request of a click is walked like that. -/
def Served (b : Browser) (a : Click × Visit) : Prop :=
  ∀ t q, link b a.1 = some t → urlQuery t = some q → a.2.Serves rt q

/-- The browser shows a view of the first query, as it was served last. -/
structure Shows (first : Query) (limit : ℕ) (b : Browser) (s : View × Visit) : Prop where
  asks : Asks lower first s.1 b.page
  table : b.table = b.page
  data : b.data = tablePage rt lower first limit s.1 s.2
  fits : b.data.total + maxLimit ≤ 2 ^ 63

section Runs

variable {rt lower} {first : Query} {limit : ℕ} {b : Browser} {s : View × Visit}

theorem total_le (first : Query) (limit : ℕ) (v : View) (visit : Visit) :
    (tablePage rt lower first limit v visit).total ≤
      (visit.handler.mergedAgents visit.it.shards visit.now).1.length := by
  change (sortAgents lower _ v.sort v.desc).length ≤ _
  rw [sortAgents, List.length_mergeSort]
  exact List.length_filter_le _ _

theorem pageList_pos {total limit : ℕ} {pages : List ℤ} (hpages : pageList total limit = some pages)
    {p : ℤ} (hp : p ∈ pages) : 0 < total := by
  rcases Nat.eq_zero_or_pos total with rfl | hpos
  · obtain rfl : [] = pages := Option.some.inj hpages
    cases hp
  · exact hpos

/-- The text of an offset that is shown is the window of its page. -/
theorem offset_of_mem_pageList {total limit : ℕ} (hlimit : 0 < limit)
    (hfits : total + limit ≤ 2 ^ 63) {pages : List ℤ} (hpages : pageList total limit = some pages)
    {p : ℤ} (hp : p ∈ pages) :
    (pageOffset p limit).repr = ((p - 1).toNat * limit).repr ∧ (p - 1).toNat * limit < 2 ^ 63 := by
  have htotal := pageList_pos hpages hp
  have hfits' : (total + limit : ℤ) ≤ 2 ^ 63 := by omega
  obtain ⟨pages', hpages', -, hmem⟩ := exists_pageList (by omega) (by omega) hfits'
  obtain rfl : pages = pages' := Option.some.inj (hpages.symm.trans hpages')
  obtain ⟨hone, hin⟩ := (hmem p).mp hp
  have hcast : (p - 1) * (limit : ℤ) = (((p - 1).toNat * limit : ℕ) : ℤ) := by
    rw [Nat.cast_mul, Int.toNat_of_nonneg (by omega)]
  rw [pageOffset_eq (by omega) hfits' hone hin, hcast]
  refine ⟨rfl, ?_⟩
  rw [hcast] at hin
  omega

/-- The query a click is to ask for. -/
def clickQuery (limit : ℕ) (v : View) (q : Query) : Click → Query
  | .sortBy col =>
      ((FinMap.erase q "offset").insert "sort" [col.text]).insert "order"
        [orderText (if v.sort = col then !v.desc else decide (col = .lastSeen))]
  | .page p => pageQuery q ((p - 1).toNat * limit)
  | .poll => q

/-- A link asks for what its click stands for, and its text is read back as that. -/
theorem urlQuery_link (hasc : lower "asc" = "asc") (hdesc : lower "desc" = "desc")
    (hlimit : parseLimit first = .ok limit) (hfew : (pairs first).length + 3 ≤ maxParams)
    (h : Shows rt lower first limit b s) {c : Click} {target : Bytes}
    (hlink : link b c = some target) :
    urlQuery target = some (clickQuery limit s.1 b.page c) ∧
      Asks lower first (s.1.click limit c) (clickQuery limit s.1 b.page c) := by
  cases c with
  | sortBy col =>
    unfold link at hlink
    split_ifs at hlink
    obtain rfl := Option.some.inj hlink
    have hsort := asks_sort hasc hdesc h.asks col limit
    rw [sortHref_eq, h.table, h.data]
    exact ⟨hsort.urlQuery_eq hfew (by decide), hsort⟩
  | page p =>
    obtain ⟨pages, hpages, hshown⟩ := Option.bind_eq_some_iff.mp hlink
    split_ifs at hshown with hin
    obtain rfl := Option.some.inj hshown
    have hdata : b.data.limit = limit := by
      rw [h.data]
      rfl
    obtain ⟨hpos, hmax⟩ := parseLimit_bounds hlimit
    have hfits := h.fits
    rw [hdata] at hpages ⊢
    obtain ⟨htext, hlt⟩ := offset_of_mem_pageList hpos (by omega) hpages hin.2.1
    have hpage := asks_page h.asks hlimit hlt
    have hne : ((p - 1).toNat * limit).repr ≠ "" := by
      intro hempty
      have hsome := atoi_repr hlt
      rw [hempty, show atoi "" = none by decide] at hsome
      cases hsome
    have hread := hpage.urlQuery_eq hfew (show question ∉ [slash] by decide)
    rw [htext, h.table, queryWith_eq hne]
    exact ⟨hread, hpage⟩
  | poll =>
    obtain rfl := Option.some.inj hlink
    exact ⟨h.asks.urlQuery_eq hfew (by decide), h.asks⟩

/-- A link that is shown is answered with what its click stands for. -/
theorem shows_step (hasc : lower "asc" = "asc") (hdesc : lower "desc" = "desc")
    (haccepted : Accepted rt first) (hlimit : parseLimit first = .ok limit)
    (hfew : (pairs first).length + 3 ≤ maxParams) (h : Shows rt lower first limit b s) {c : Click}
    {visit : Visit} {target : Bytes} (hlink : link b c = some target)
    (hvisit : visit.Serves rt (clickQuery limit s.1 b.page c)) :
    ∃ b', step rt lower b (c, visit) = some b' ∧
      Shows rt lower first limit b' (s.1.click limit c, visit) ∧
      b'.page = clickQuery limit s.1 b.page c := by
  obtain ⟨hquery, hasks⟩ := urlQuery_link hasc hdesc hlimit hfew h hlink
  have hserved := hasks.served_eq haccepted hlimit hvisit.orders
  have hfits : (tablePage rt lower first limit (s.1.click limit c) visit).total + maxLimit ≤
      2 ^ 63 := (Nat.add_le_add_right (total_le first limit _ visit) _).trans hvisit.fits
  unfold step
  rw [hlink, Option.bind_some, hquery, Option.bind_some]
  cases c with
  | poll => exact ⟨_, congrArg (Option.map _) hserved, ⟨h.asks, rfl, rfl, hfits⟩, rfl⟩
  | sortBy col => exact ⟨_, congrArg (Option.map _) hserved, ⟨hasks, rfl, rfl, hfits⟩, rfl⟩
  | page p => exact ⟨_, congrArg (Option.map _) hserved, ⟨hasks, rfl, rfl, hfits⟩, rfl⟩

/-- One more link that is shown can be followed. -/
theorem exists_run_cons (hasc : lower "asc" = "asc") (hdesc : lower "desc" = "desc")
    (haccepted : Accepted rt first) (hlimit : parseLimit first = .ok limit)
    (hfew : (pairs first).length + 3 ≤ maxParams) (h : Shows rt lower first limit b s) {c : Click}
    {visit : Visit} {acts : List (Click × Visit)} (hlink : (link b c).isSome)
    (hvisit : visit.Serves rt (clickQuery limit s.1 b.page c))
    (hrest : ∀ b', Shows rt lower first limit b' (s.1.click limit c, visit) →
      b'.page = clickQuery limit s.1 b.page c →
      ∃ b'', Along (step rt lower) (Served rt) b' acts ∧ run (step rt lower) b' acts = some b'') :
    ∃ b'', Along (step rt lower) (Served rt) b ((c, visit) :: acts) ∧
      run (step rt lower) b ((c, visit) :: acts) = some b'' := by
  obtain ⟨target, htarget⟩ := Option.isSome_iff_exists.mp hlink
  obtain ⟨b', hstep, hshows, hpage⟩ :=
    shows_step hasc hdesc haccepted hlimit hfew h htarget hvisit
  obtain ⟨b'', halong, hrun⟩ := hrest b' hshows hpage
  refine ⟨b'', ⟨fun t q ht hq => ?_, fun b₁ hb₁ => ?_⟩, run_cons_eq_some.mpr ⟨b', hstep, hrun⟩⟩
  · obtain ⟨hquery, -⟩ := urlQuery_link hasc hdesc hlimit hfew h ht
    obtain rfl := Option.some.inj (hq.symm.trans hquery)
    exact hvisit
  · obtain rfl := Option.some.inj (hstep.symm.trans hb₁)
    exact halong

variable (lower) in
theorem shows_openPage {limit offset : ℕ} (hfull : Values.Full first)
    (haccepted : Accepted rt first) (hpage : parsePagination first = .ok (limit, offset)) {visit : Visit}
    (hvisit : visit.Serves rt first) :
    ∃ b, openPage rt lower visit first = some b ∧
      Shows rt lower first limit b (.asked lower first offset, visit) := by
  have hasks : Asks lower first (.asked lower first offset) first :=
    { full := hfull
      kept := fun _ _ => rfl
      short := fun _ => Nat.le_succ _
      sort := rfl
      offset := parseOffset_of_parsePagination hpage }
  have hserved := hasks.served_eq haccepted (parseLimit_of_parsePagination hpage) hvisit.orders
  refine ⟨_, congrArg (Option.map _) hserved, hasks, rfl, rfl, ?_⟩
  exact (Nat.add_le_add_right (total_le _ limit _ visit) _).trans hvisit.fits

end Runs

/-- A click moves the view, and its request is the last one that was served. -/
def follow (limit : ℕ) (s : View × Visit) (a : Click × Visit) : View × Visit :=
  (s.1.click limit a.1, a.2)

theorem foldl_follow (limit : ℕ) (v : View) (visit : Visit) (acts : List (Click × Visit)) :
    acts.foldl (follow limit) (v, visit) =
      ((acts.map Prod.fst).foldl (View.click limit) v,
        ((acts.map Prod.snd).getLast?).getD visit) := by
  induction acts generalizing v visit with
  | nil => rfl
  | cons a acts ih =>
    rw [List.foldl_cons, follow, ih, List.map_cons, List.foldl_cons, List.map_cons,
      List.getLast?_cons, Option.getD_some]

/-- From any request that has a query and is answered: however its links are followed,
the table shows the view that the clicks stand for, of the agents that match the filters
of that request, and every link it shows has a query and is answered. -/
theorem navigation_refines (hasc : lower "asc" = "asc") (hdesc : lower "desc" = "desc")
    (target : Bytes) (first : Query) (htarget : urlQuery target = some first) (limit offset : ℕ)
    (haccepted : Accepted rt first) (hpage : parsePagination first = .ok (limit, offset))
    (hfew : (pairs first).length + 3 ≤ maxParams) (visit : Visit)
    (hvisit : visit.Serves rt first) :
    ∃ b₀, openPage rt lower visit first = some b₀ ∧ ∀ acts b,
      Along (step rt lower) (Served rt) b₀ acts →
      run (step rt lower) b₀ acts = some b →
      b.data = tablePage rt lower first limit
        ((acts.map Prod.fst).foldl (View.click limit) (.asked lower first offset))
        (((acts.map Prod.snd).getLast?).getD visit) ∧
      ∀ c t, link b c = some t → ∃ q, urlQuery t = some q ∧
        ∀ visit', visit'.Serves rt q → (step rt lower b (c, visit')).isSome := by
  have hlimit := parseLimit_of_parsePagination hpage
  obtain ⟨b₀, hopen, hshows⟩ :=
    shows_openPage lower (full_parseQuery _ htarget) haccepted hpage hvisit
  refine ⟨b₀, hopen, fun acts b halong hrun => ?_⟩
  have hend : Shows rt lower first limit b
      (acts.foldl (follow limit) (.asked lower first offset, visit)) := by
    refine run_simulates (fun b s a b' hb hserves hstep => ?_) hshows halong hrun
    obtain ⟨t, hlink, -⟩ := Option.bind_eq_some_iff.mp hstep
    obtain ⟨hquery, -⟩ := urlQuery_link hasc hdesc hlimit hfew hb hlink
    obtain ⟨b'', hstep', hb', -⟩ :=
      shows_step hasc hdesc haccepted hlimit hfew hb hlink (hserves t _ hlink hquery)
    obtain rfl : b' = b'' := Option.some.inj (hstep.symm.trans hstep')
    exact hb'
  constructor
  · rw [hend.data, foldl_follow]
  · intro c t hlink
    obtain ⟨hquery, -⟩ := urlQuery_link hasc hdesc hlimit hfew hend hlink
    refine ⟨_, hquery, fun visit' hserves => ?_⟩
    obtain ⟨b', hstep, -⟩ := shows_step hasc hdesc haccepted hlimit hfew hend hlink hserves
    rw [hstep]
    rfl

/-- Pages of one agent each, of the agents outside production. -/
def pinned : Query := FinMap.insert oneEach "match" ["env!=prod"]

/-- A request with these parameters, over the two stored agents. -/
def storedVisit (params : List String) : Visit :=
  ⟨reader, ⟨fun _ => [], params, fun _ => []⟩, params, 0⟩

theorem storedVisit_serves {params : List String} {q : Query}
    (hparams : FinMap.Enumerates params q.keys) (hfields : ∀ field : BoolField, field.name ∉ params) :
    (storedVisit params).Serves .core q := by
  refine ⟨⟨fun _ _ => ⟨List.nodup_nil, fun _ => ?_⟩, hparams, fun f hf i => ?_⟩, ?_⟩
  · simp [storedVisit, reader, Registry.new]
  · refine ⟨List.nodup_nil, fun field => ?_⟩
    simpa [storedVisit] using fun hmem => hfields field (name_mem_of_mem_bools hparams hf hmem)
  · change (reader.mergedAgents (fun _ => []) 0).1.length + maxLimit ≤ 2 ^ 63
    decide +kernel

theorem enumerates_pinned : FinMap.Enumerates ["limit", "match"] pinned.keys := by decide

theorem parseFilters_pinned : parseFilters .core pinned ["limit", "match"] =
    .ok ⟨[⟨"env", .notEqual, "prod", none⟩], ∅⟩ := by
  have hvalues : pinned.values "match" = ["env!=prod"] := by decide +kernel
  have hparse : parseMatcher .core "env!=prod" = .ok ⟨"env", .notEqual, "prod", none⟩ :=
    parseMatcher_ok_iff.mpr ⟨by decide +kernel, rfl⟩
  have hmatch := readMatch_of_parse (by decide +kernel) hparse
  unfold parseFilters reads
  rw [hvalues, List.map_singleton, hmatch]
  rfl

/-- The stored agents match, whatever the view. -/
theorem total_pinned (v : View) (params : List String) :
    (tablePage .core id pinned 1 v (storedVisit params)).total = 2 := by
  change (sortAgents id _ v.sort v.desc).length = 2
  rw [sortAgents, List.length_mergeSort]
  change ((reader.mergedAgents (fun _ => []) 0).1.filter fun a =>
    decide (Satisfies .core pinned a)).length = 2
  have hfields : ∀ i, FinMap.Enumerates ((fun _ : ℕ => ([] : List BoolField)) i)
      (∅ : FinMap BoolField Bool).keys := fun _ => ⟨List.nodup_nil, by simp⟩
  rw [← matchingAgents_of_parse enumerates_pinned parseFilters_pinned hfields]
  decide +kernel

/-- A column header, the second page, and a poll of it. -/
def followed : List (Click × Visit) :=
  [(.sortBy .name, storedVisit ["limit", "match", "sort", "order"]),
    (.page 2, storedVisit ["limit", "match", "sort", "order", "offset"]),
    (.poll, storedVisit ["limit", "match", "sort", "order", "offset"])]

/-- The filter and the size of the pages are kept on the way. -/
theorem navigation_refines_followed :
    ∃ b₀ b, openPage .core id (storedVisit ["limit", "match"]) pinned = some b₀ ∧
      run (step .core id) b₀ followed = some b ∧
      b.data = tablePage .core id pinned 1 ⟨.name, false, 1⟩
        (storedVisit ["limit", "match", "sort", "order", "offset"]) ∧
      b.data.total = 2 := by
  have hfull : Values.Full pinned := full_set (full_set (fun _ h => by cases h) (by simp)) (by simp)
  have hpairs : (pairs pinned).length = 2 := by
    rw [length_pairs]
    decide
  have htarget : urlQuery ([slash] ++ pollQuery pinned) = some pinned :=
    urlQuery_append (by decide) hfull (by rw [hpairs]; decide)
  have haccepted : Accepted .core pinned :=
    (parseFilters_ok_iff enumerates_pinned).mp ⟨_, parseFilters_pinned⟩
  have hpage : parsePagination pinned = .ok (1, 0) := by decide +kernel
  have hlimit := parseLimit_of_parsePagination hpage
  have hfew : (pairs pinned).length + 3 ≤ maxParams := by
    rw [hpairs]
    decide
  have hserves : (storedVisit ["limit", "match"]).Serves .core pinned :=
    storedVisit_serves enumerates_pinned (by rintro ⟨⟩ <;> decide)
  obtain ⟨b₀, hopen, hruns⟩ := navigation_refines .core id rfl rfl _ pinned htarget 1 0 haccepted
    hpage hfew _ hserves
  obtain ⟨b₀', hopen', hshows₀⟩ := shows_openPage id hfull haccepted hpage hserves
  obtain rfl := Option.some.inj (hopen.symm.trans hopen')
  have hpage₀ : b₀.page = pinned := by
    obtain ⟨data, -, rfl⟩ := Option.map_eq_some_iff.mp hopen
    rfl
  obtain ⟨b, halong, hrun⟩ : ∃ b, Along (step .core id) (Served .core) b₀ followed ∧
      run (step .core id) b₀ followed = some b := by
    refine exists_run_cons rfl rfl haccepted hlimit hfew hshows₀ ?_ ?_ fun b₁ hshows₁ hpage₁ =>
      exists_run_cons rfl rfl haccepted hlimit hfew hshows₁ ?_ ?_ fun b₂ hshows₂ hpage₂ =>
      exists_run_cons rfl rfl haccepted hlimit hfew hshows₂ rfl ?_ fun b₃ _ _ => ⟨b₃, trivial, rfl⟩
    · unfold link
      rw [hshows₀.data, total_pinned]
      rfl
    · rw [hpage₀]
      exact storedVisit_serves (by decide) (by rintro ⟨⟩ <;> decide)
    · unfold link
      rw [hshows₁.data, total_pinned]
      rfl
    · rw [hpage₁, hpage₀]
      exact storedVisit_serves (by decide) (by rintro ⟨⟩ <;> decide)
    · rw [hpage₂, hpage₁, hpage₀]
      exact storedVisit_serves (by decide) (by rintro ⟨⟩ <;> decide)
  obtain ⟨hdata, -⟩ := hruns followed b halong hrun
  exact ⟨b₀, b, hopen, hrun, hdata, by rw [hdata]; exact total_pinned _ _⟩

end Grex.Navigation
