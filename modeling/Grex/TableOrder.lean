import Grex.FleetPage

/-!
The fleet table from one refresh to the next. Every column compares agents by a key
and breaks ties by uid, so agents with distinct uids have one order, which does not
depend on the order the registry was walked in or on the sort that was used. The page
numbers are 64-bit integers; the pages of a total lie side by side.
-/

namespace Grex.TableOrder

open GoTime AgentState AgentViews Matchers Filtering SortedWindows Pages FleetPage

/-! ### The order of a column -/

/-- The order of a column before ties are broken. -/
def compareColumn (lower : String → String) : SortKey → Agent → Agent → Ordering
  | .status => compareOn statusRank
  | .name => compareOn fun a => lower (displayNameOf a)
  | .role => compareOn fun a => lower (roleOf lower a)
  | .version => compareOn fun a => attr a "service.version"
  | .via => compareOn fun a => a.conn.viaGateway.toNat
  | .transport => compareOn fun a => a.conn.transport
  | .lastSeen => compareOn Agent.lastSeen
  | .instanceUID => compareOn Agent.instanceUID

variable (lower : String → String) (sortKey : SortKey)

instance transCmp_compareColumn : Std.TransCmp (compareColumn lower sortKey) := by
  cases sortKey <;> exact inferInstanceAs (Std.TransCmp (compareOn _))

theorem compareBy_asc : compareBy lower sortKey false =
    compareLex (compareColumn lower sortKey) (compareOn Agent.instanceUID) := by
  have hties : ∀ c d : Ordering, (if c = .eq then d else c) = c.then d := by
    intro c d
    cases c <;> rfl
  funext a b
  cases sortKey with
  | instanceUID => simp [compareBy, compareLex, compareColumn, compareOn]
  | _ =>
    simp only [compareBy, compareLex, compareColumn, compareOn, Bool.false_eq_true, if_false, ne_eq,
      reduceCtorEq, not_false_eq_true, and_true, hties]

theorem compareBy_desc (a b : Agent) :
    compareBy lower sortKey true a b = (compareBy lower sortKey false a b).swap := rfl

instance transCmp_compareBy (desc : Bool) : Std.TransCmp (compareBy lower sortKey desc) := by
  have hasc : Std.TransCmp (compareBy lower sortKey false) := by
    rw [compareBy_asc]
    infer_instance
  cases desc with
  | false => exact hasc
  | true =>
    have hflip : compareBy lower sortKey true = fun a b => compareBy lower sortKey false b a := by
      funext a b
      rw [compareBy_desc]
      exact Std.OrientedCmp.eq_swap.symm
    rw [hflip]
    exact Std.TransCmp.opposite

/-- How many pages a total fills. -/
def pageCount (total limit : ℤ) : ℤ :=
  if total ≤ 0 ∨ limit ≤ 0 then 0 else (int64 (int64 (total + limit) - 1)).tdiv limit

/-- The number, from 1, of the page at an offset. -/
def pageNum (offset limit : ℤ) : ℤ :=
  if limit ≤ 0 then 1 else int64 (offset.tdiv limit + 1)

/-- The offset of a page, by its number. -/
def pageOffset (page limit : ℤ) : ℤ :=
  let page := if page < 1 then 1 else page
  if limit ≤ 0 then 0 else int64 (int64 (page - 1) * limit)

/-- The numbers of the pages of a total; `none` is a negative length. -/
def pageList (total limit : ℤ) : Option (List ℤ) :=
  let n := pageCount total limit
  if n = 0 then some []
  else if n < 0 then none
  else some ((List.range n.toNat).map fun i : ℕ => int64 (i + 1))

/-- The windows of the pages lie side by side over a total, and a page is found again
from its offset. -/
structure Tiles (total limit : ℤ) (pages : List ℤ) : Prop where
  nodup : pages.Nodup
  offset : ∀ p ∈ pages, 0 ≤ pageOffset p limit ∧ pageOffset p limit < total
  num : ∀ p ∈ pages, pageNum (pageOffset p limit) limit = p
  cover : ∀ i, 0 ≤ i → i < total →
    ∃! p, p ∈ pages ∧ pageOffset p limit ≤ i ∧ i < pageOffset p limit + limit

section Pages

variable {total limit : ℤ} (htotal : 0 < total) (hlimit : 0 < limit)
  (hfits : total + limit ≤ 2 ^ 63)

include htotal hlimit hfits

theorem pageCount_eq : pageCount total limit = (total + limit - 1) / limit := by
  have hwrap : int64 (int64 (total + limit) - 1) = total + limit - 1 := by
    unfold int64
    rw [Int.bmod_sub_bmod]
    exact int64_eq_self (by unfold minDuration; omega) (by unfold maxDuration; omega)
  unfold pageCount
  rw [if_neg (by omega), hwrap, Int.tdiv_eq_ediv_of_nonneg (by omega)]

theorem le_pageCount_iff (p : ℤ) : p ≤ pageCount total limit ↔ (p - 1) * limit < total := by
  rw [pageCount_eq htotal hlimit hfits, Int.le_ediv_iff_mul_le hlimit, Int.sub_mul, Int.one_mul]
  omega

theorem pageCount_le : pageCount total limit ≤ maxDuration := by
  rw [pageCount_eq htotal hlimit hfits]
  have hself := Int.ediv_le_self limit (show 0 ≤ total + limit - 1 by omega)
  unfold maxDuration
  omega

theorem exists_pageList : ∃ pages, pageList total limit = some pages ∧ pages.Nodup ∧
    ∀ p, p ∈ pages ↔ 1 ≤ p ∧ (p - 1) * limit < total := by
  have hpos : 1 ≤ pageCount total limit := by
    rw [le_pageCount_iff htotal hlimit hfits]
    simpa using htotal
  have hmax := pageCount_le htotal hlimit hfits
  have hlist : ((List.range (pageCount total limit).toNat).map fun i : ℕ => int64 (i + 1)) =
      (List.range (pageCount total limit).toNat).map fun i : ℕ => (i + 1 : ℤ) := by
    apply List.map_congr_left
    intro i hi
    have hlt := List.mem_range.mp hi
    exact int64_eq_self (by unfold minDuration; omega) (by omega)
  refine ⟨_, by unfold pageList; rw [if_neg (by omega), if_neg (by omega), hlist], ?_, fun p => ?_⟩
  · refine List.nodup_range.map fun i j hij => ?_
    simpa using hij
  · rw [← le_pageCount_iff htotal hlimit hfits, List.mem_map]
    constructor
    · rintro ⟨i, hi, rfl⟩
      have hlt := List.mem_range.mp hi
      omega
    · rintro ⟨hone, hle⟩
      exact ⟨(p - 1).toNat, List.mem_range.mpr (by omega), by omega⟩

omit htotal hfits in
/-- A page number is no larger than the offset after it. -/
theorem pred_le_mul {p : ℤ} (hone : 1 ≤ p) : p - 1 ≤ (p - 1) * limit := by
  have hmul := Int.mul_le_mul_of_nonneg_left (show 1 ≤ limit by omega) (show 0 ≤ p - 1 by omega)
  rwa [Int.mul_one] at hmul

omit htotal in
/-- The offset of a page whose window starts inside the total. -/
theorem pageOffset_eq {p : ℤ} (hone : 1 ≤ p) (hp : (p - 1) * limit < total) :
    pageOffset p limit = (p - 1) * limit := by
  have hnonneg : 0 ≤ (p - 1) * limit := Int.mul_nonneg (by omega) hlimit.le
  have hself := pred_le_mul hlimit hone
  unfold pageOffset
  rw [if_neg (by omega), if_neg (by omega),
    int64_eq_self (x := p - 1) (by unfold minDuration; omega) (by unfold maxDuration; omega),
    int64_eq_self (by unfold minDuration; omega) (by unfold maxDuration; omega)]

omit htotal in
theorem pageNum_pageOffset {p : ℤ} (hone : 1 ≤ p) (hp : (p - 1) * limit < total) :
    pageNum (pageOffset p limit) limit = p := by
  have hself := pred_le_mul hlimit hone
  rw [pageOffset_eq hlimit hfits hone hp]
  unfold pageNum
  rw [if_neg (by omega), Int.mul_tdiv_cancel _ (by omega), Int.sub_add_cancel]
  exact int64_eq_self (by unfold minDuration; omega) (by unfold maxDuration; omega)

theorem exists_tiles : ∃ pages, pageList total limit = some pages ∧ Tiles total limit pages := by
  obtain ⟨pages, hpages, hnodup, hmem⟩ := exists_pageList htotal hlimit hfits
  refine ⟨pages, hpages, hnodup, fun p hp => ?_, fun p hp => ?_, fun i hi hlt => ?_⟩
  · obtain ⟨hone, hin⟩ := (hmem p).mp hp
    rw [pageOffset_eq hlimit hfits hone hin]
    exact ⟨Int.mul_nonneg (by omega) hlimit.le, hin⟩
  · obtain ⟨hone, hin⟩ := (hmem p).mp hp
    exact pageNum_pageOffset hlimit hfits hone hin
  · -- The page of an index is its quotient by the limit.
    have hquot := Int.mul_ediv_self_le (x := i) (k := limit) (by omega)
    have hrem := Int.lt_mul_ediv_self_add (x := i) hlimit
    have hin : (i / limit + 1 - 1) * limit < total := by
      rw [Int.add_sub_cancel, Int.mul_comm]
      omega
    have hone : 1 ≤ i / limit + 1 := by
      have hdiv := Int.ediv_nonneg hi hlimit.le
      omega
    refine ⟨i / limit + 1, ⟨(hmem _).mpr ⟨hone, hin⟩, ?_⟩, ?_⟩
    · rw [pageOffset_eq hlimit hfits hone hin, Int.add_sub_cancel, Int.mul_comm]
      exact ⟨hquot, hrem⟩
    · rintro q ⟨hq, hle, hlt'⟩
      obtain ⟨hone', hin'⟩ := (hmem q).mp hq
      rw [pageOffset_eq hlimit hfits hone' hin'] at hle hlt'
      have hq' : i / limit = q - 1 := by
        rw [Int.ediv_eq_iff_of_pos hlimit]
        exact ⟨hle, hlt'⟩
      omega

end Pages

/-- A limit is positive and capped. -/
theorem parseLimit_bounds {q : Query} {limit : ℕ} (h : parseLimit q = .ok limit) :
    0 < limit ∧ limit ≤ maxLimit := by
  unfold parseLimit at h
  split_ifs at h with hempty
  · cases h
    decide
  · split at h
    · cases h
    · split_ifs at h with hpos
      cases h
      unfold maxLimit
      omega

theorem parseLimit_of_parsePagination {q : Query} {limit offset : ℕ}
    (h : parsePagination q = .ok (limit, offset)) : parseLimit q = .ok limit := by
  unfold parsePagination at h
  cases hlimit : parseLimit q with
  | error e =>
    rw [hlimit] at h
    cases h
  | ok n =>
    cases hoffset : parseOffset q with
    | error e =>
      rw [hlimit, hoffset] at h
      cases h
    | ok m =>
      rw [hlimit, hoffset] at h
      cases h
      rfl

section Page

variable {rt : Runtime} {h : Pages.Handler} {it : Iteration} {displayed : List String} {now : ℤ}
  {q : Query} {data : PageData}

theorem limit_of_fleetData (hdata : fleetData rt lower h it displayed now q = some (.ok data)) :
    0 < data.limit ∧ data.limit ≤ maxLimit := by
  unfold fleetData at hdata
  cases hpage : parsePagination q with
  | error e =>
    rw [hpage] at hdata
    cases hdata
  | ok window =>
    obtain ⟨limit, offset⟩ := window
    cases hselected : selectedAgents rt h it now q with
    | error e =>
      rw [hpage, hselected] at hdata
      cases hdata
    | ok selected =>
      simp only [hpage, hselected] at hdata
      obtain ⟨page, -, hshown⟩ := Option.map_eq_some_iff.mp hdata
      cases hshown
      exact parseLimit_bounds (parseLimit_of_parsePagination hpage)

/-- The page numbers under a table that is not empty: the total is the length of a
list in memory, which leaves room for the capped limit. -/
theorem fleetData_tiles (hdata : fleetData rt lower h it displayed now q = some (.ok data))
    (hne : data.total ≠ 0) (hfits : data.total + maxLimit ≤ 2 ^ 63) :
    ∃ pages, pageList data.total data.limit = some pages ∧ Tiles data.total data.limit pages := by
  obtain ⟨hpos, hmax⟩ := limit_of_fleetData lower hdata
  exact exists_tiles (by omega) (by omega) (by omega)

end Page

/-! ### From one refresh to the next -/

end Grex.TableOrder
