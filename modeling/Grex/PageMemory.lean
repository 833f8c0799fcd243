import Grex.GoSlices
import Grex.Pages

/-!
The page of the read API over the memory it works in. The list it is given is only
read: the page is picked in an array of its own, which is then sorted in place by a
sort that need not be stable. The run computes the window of the listing, and leaves
everything allocated before it as it was.
-/

namespace Grex.PageMemory

open AgentState SortedWindows Pages GoSlices

/-! ### The code -/

/-- The order agents are sorted in. -/
def compareInstanceUID (a b : Agent) : Ordering :=
  if a.instanceUID < b.instanceUID then .lt
  else if b.instanceUID < a.instanceUID then .gt
  else .eq

/-- One agent of the loop: the heap keeps it while there is room, and in place of the
root where its uid is smaller. -/
def keepSmallest (stop : ℕ) (h : Slice) (a : Agent) : Program Agent Slice := do
  if h.length < stop then
    heapPush uidKey h a
  else
    let root ← index h 0
    if a.instanceUID < root.instanceUID then
      assign h 0 a
      heapFix uidKey h 0
      return h
    else return h

/-- `pageByInstanceUID`; `sort` is what `slices.SortFunc` does to the entries of a
slice. -/
def pageByInstanceUID (sort : List Agent → List Agent) (agents : Slice) (start stop : ℕ) :
    Program Agent Slice := do
  if stop = 0 then return {}
  else if agents.length ≤ stop then
    let sorted ← clone agents
    rearrange sorted sort
    subslice sorted start stop
  else
    let h ← make { instanceUID := "" } 0 stop
    let page ← (List.range agents.length).foldlM (fun h i => do
      let a ← index agents i
      keepSmallest stop h a) h
    rearrange page sort
    subslice page start stop

/-! ### The page as a list -/

/-- The page of a list of agents, for any sort. -/
def pageWith (sort : List Agent → List Agent) (agents : List Agent) (start stop : ℕ) :
    Option (List Agent) :=
  if stop = 0 then some []
  else if agents.length ≤ stop then slice (sort agents) start stop
  else
    (agents.foldlM (Heap.offer uidKey stop) #[]).bind fun page =>
      slice (sort page.toList) start stop

theorem pageWith_sortByInstanceUID (agents : List Agent) (start stop : ℕ) :
    pageWith sortByInstanceUID agents start stop = Pages.pageByInstanceUID agents start stop := rfl

theorem compareInstanceUID_ne_gt {a b : Agent} (h : compareInstanceUID a b ≠ .gt) :
    a.instanceUID ≤ b.instanceUID := by
  unfold compareInstanceUID at h
  split_ifs at h with hlt hgt
  · exact hlt.le
  · exact absurd rfl h
  · exact not_lt.mp hgt

section Sorting

variable {sort : List Agent → List Agent} (hsort : Sorts compareInstanceUID sort)
include hsort

theorem pairwise_sort (l : List Agent) :
    (sort l).Pairwise fun a b => a.instanceUID ≤ b.instanceUID :=
  (hsort.pairwise l).imp compareInstanceUID_ne_gt

theorem length_sort (l : List Agent) : (sort l).length = l.length := (hsort.perm l).length_eq

/-- The agents kept by the heap, sorted, have the uids of the start of the listing. -/
theorem map_sort_of_split {l low high : List Agent} (hperm : (low ++ high).Perm l)
    (hle : ∀ a ∈ low, ∀ b ∈ high, a.instanceUID ≤ b.instanceUID) :
    (sort low).map Agent.instanceUID = ((sort l).take low.length).map Agent.instanceUID := by
  have hsplit : (sort low ++ sort high).Pairwise fun a b => a.instanceUID ≤ b.instanceUID := by
    apply List.pairwise_append.mpr
    refine ⟨pairwise_sort hsort low, pairwise_sort hsort high, fun a ha b hb => ?_⟩
    exact hle a ((hsort.perm low).mem_iff.mp ha) b ((hsort.perm high).mem_iff.mp hb)
  have hall : (sort low ++ sort high).Perm (sort l) :=
    (((hsort.perm low).append (hsort.perm high)).trans hperm).trans (hsort.perm l).symm
  have hkeys := map_key_eq_of_perm hall hsplit (pairwise_sort hsort l)
  rw [List.map_take, ← hkeys, List.map_append, List.take_left' (by simp [length_sort hsort])]

/-- The page is there, its agents are agents of the list, and its uids are those of
the window. -/
theorem pageWith_eq {l : List Agent} {start stop : ℕ} (hstart : start ≤ stop)
    (hstop : stop ≤ l.length) :
    ∃ page, pageWith sort l start stop = some page ∧ (∀ a ∈ page, a ∈ l) ∧
      page.map Agent.instanceUID =
        (((sort l).drop start).take (stop - start)).map Agent.instanceUID := by
  unfold pageWith
  by_cases hzero : stop = 0
  · rw [if_pos hzero, hzero, Nat.zero_sub, List.take_zero]
    exact ⟨[], rfl, by simp, rfl⟩
  rw [if_neg hzero]
  by_cases hall : l.length ≤ stop
  · rw [if_pos hall, slice_eq_some hstart (by rwa [length_sort hsort])]
    exact ⟨_, rfl, fun a ha => (hsort.perm l).mem_iff.mp (List.mem_of_mem_drop (List.mem_of_mem_take ha)),
      rfl⟩
  rw [if_neg hall]
  obtain ⟨kept, hrun, hkeeps⟩ :=
    Heap.foldlM_offer (Heap.keeps_nil uidKey stop) (Nat.pos_of_ne_zero hzero) l
  rw [List.nil_append] at hkeeps
  have hsize : kept.toList.length = stop := by
    rw [Array.length_toList, hkeeps.size]
    omega
  obtain ⟨dropped, hperm, hle⟩ := hkeeps.dropped
  have hkeys := map_sort_of_split hsort hperm fun a ha b hb =>
    OrderDual.toDual_le_toDual.mp (hle a ha b hb)
  rw [hrun, Option.bind_some, slice_eq_some hstart (by rw [length_sort hsort, hsize])]
  refine ⟨_, rfl, fun a ha => ?_, ?_⟩
  · have hkept := (hsort.perm kept.toList).mem_iff.mp (List.mem_of_mem_drop (List.mem_of_mem_take ha))
    exact hperm.subset (List.mem_append_left dropped hkept)
  · rw [List.map_take, List.map_drop, hkeys, hsize, ← List.map_drop, ← List.map_take, List.drop_take,
      List.take_take, min_self]

end Sorting

/-! ### The run -/

variable {m m' : Memory Agent}

/-- A turn of the loop does to the array what offering the agent does to the heap. -/
theorem run_keepSmallest {stop : ℕ} {h : Slice} {kept : List Agent} (hfresh : Fresh m h kept m')
    (hcap : h.capacity = stop) {a : Agent} {kept' : Array Agent}
    (hoffer : Heap.offer uidKey stop kept.toArray a = some kept') :
    ∃ h' m'', (keepSmallest stop h a).run m' = some (h', m'') ∧ Fresh m h' kept'.toList m'' ∧
      h'.capacity = stop := by
  unfold Heap.offer at hoffer
  unfold keepSmallest
  rw [hfresh.length]
  by_cases hroom : kept.length < stop
  · rw [if_pos (by rwa [List.size_toArray])] at hoffer
    obtain ⟨h', m'', hrun, hpushed, hcap'⟩ := hfresh.heapPush uidKey (hcap ▸ hroom) a
    cases hoffer
    rw [if_pos hroom]
    exact ⟨h', m'', hrun, hpushed, hcap'.trans hcap⟩
  · rw [if_neg (by rwa [List.size_toArray])] at hoffer
    rw [if_neg hroom]
    by_cases hpos : 0 < kept.toArray.size
    · rw [dif_pos hpos] at hoffer
      rw [run_bind_of_run (run_index hfresh.shows hpos)]
      -- The heap's order is the reverse of the order of the uids.
      have horder : uidKey kept.toArray[0] < uidKey a ↔ a.instanceUID < kept[0].instanceUID :=
        OrderDual.toDual_lt_toDual
      by_cases hless : a.instanceUID < kept[0].instanceUID
      · rw [if_pos (horder.mpr hless)] at hoffer
        rw [if_pos hless]
        obtain ⟨m₁, hassign, hfresh₁⟩ := hfresh.assign hpos a
        obtain ⟨m₂, hfix, hfresh₂⟩ := hfresh₁.heapFix uidKey hpos
        cases hoffer
        refine ⟨h, m₂, ?_, hfresh₂, hcap⟩
        rw [run_bind_of_run hassign, run_bind_of_run hfix]
        rfl
      · rw [if_neg (mt horder.mp hless)] at hoffer
        rw [if_neg hless]
        cases hoffer
        exact ⟨h, m', rfl, hfresh, hcap⟩
    · rw [dif_neg hpos] at hoffer
      cases hoffer

/-- The loop over the rest of the list, where the heap holds what was kept so far. -/
theorem run_loop {agents : Slice} {l seen rest : List Agent} (hagents : Shows m agents l)
    (hl : l = seen ++ rest) {stop : ℕ} {h : Slice} {kept : List Agent} (hfresh : Fresh m h kept m')
    (hcap : h.capacity = stop) {kept' : Array Agent}
    (hrun : rest.foldlM (Heap.offer uidKey stop) kept.toArray = some kept') :
    ∃ h' m'', ((List.range' seen.length rest.length).foldlM (fun h i => do
        let a ← index agents i
        keepSmallest stop h a) h : Program Agent Slice).run m' = some (h', m'') ∧
      Fresh m h' kept'.toList m'' ∧ h'.capacity = stop := by
  induction rest generalizing seen h kept m' with
  | nil =>
    cases hrun
    exact ⟨h, m', rfl, hfresh, hcap⟩
  | cons a rest ih =>
    rw [List.foldlM_cons] at hrun
    obtain ⟨kept₁, hoffer, hrest⟩ := Option.bind_eq_some_iff.mp hrun
    obtain ⟨h₁, m₁, hstep, hfresh₁, hcap₁⟩ := run_keepSmallest hfresh hcap hoffer
    have hindex : (index agents seen.length).run m' = some (a, m') := by
      have hlt : seen.length < l.length := by
        rw [hl, List.length_append, List.length_cons]
        omega
      rw [run_index (hfresh.shows_older hagents) hlt]
      simp [hl]
    obtain ⟨h', m'', hloop, hfresh', hcap'⟩ := ih (hl.trans (List.append_cons seen a rest)) hfresh₁ hcap₁ hrest
    refine ⟨h', m'', ?_, hfresh', hcap'⟩
    rw [List.length_append, List.length_singleton] at hloop
    have hturn : (index agents seen.length >>= keepSmallest stop h).run m' = some (h₁, m₁) := by
      rw [run_bind_of_run hindex, hstep]
    rw [List.length_cons, List.range'_succ, List.foldlM_cons, run_bind_of_run hturn, hloop]

/-- Sorting an array in place and cutting a window out of it. -/
theorem run_sorted_window {sort : List Agent → List Agent} (hsort : Sorts compareInstanceUID sort)
    {s : Slice} {l : List Agent} (hfresh : Fresh m s l m') {start stop : ℕ} (hstart : start ≤ stop)
    (hstop : stop ≤ l.length) :
    ∃ page m'', (do rearrange s sort; subslice s start stop : Program Agent Slice).run m' =
        some (page, m'') ∧
      Shows m'' page (((sort l).drop start).take (stop - start)) ∧ Fresh m s (sort l) m'' := by
  obtain ⟨m'', hrearrange, hfresh'⟩ := hfresh.rearrange sort (length_sort hsort l)
  have hlength : stop ≤ (sort l).length := by rwa [length_sort hsort]
  obtain ⟨page, hsub, hpage⟩ := run_subslice hfresh'.shows hstart hlength hfresh'.length_le_capacity
  refine ⟨page, m'', ?_, hpage, hfresh'⟩
  rw [run_bind_of_run hrearrange, hsub]

/-- The run returns the page of the list, in arrays that were not there before. -/
theorem run_pageByInstanceUID {sort : List Agent → List Agent}
    (hsort : Sorts compareInstanceUID sort) {agents : Slice} {l page : List Agent}
    (hagents : Shows m agents l) {start stop : ℕ} (hstart : start ≤ stop) (hstop : stop ≤ l.length)
    (hpage : pageWith sort l start stop = some page) :
    ∃ s m', (pageByInstanceUID sort agents start stop).run m = some (s, m') ∧ Shows m' s page ∧
      m <+: m' ∧ Shows m' agents l := by
  unfold pageWith at hpage
  unfold pageByInstanceUID
  rw [hagents.length]
  by_cases hzero : stop = 0
  · rw [if_pos hzero] at hpage ⊢
    cases hpage
    exact ⟨{}, m, rfl, ⟨List.take_zero, rfl⟩, List.prefix_refl m, hagents⟩
  rw [if_neg hzero] at hpage ⊢
  by_cases hall : l.length ≤ stop
  · rw [if_pos hall, slice_eq_some hstart (by rwa [length_sort hsort])] at hpage
    rw [if_pos hall]
    cases hpage
    obtain ⟨s, m₁, hclone, hfresh⟩ := fresh_clone hagents
    obtain ⟨s', m₂, hrun, hshows, hfresh'⟩ := run_sorted_window hsort hfresh hstart hstop
    refine ⟨s', m₂, ?_, hshows, hfresh'.older, hfresh'.shows_older hagents⟩
    rw [run_bind_of_run hclone, hrun]
  · rw [if_neg hall] at hpage ⊢
    obtain ⟨kept, hkept, hslice⟩ := Option.bind_eq_some_iff.mp hpage
    obtain ⟨h, m₁, hmake, hfresh, hcap⟩ := fresh_make m ({ instanceUID := "" } : Agent) stop
    obtain ⟨h', m₂, hloop, hfresh', -⟩ := run_loop hagents (List.nil_append l).symm hfresh hcap hkept
    rw [List.length_nil, ← List.range_eq_range'] at hloop
    -- The slice of the sorted heap succeeds, so the heap is full.
    unfold slice at hslice
    split_ifs at hslice with hbounds
    cases hslice
    have hfull : stop ≤ kept.toList.length := by
      rw [← length_sort hsort]
      exact hbounds.2
    obtain ⟨s', m₃, hrun, hshows, hfresh''⟩ := run_sorted_window hsort hfresh' hstart hfull
    refine ⟨s', m₃, ?_, hshows, hfresh''.older, hfresh''.shows_older hagents⟩
    rw [run_bind_of_run hmake, run_bind_of_run hloop, hrun]

/-- A page is the window of the fully sorted list, for any two sorts and in any
memory: the uids are those of the window, the agents too where no uid repeats, and
nothing that was allocated before is written to. -/
theorem page_is_window_of_sort (sort sort' : List Agent → List Agent)
    (hsort : Sorts compareInstanceUID sort) (hsort' : Sorts compareInstanceUID sort')
    (m : Memory Agent) (agents : Slice) (l : List Agent) (hagents : Shows m agents l) (start stop : ℕ)
    (hstart : start ≤ stop) (hstop : stop ≤ l.length) :
    ∃ page m', (pageByInstanceUID sort agents start stop).run m = some (page, m') ∧
      (entries m' page).map Agent.instanceUID =
        (((sort' l).drop start).take (stop - start)).map Agent.instanceUID ∧
      ((l.map Agent.instanceUID).Nodup →
        entries m' page = ((sort' l).drop start).take (stop - start)) ∧
      m <+: m' ∧ entries m' agents = l := by
  obtain ⟨page, hpage, hmem, hkeys⟩ := pageWith_eq hsort hstart hstop
  obtain ⟨s, m', hrun, hshows, holder, hsame⟩ := run_pageByInstanceUID hsort hagents hstart hstop hpage
  have hsorts := map_key_eq_of_perm ((hsort.perm l).trans (hsort'.perm l).symm)
    (pairwise_sort hsort l) (pairwise_sort hsort' l)
  have hwindow : page.map Agent.instanceUID =
      (((sort' l).drop start).take (stop - start)).map Agent.instanceUID := by
    rw [hkeys, List.map_take, List.map_drop, hsorts, ← List.map_drop, ← List.map_take]
  refine ⟨s, m', hrun, by rw [hshows.entries, hwindow], fun hnodup => ?_, holder, hsame.entries⟩
  rw [hshows.entries]
  refine eq_of_map_key_eq hnodup hmem (fun a ha => ?_) hwindow
  exact (hsort'.perm l).mem_iff.mp (List.mem_of_mem_drop (List.mem_of_mem_take ha))

theorem sorts_sortByInstanceUID : Sorts compareInstanceUID sortByInstanceUID where
  perm := perm_sortBy Agent.instanceUID
  pairwise l := by
    refine (pairwise_sortBy Agent.instanceUID l).imp fun {a b} hle => ?_
    unfold compareInstanceUID
    split_ifs with hlt hgt
    · decide
    · exact absurd hgt (not_lt.mpr hle)
    · decide

/-- The first of the two stored agents, out of an array that holds them. -/
theorem page_of_stored :
    ∃ page m', (pageByInstanceUID sortByInstanceUID ⟨0, 0, 2, 2⟩ 0 1).run [stored] =
        some (page, m') ∧
      entries m' page = ((sortByInstanceUID stored).drop 0).take (1 - 0) := by
  obtain ⟨page, m', hrun, -, hagents, -⟩ := page_is_window_of_sort sortByInstanceUID sortByInstanceUID
    sorts_sortByInstanceUID sorts_sortByInstanceUID [stored] ⟨0, 0, 2, 2⟩ stored ⟨rfl, rfl⟩ 0 1
    (by decide) (by decide)
  exact ⟨page, m', hrun, hagents (by decide)⟩

end Grex.PageMemory
