import Grex.AgentViews
import Grex.BareParams
import Grex.MatcherForm
import Grex.SortedWindows

/-!
The filters the page offers. A chip or a completion is taken from either attribute
map of some agent and sent back as the text of a matcher; it selects an agent that
has it where the text is read back as written and no identifying attribute of the
same key stands before it.
-/

namespace Grex.OfferedFilters

open GoText Regex AgentState AgentViews Matchers Filtering BareParams SortedWindows

/-- The attributes of a map by key. -/
def attrPairs (m : FinMap String String) : List (String × String) :=
  (sorted m.keys).filterMap fun k => (m.find k).map fun v => (k, v)

/-- Identifying attributes first; blank values are skipped. -/
def attrChips (a : AgentView) : List (String × String) :=
  let shown (m : FinMap String String) := (attrPairs m).filter fun p => trimSpace p.2 ≠ ""
  shown a.identifying ++ shown a.nonIdentifying

/-- The values of one attribute across the fleet, sorted and without repetition. -/
def attributeValues (agents : List Agent) (key : String) : List String :=
  if key = "" then []
  else sorted (agents.flatMap fun a => (a.identifying.find key).toList ++
    (a.nonIdentifying.find key).toList).toFinset

/-- The attribute stands in one of the agent's two maps. -/
def Carries (a : Agent) (k v : String) : Prop :=
  a.identifying.find k = some v ∨ a.nonIdentifying.find k = some v

theorem mem_attrPairs {m : FinMap String String} {k v : String} :
    (k, v) ∈ attrPairs m ↔ m.find k = some v := by
  simp only [attrPairs, List.mem_filterMap, mem_sorted, Option.map_eq_some_iff,
    Prod.mk.injEq]
  constructor
  · rintro ⟨k', -, v', hfind, rfl, rfl⟩
    exact hfind
  · intro hfind
    exact ⟨k, (m.mem_keys_iff k).mpr ⟨v, hfind⟩, v, hfind, rfl, rfl⟩

theorem mem_attrChips {lower : String → String} {a : Agent} {k v : String} :
    (k, v) ∈ attrChips (summaryView lower a) ↔ Carries a k v ∧ trimSpace v ≠ "" := by
  unfold attrChips Carries
  simp only [List.mem_append, List.mem_filter, mem_attrPairs, decide_eq_true_eq]
  exact or_and_right.symm

theorem mem_attributeValues {agents : List Agent} {k v : String} :
    v ∈ attributeValues agents k ↔ k ≠ "" ∧ ∃ a ∈ agents, Carries a k v := by
  unfold attributeValues Carries
  by_cases hk : k = ""
  · simp [hk]
  · simp [hk]

/-! ### Submitting one matcher -/

/-- The text is accepted, and the agent is among those it keeps. -/
def Selects (rt : Runtime) (agents : List Agent) (s : String) (a : Agent) : Prop :=
  ∃ f, parseFilters rt (.single "match" s) ["match"] = .ok f ∧
    ∀ orders : ℕ → List BoolField, (∀ i, FinMap.Enumerates (orders i) f.bools.keys) →
      a ∈ matchingAgents orders agents f

theorem parseFilters_match {rt : Runtime} {s : String} (hs : trimSpace s ≠ "") :
    parseFilters rt (.single "match" s) ["match"] = (parseMatcher rt s).map fun m => ⟨[m], ∅⟩ := by
  have hlegacy : readLegacy rt (.single "match" s) = .ok none := by
    unfold readLegacy
    rw [Query.get_single_of_ne s (by decide)]
    rfl
  have hparam : readParam rt "match" [s] = .ok none := if_pos (by decide)
  unfold parseFilters reads
  rw [hlegacy, List.map_cons, Query.values_single, hparam, List.map_cons, readMatch_of_ne hs]
  cases parseMatcher rt s <;> rfl

theorem selects_iff {rt : Runtime} {agents : List Agent} {s : String} {a : Agent}
    (ha : a ∈ agents) (hs : trimSpace s ≠ "") :
    Selects rt agents s a ↔ MatchesText rt a s := by
  have hkept : ∀ (m : AttrMatcher) (orders : ℕ → List BoolField),
      (∀ i, FinMap.Enumerates (orders i) (∅ : Finset BoolField)) →
        (a ∈ matchingAgents orders agents ⟨[m], ∅⟩ ↔ matchAttr a m = true) := by
    intro m orders horders
    have hp : ∀ a, matchAttr a m = true ↔ (⟨[m], ∅⟩ : Filters).Holds a := by
      intro a
      simp [Filters.Holds]
    rw [matchingAgents_eq_filter horders hp agents, List.mem_filter]
    exact and_iff_right ha
  unfold Selects MatchesText
  rw [parseFilters_match hs]
  cases parseMatcher rt s with
  | error e => simp [Except.map]
  | ok m =>
    constructor
    · rintro ⟨f, hf, hall⟩
      obtain rfl := Except.ok.inj hf
      have hempty : ∀ i, FinMap.Enumerates ((fun _ : ℕ => []) i) (∅ : Finset BoolField) :=
        fun _ => ⟨List.nodup_nil, by simp⟩
      exact ⟨m, rfl, (hkept m _ hempty).mp (hall _ hempty)⟩
    · rintro ⟨m', hm', hmatch⟩
      obtain rfl := Except.ok.inj hm'
      exact ⟨_, rfl, fun orders horders => (hkept m orders horders).mpr hmatch⟩

/-! ### What a text asks -/

/-- The constraint holds of the agent; a regular expression has to compile. -/
def Meets (rt : Runtime) (a : Agent) (key : String) (value : List Char) : Op → Prop
  | .equal => attrValue a key = some (.ofList value)
  | .notEqual => attrValue a key ≠ some (.ofList value)
  | .regex => ∃ re, compileMatcherRE rt value = .ok re ∧
      ∃ got, attrValue a key = some got ∧ matchString re got.toList = true
  | .notRegex => ∃ re, compileMatcherRE rt value = .ok re ∧
      ∀ got, attrValue a key = some got → matchString re got.toList = false

/-- The first reading of the text holds of the agent. -/
def MeetsReading (rt : Runtime) (a : Agent) (t : List Char) : Prop :=
  ∃ key op value, FirstReading t key op value ∧
    Meets rt a (.ofList (trim isSpace key)) (unquoteMatcherValue value) op

theorem meets_iff {rt : Runtime} {a : Agent} {key : String} {value : List Char} {op : Op} :
    Meets rt a key value op ↔ ∃ re, Compiled rt ⟨key, op, .ofList value, re⟩ ∧
      matchAttr a ⟨key, op, .ofList value, re⟩ = true := by
  unfold Compiled
  cases op with
  | equal => simp [Meets, Op.isRegex, matchAttr]
  | notEqual => simp [Meets, Op.isRegex, matchAttr]
  | regex => cases hgot : attrValue a key <;> simp [Meets, Op.isRegex, matchAttr, hgot]
  | notRegex => cases hgot : attrValue a key <;> simp [Meets, Op.isRegex, matchAttr, hgot]

theorem matchesText_iff {rt : Runtime} {a : Agent} {s : String} :
    MatchesText rt a s ↔ MeetsReading rt a (trim isSpace s.toList) := by
  unfold MatchesText MeetsReading
  constructor
  · rintro ⟨m, hparse, hmatch⟩
    obtain ⟨hwritten, hcompiled⟩ := parseMatcher_ok_iff.mp hparse
    obtain ⟨⟨key, op, value⟩, hsplit, hfound⟩ := Option.map_eq_some_iff.mp hwritten
    obtain ⟨hkey, hop, hvalue⟩ := Prod.mk.inj hfound |>.imp id Prod.mk.inj
    refine ⟨key, op, value, split_eq_some_iff_reading.mp hsplit, ?_⟩
    dsimp only at hkey hop hvalue
    rw [hkey, hop, hvalue, meets_iff, String.ofList_toList, String.ofList_toList]
    exact ⟨m.re, hcompiled, hmatch⟩
  · rintro ⟨key, op, value, hfirst, hmeets⟩
    obtain ⟨re, hcompiled, hmatch⟩ := meets_iff.mp hmeets
    refine ⟨_, parseMatcher_ok_iff.mpr ⟨?_, hcompiled⟩, hmatch⟩
    unfold written
    rw [split_eq_some_iff_reading.mpr hfirst]
    simp

/-! ### Reading an offered filter back -/

/-- The key and the value are read back from the text of an equality. -/
structure Recovered (k v : List Char) : Prop extends PlainKey k where
  value_bare : Bare isSpace v
  value_line : '\n' ∉ v
  unpaired : Unpaired v

theorem toList_formatEqual (k v : String) :
    (formatMatcher k .equal v).toList = k.toList ++ ([' '] ++ (Op.equal.text ++ (' ' :: v.toList))) := by
  rw [toList_formatMatcher]
  rfl

/-- A plain key is read back, and a value on one line up to the space and the quotes
around it. -/
theorem written_formatEqual {k v : String} (h : PlainKey k.toList) (hv : '\n' ∉ v.toList) :
    written (formatMatcher k .equal v) =
      some (k.toList, .equal, unquoteMatcherValue v.toList) := by
  have hline : '\n' ∉ ' ' :: v.toList := by
    intro hmem
    rcases List.mem_cons.mp hmem with hspace | hmem
    · exact absurd hspace (by decide)
    · exact hv hmem
  have hread := written_of_foremost k.toList [' '] .equal _ (toList_formatEqual k v) h.ne_nil h.bare
    h.line (List.forall_mem_singleton.mpr rfl)
    (fun t => foremost_of_plain (not_space_of_getLast?_tail h.bare) h.equals h.mark
      fun _ => ⟨by simp, by simp⟩) (by simp) hline
  rwa [unquoteMatcherValue_congr (trim_cons_blank v.toList)] at hread

theorem written_of_recovered {k v : String} (h : Recovered k.toList v.toList) :
    written (formatMatcher k .equal v) = some (k.toList, .equal, v.toList) := by
  rw [written_formatEqual h.toPlainKey h.value_line,
    (unquoteMatcherValue_eq_self_iff h.value_bare).mpr h.unpaired]

/-- A value that survives unquoting has nothing around it to take off. -/
theorem bare_of_unquote_eq {v : List Char} (h : unquoteMatcherValue v = v) :
    Bare isSpace v ∧ Unpaired v := by
  have hvalue := unquoted_unquoteMatcherValue v
  rw [h] at hvalue
  rcases hvalue with ⟨q, -, hw⟩ | ⟨hunpaired, hw⟩
  · obtain ⟨a, b, hsplit, -⟩ := exists_trim isSpace v
    have hlength := congrArg List.length hsplit
    rw [hw] at hlength
    simp only [List.length_append, List.length_cons, List.length_nil] at hlength
    omega
  · rw [← hw] at hunpaired
    exact ⟨trim_eq_self_iff.mp hw.symm, hunpaired⟩

/-- The key is read as written: one blank more would not be the shortest key. -/
theorem key_of_split {k key t value : List Char} {op : Op}
    (h : split (k ++ ' ' :: '=' :: t) = some (key, op, value)) (htrim : trim isSpace key = k)
    (hne : k ≠ []) : key = k := by
  obtain ⟨⟨-, hline, rest, htext, hread⟩, hshortest⟩ := split_eq_some_iff_reading.mp h
  obtain ⟨b, rfl, hrest, hb⟩ := exists_of_trim_eq htext htrim hne
  cases b with
  | nil => exact List.append_nil k
  | cons x b =>
    obtain ⟨rfl, hrest'⟩ := List.cons.inj hrest
    cases b with
    | cons x b =>
      have hx := hb x (by simp)
      rw [← (List.cons.inj hrest').1] at hx
      exact absurd hx (by decide)
    | nil =>
      obtain rfl : '=' :: t = rest := hrest'
      have hblank : valueAfter (' ' :: '=' :: t) = valueAfter ('=' :: t) := rfl
      have hread' : ValueRead (' ' :: '=' :: t) op value := by
        rw [← valueAfter_eq_some_iff, hblank]
        exact valueAfter_eq_some_iff.mpr hread
      have hle := hshortest k op value
        ⟨hne, fun hmem => hline (List.mem_append_left _ hmem), _, rfl, hread'⟩
      rw [List.length_append, List.length_singleton] at hle
      omega

/-- The value read is the text after the sign, up to space around it. -/
theorem trim_of_valueRead {t value : List Char} (h : ValueRead (' ' :: '=' :: t) .equal value) :
    trim isSpace value = trim isSpace t := by
  obtain ⟨gap, gap', hrest, hgap, hgap', -⟩ := h
  have ht : t = gap' ++ value := by
    cases gap with
    | nil => exact absurd (List.cons.inj hrest).1 (by decide)
    | cons x gap =>
      obtain ⟨-, hrest⟩ := List.cons.inj hrest
      cases gap with
      | nil => exact (List.cons.inj hrest).2
      | cons y gap =>
        have hy := hgap y (by simp)
        rw [← (List.cons.inj hrest).1] at hy
        exact absurd hy (by decide)
  have hpad := trim_pad (b := []) (fun x hx => isSpace_of_mem (hgap' x hx)) value (by simp)
  rwa [List.append_nil, ← ht, eq_comm] at hpad

theorem recovered_of_written {k v : String}
    (h : written (formatMatcher k .equal v) = some (k.toList, .equal, v.toList)) :
    Recovered k.toList v.toList := by
  obtain ⟨⟨key, op, value⟩, hsplit, hfound⟩ := Option.map_eq_some_iff.mp h
  obtain ⟨hkey, hop, hvalue⟩ := Prod.mk.inj hfound |>.imp id Prod.mk.inj
  dsimp only at hkey hop hvalue
  subst hop
  have hne : k.toList ≠ [] := hkey ▸ trim_key_ne_nil hsplit
  have hbare : Bare isSpace k.toList := hkey ▸ bare_trim isSpace key
  have hbefore : Bare isSpace (k.toList ++ [' ', '=']) :=
    hbare.append hne [' '] Op.equal.bare_text Op.equal.text_ne_nil
  obtain ⟨t, b, ht, -, htrim, hsame⟩ := trim_append_of_bare hbefore (by simp) (' ' :: v.toList)
  have htext : trim isSpace (formatMatcher k .equal v).toList = k.toList ++ (' ' :: '=' :: t) := by
    rw [toList_formatEqual]
    simpa [Op.text] using htrim
  rw [htext] at hsplit
  obtain rfl : key = k.toList := key_of_split hsplit hkey hne
  obtain ⟨⟨-, -, rest, hrest, hread⟩, -⟩ := split_eq_some_iff_reading.mp hsplit
  obtain rfl : ' ' :: '=' :: t = rest := List.append_cancel_left hrest
  have hvtrim : trim isSpace value = trim isSpace v.toList :=
    (trim_of_valueRead hread).trans (hsame.trans (trim_cons_blank v.toList))
  rw [unquoteMatcherValue_congr hvtrim] at hvalue
  obtain ⟨hvbare, hunpaired⟩ := bare_of_unquote_eq hvalue
  have hvline : '\n' ∉ v.toList := by
    obtain ⟨a, b', hpart, -⟩ := exists_trim isSpace value
    rw [hvtrim, trim_eq_self hvbare] at hpart
    intro hmem
    exact hread.line (by rw [hpart]; simp [hmem])
  have hrestline : '\n' ∉ ' ' :: '=' :: t := by
    have hline : '\n' ∉ t ++ b := by
      rw [← ht]
      simpa using hvline
    simpa using fun hmem => hline (List.mem_append_left b hmem)
  exact ⟨(plainKey_of_split hsplit hbare hrestline).1, hvbare, hvline, hunpaired⟩

/-- The text is accepted as the equality it was made from. -/
def ReadBack (rt : Runtime) (k v : String) : Prop :=
  parseMatcher rt (formatMatcher k .equal v) = .ok ⟨k, .equal, v, none⟩

theorem readBack_iff {rt : Runtime} {k v : String} :
    ReadBack rt k v ↔ Recovered k.toList v.toList := by
  unfold ReadBack
  rw [parseMatcher_ok_iff]
  constructor
  · rintro ⟨hwritten, -⟩
    exact recovered_of_written hwritten
  · intro h
    exact ⟨written_of_recovered h, rfl⟩

theorem matchesText_formatEqual {rt : Runtime} {a : Agent} {k v : String}
    (h : PlainKey k.toList) (hv : '\n' ∉ v.toList) :
    MatchesText rt a (formatMatcher k .equal v) ↔
      attrValue a k = some (.ofList (unquoteMatcherValue v.toList)) := by
  have hparse : parseMatcher rt (formatMatcher k .equal v) =
      .ok ⟨k, .equal, .ofList (unquoteMatcherValue v.toList), none⟩ := by
    refine parseMatcher_ok_iff.mpr ⟨?_, rfl⟩
    rw [written_formatEqual h hv, String.toList_ofList]
  unfold MatchesText
  simp [hparse, matchAttr]

/-- The text contains an equals sign, so it is not blank. -/
theorem trimSpace_formatEqual_ne (k v : String) : trimSpace (formatMatcher k .equal v) ≠ "" := by
  have hmem : '=' ∈ (formatMatcher k .equal v).toList := by
    rw [toList_formatEqual]
    simp [Op.text]
  exact trimSpace_ne_of_mem hmem (by decide)

/-- The value has nothing around it that is taken off when it is read. -/
structure Intact (v : List Char) : Prop where
  bare : Bare isSpace v
  unpaired : Unpaired v

/-- What an offered value of a key takes to select the agent. An intact one is read as
it is, and must not be shadowed by an identifying attribute with another value. Any
other is read without what is around it, and only an identifying attribute that
shadows it can have that value. -/
def Stands (a : Agent) (k v : String) : Prop :=
  Intact v.toList ∧ (∀ w, a.identifying.find k = some w → w = v) ∨
    ¬ Intact v.toList ∧
      ∃ w, a.identifying.find k = some w ∧ Unquoted (trim isSpace v.toList) w.toList

theorem unquoted_unique {w u u' : List Char} (h : Unquoted w u) (h' : Unquoted w u') : u = u' := by
  rcases h with ⟨q, hq, hw⟩ | ⟨hunpaired, rfl⟩
  · rcases h' with ⟨q', -, hw'⟩ | ⟨hunpaired, -⟩
    · obtain ⟨rfl, htail⟩ := List.cons.inj (hw.symm.trans hw')
      exact List.append_cancel_right htail
    · exact absurd hw (hunpaired q u hq)
  · rcases h' with ⟨q, hq, hw⟩ | ⟨-, rfl⟩
    · exact absurd hw (hunpaired q u' hq)
    · rfl

theorem unquote_eq_self_iff {v : List Char} : unquoteMatcherValue v = v ↔ Intact v := by
  constructor
  · intro h
    obtain ⟨hbare, hunpaired⟩ := bare_of_unquote_eq h
    exact ⟨hbare, hunpaired⟩
  · intro h
    exact (unquoteMatcherValue_eq_self_iff h.bare).mpr h.unpaired

theorem attrValue_unquoted_iff {a : Agent} {k v : String} (h : Carries a k v) :
    attrValue a k = some (.ofList (unquoteMatcherValue v.toList)) ↔ Stands a k v := by
  have hself : String.ofList (unquoteMatcherValue v.toList) = v ↔ Intact v.toList := by
    rw [← unquote_eq_self_iff, ← String.toList_inj, String.toList_ofList]
  unfold attrValue Stands
  cases hfind : a.identifying.find k with
  | none =>
    have hother : a.nonIdentifying.find k = some v := by
      rcases h with h | h
      · rw [hfind] at h
        cases h
      · exact h
    simp [hother, ← hself, eq_comm]
  | some w =>
    by_cases hintact : Intact v.toList
    · simp [hintact, hself.mpr hintact]
    · have hread := unquoted_unquoteMatcherValue v.toList
      simp only [Option.some.injEq, hintact, false_and, not_false_eq_true, true_and, false_or,
        exists_eq_left']
      constructor
      · rintro rfl
        rwa [String.toList_ofList]
      · intro hw
        rw [unquoted_unique hread hw, String.ofList_toList]

theorem selects_formatEqual_iff {rt : Runtime} {agents : List Agent} {a : Agent} {k v : String}
    (ha : a ∈ agents) (hcarries : Carries a k v) (hk : PlainKey k.toList) (hv : '\n' ∉ v.toList) :
    Selects rt agents (formatMatcher k .equal v) a ↔ Stands a k v := by
  rw [selects_iff ha (trimSpace_formatEqual_ne k v), matchesText_formatEqual hk hv,
    attrValue_unquoted_iff hcarries]

/-- The filter of a plain key and a one-line value selects the chip's own agent, and
for a completion some agent that carries it, exactly where the value stands. Other
keys and values do not come back as the equality they were. -/
theorem offered_filter_selects_iff (rt : Runtime) (lower : String → String) (agents : List Agent) :
    (∀ a ∈ agents, ∀ k v, (k, v) ∈ attrChips (summaryView lower a) → PlainKey k.toList →
        '\n' ∉ v.toList → (Selects rt agents (formatMatcher k .equal v) a ↔ Stands a k v)) ∧
      (∀ k, ∀ v ∈ attributeValues agents k, PlainKey k.toList → '\n' ∉ v.toList →
        ((∃ a ∈ agents, Carries a k v ∧ Selects rt agents (formatMatcher k .equal v) a) ↔
          ∃ a ∈ agents, Carries a k v ∧ Stands a k v)) ∧
      ∀ k v, ReadBack rt k v ↔ Recovered k.toList v.toList := by
  refine ⟨?_, ?_, fun k v => readBack_iff⟩
  · intro a ha k v hchip hk hv
    exact selects_formatEqual_iff ha (mem_attrChips.mp hchip).1 hk hv
  · intro k v _ hk hv
    constructor
    · rintro ⟨a, ha, hcarries, hselects⟩
      exact ⟨a, ha, hcarries, (selects_formatEqual_iff ha hcarries hk hv).mp hselects⟩
    · rintro ⟨a, ha, hcarries, hstands⟩
      exact ⟨a, ha, hcarries, (selects_formatEqual_iff ha hcarries hk hv).mpr hstands⟩

/-- Two agents, one of which has an attribute. -/
def servingFleet : List Agent := [plain, holding "service.name" "checkout"]

theorem offered_filter_selects_service :
    (("service.name", "checkout") ∈
        attrChips (summaryView id (holding "service.name" "checkout")) ∧
      Selects .core servingFleet (formatMatcher "service.name" .equal "checkout")
        (holding "service.name" "checkout")) ∧
      "checkout" ∈ attributeValues servingFleet "service.name" ∧
      ∃ a ∈ servingFleet, Carries a "service.name" "checkout" ∧
        Selects .core servingFleet (formatMatcher "service.name" .equal "checkout") a := by
  have hmem : holding "service.name" "checkout" ∈ servingFleet := by simp [servingFleet]
  have hfind : (holding "service.name" "checkout").identifying.find "service.name" =
    some "checkout" := by decide +kernel
  have hcarries : Carries (holding "service.name" "checkout") "service.name" "checkout" :=
    Or.inl hfind
  have hchip : ("service.name", "checkout") ∈
      attrChips (summaryView id (holding "service.name" "checkout")) :=
    mem_attrChips.mpr ⟨hcarries, by decide +kernel⟩
  have hvalue : "checkout" ∈ attributeValues servingFleet "service.name" :=
    mem_attributeValues.mpr ⟨by decide, _, hmem, hcarries⟩
  have hline : '\n' ∉ "checkout".toList := by decide +kernel
  have hstands : Stands (holding "service.name" "checkout") "service.name" "checkout" := by
    refine Or.inl ⟨unquote_eq_self_iff.mp (by decide +kernel), fun w hw => ?_⟩
    exact Option.some.inj (hw.symm.trans hfind)
  obtain ⟨hchips, hvalues, -⟩ := offered_filter_selects_iff .core id servingFleet
  exact ⟨⟨hchip, (hchips _ hmem _ _ hchip plainKey_service hline).mpr hstands⟩, hvalue,
    (hvalues _ _ hvalue plainKey_service hline).mpr ⟨_, hmem, hcarries, hstands⟩⟩

/-- An agent with two values for one key. -/
def twice : Agent :=
  { holding "env" "prod" with nonIdentifying := (∅ : FinMap String String).insert "env" "staging" }

/-- A chip's own agent is not kept, nor is any other. -/
theorem shadowed_chip_selects_none :
    ("env", "staging") ∈ attrChips (summaryView id twice) ∧
      "staging" ∈ attributeValues [twice] "env" ∧
      ∃ f, parseFilters .core (.single "match" (formatMatcher "env" .equal "staging")) ["match"] = .ok f ∧
        matchingAgents (fun _ => []) [twice] f = [] := by
  have hparse : parseMatcher .core (formatMatcher "env" .equal "staging") =
      .ok ⟨"env", .equal, "staging", none⟩ :=
    parseMatcher_ok_iff.mpr ⟨by decide +kernel, rfl⟩
  have hcarries : Carries twice "env" "staging" := Or.inr (by decide +kernel)
  refine ⟨mem_attrChips.mpr ⟨hcarries, by decide +kernel⟩,
    mem_attributeValues.mpr ⟨by decide, twice, List.mem_singleton_self twice, hcarries⟩,
    ⟨[⟨"env", .equal, "staging", none⟩], ∅⟩, ?_, by decide +kernel⟩
  rw [parseFilters_match (trimSpace_formatEqual_ne _ _), hparse]
  rfl

end Grex.OfferedFilters
