import Grex.BareParams

/-!
Sending the displayed filters again. The page lists the attribute filters of a
query with a list of reserved names of its own, and shows a bare value as it came,
so two kinds of parameters can come back as something else: the field that list
leaves out, and a value with space before it, which no longer follows the equals sign
at once.
-/

namespace Grex.Resubmission

open GoText Regex AgentState Matchers Filtering BareParams

/-- The names the page does not show as attribute filters. -/
def shownElsewhere : List String :=
  ["limit", "offset", "sort", "order", "healthy", "connected", "via_gateway", "match", "attr_key",
    "attr_value"]

/-- A bare parameter as the page displays it. -/
def displayParam (q : Query) (k : String) : Option String :=
  if k ∈ shownElsewhere then none
  else
    match q.values k with
    | [] => none
    | first :: _ => if trimSpace first = "" then none else some (k ++ "=" ++ first)

/-- The texts of the attribute filters, the bare ones in the order of the map. -/
def collectMatches (q : Query) (order : List String) : List String :=
  ((q.values "match").map trimSpace).filter (· ≠ "") ++
    ((if trimSpace (q.get "attr_key") ≠ "" then
        [trimSpace (q.get "attr_key") ++ "=" ++ q.get "attr_value"]
      else []) ++
    order.filterMap (displayParam q))

/-- What the filter form submits. -/
def resubmitted (q : Query) (order : List String) : Query :=
  ((((∅ : Query).set "healthy" (q.find "healthy")).set "connected" (q.find "connected")).set
    "via_gateway" (q.find "via_gateway")).insert "match" (collectMatches q order)

/-! ### What is sent -/

theorem values_resubmitted (q : Query) (order : List String) (key : String) :
    (resubmitted q order).values key =
      if key = "match" then collectMatches q order
      else if key ∈ ["healthy", "connected", "via_gateway"] then q.values key else [] := by
  unfold Query.values resubmitted
  simp only [FinMap.find_set, FinMap.find_empty]
  by_cases hmatch : key = "match"
  · simp [hmatch]
  · by_cases hgateway : key = "via_gateway"
    · simp [hgateway]
    · by_cases hconnected : key = "connected"
      · simp [hconnected]
      · by_cases hhealthy : key = "healthy"
        · simp [hhealthy]
        · simp [hmatch, hgateway, hconnected, hhealthy]

theorem displayParam_eq (q : Query) (k : String) :
    displayParam q k = if k ∈ shownElsewhere ∨ trimSpace (q.get k) = "" then none
      else some (k ++ "=" ++ q.get k) := by
  unfold displayParam Query.get
  by_cases hk : k ∈ shownElsewhere
  · simp [hk]
  · cases q.values k with
    | nil => simp [trimSpace_empty]
    | cons first rest => simp [hk]

theorem ofName_eq_none {k : String} :
    BoolField.ofName k = none ↔ ∀ field : BoolField, field.name ≠ k := by
  rw [Option.eq_none_iff_forall_ne_some]
  exact forall_congr' fun field => not_congr BoolField.ofName_eq_some

/-- The field that the page's own list leaves out is shown like an attribute. -/
theorem not_mem_shownElsewhere {k : String} : k ∉ shownElsewhere ↔
    k ∉ reservedParams ∧ (BoolField.ofName k = none ∨ k = BoolField.supervisorManaged.name) := by
  by_cases hmanaged : k = BoolField.supervisorManaged.name
  · rw [hmanaged]
    decide
  · have hname : BoolField.ofName k = none ↔ k ≠ "healthy" ∧ k ≠ "connected" ∧ k ≠ "via_gateway" := by
      rw [ofName_eq_none]
      constructor
      · intro h
        exact ⟨(h .healthy).symm, (h .connected).symm, (h .viaGateway).symm⟩
      · rintro ⟨hhealthy, hconnected, hgateway⟩ field
        cases field with
        | healthy => exact hhealthy.symm
        | connected => exact hconnected.symm
        | viaGateway => exact hgateway.symm
        | supervisorManaged => exact Ne.symm hmanaged
    rw [hname]
    simp only [hmanaged, or_false, shownElsewhere, reservedParams, List.mem_cons, List.not_mem_nil,
      not_or, ne_eq]
    tauto

theorem mem_collectMatches {q : Query} {order : List String}
    (horder : FinMap.Enumerates order q.keys) {s : String} :
    s ∈ collectMatches q order ↔ (∃ raw ∈ q.values "match", trimSpace raw ≠ "" ∧ trimSpace raw = s) ∨
      (trimSpace (q.get "attr_key") ≠ "" ∧
        s = trimSpace (q.get "attr_key") ++ "=" ++ q.get "attr_value") ∨
      ∃ key, key ∉ shownElsewhere ∧ trimSpace (q.get key) ≠ "" ∧ s = key ++ "=" ++ q.get key := by
  have hbare : s ∈ order.filterMap (displayParam q) ↔
      ∃ key, key ∉ shownElsewhere ∧ trimSpace (q.get key) ≠ "" ∧ s = key ++ "=" ++ q.get key := by
    simp only [List.mem_filterMap, displayParam_eq]
    constructor
    · rintro ⟨key, -, hkey⟩
      split at hkey
      next => cases hkey
      next hshown =>
        obtain ⟨hshown, hblank⟩ := not_or.mp hshown
        exact ⟨key, hshown, hblank, (Option.some.inj hkey).symm⟩
    · rintro ⟨key, hshown, hblank, rfl⟩
      refine ⟨key, (horder.mem_iff key).mpr (mem_keys_of_get hblank), ?_⟩
      rw [if_neg (not_or.mpr ⟨hshown, hblank⟩)]
  unfold collectMatches
  rw [List.mem_append, List.mem_append, hbare]
  apply or_congr
  · simp only [List.mem_filter, List.mem_map, decide_eq_true_eq]
    constructor
    · rintro ⟨⟨raw, hraw, rfl⟩, hblank⟩
      exact ⟨raw, hraw, hblank, rfl⟩
    · rintro ⟨raw, hraw, hblank, rfl⟩
      exact ⟨⟨raw, hraw, rfl⟩, hblank⟩
  · apply or_congr_left
    by_cases hblank : trimSpace (q.get "attr_key") = ""
    · simp [hblank]
    · simp [hblank]

/-! ### Parameters that come back as something else -/

/-- The value starts with space. -/
def SpaceLed (value : String) : Prop := ∃ c, value.toList.head? = some c ∧ isSpace c = true

/-- The parameter is shown as another filter than it was: the field the page does
not know, or a bare value with space before it. -/
structure Moved (q : Query) (key : String) : Prop where
  not_reserved : key ∉ reservedParams
  not_blank : trimSpace (q.get key) ≠ ""
  kind : key = BoolField.supervisorManaged.name ∨
    BoolField.ofName key = none ∧ SpaceLed (q.get key)

/-- What the parameter asked for. -/
def AskedBefore (rt : Runtime) (q : Query) (a : Agent) (key : String) : Prop :=
  (key = BoolField.supervisorManaged.name →
    parseBool (trimSpace (q.get key)) = some (supervisorManaged a)) ∧
  (BoolField.ofName key = none → MatchesText rt a (key ++ "=" ++ trimSpace (q.get key)))

/-- What it asks for when it is sent again. -/
def AskedAfter (rt : Runtime) (q : Query) (a : Agent) (key : String) : Prop :=
  MatchesText rt a (key ++ "=" ++ q.get key)

/-- The rest of the query holds of the agent. -/
structure Rest (rt : Runtime) (q : Query) (a : Agent) : Prop where
  bools : ∀ field : BoolField, field ≠ .supervisorManaged → trimSpace (q.get field.name) ≠ "" →
    parseBool (trimSpace (q.get field.name)) = some (field.value a)
  bare : ∀ key, key ∉ reservedParams → BoolField.ofName key = none →
    trimSpace (q.get key) ≠ "" → ¬ Moved q key →
    MatchesText rt a (key ++ "=" ++ trimSpace (q.get key))
  repeated : ∀ raw ∈ q.values "match", trimSpace raw ≠ "" → MatchesText rt a (trimSpace raw)
  legacy : trimSpace (q.get "attr_key") ≠ "" →
    MatchesText rt a (trimSpace (q.get "attr_key") ++ "=" ++ q.get "attr_value")

theorem satisfies_iff_before {rt : Runtime} {q : Query} {a : Agent} :
    Satisfies rt q a ↔ Rest rt q a ∧ ∀ key, Moved q key → AskedBefore rt q a key := by
  constructor
  · intro h
    refine ⟨⟨fun field _ => h.bools field, fun key hreserved hfield hblank _ =>
      h.bare key hreserved hfield hblank, h.repeated, h.legacy⟩, fun key hmoved => ⟨?_, ?_⟩⟩
    · rintro rfl
      exact h.bools .supervisorManaged hmoved.not_blank
    · intro hfield
      exact h.bare key hmoved.not_reserved hfield hmoved.not_blank
  · rintro ⟨hrest, hmoved⟩
    refine ⟨fun field hblank => ?_, fun key hreserved hfield hblank => ?_, hrest.repeated,
      hrest.legacy⟩
    · by_cases hfield : field = .supervisorManaged
      · subst hfield
        exact (hmoved _ ⟨name_not_reserved _, hblank, Or.inl rfl⟩).1 rfl
      · exact hrest.bools field hfield hblank
    · by_cases hkey : Moved q key
      · exact (hmoved key hkey).2 hfield
      · exact hrest.bare key hreserved hfield hblank hkey

/-- Space after the value is not part of the matcher. -/
theorem parseMatcher_of_not_moved {rt : Runtime} {q : Query} {key : String}
    (hreserved : key ∉ reservedParams) (hfield : BoolField.ofName key = none)
    (hblank : trimSpace (q.get key) ≠ "") (hkey : ¬ Moved q key) :
    parseMatcher rt (key ++ "=" ++ q.get key) =
      parseMatcher rt (key ++ "=" ++ trimSpace (q.get key)) := by
  obtain ⟨a, b, hvalue, ha, hb⟩ := exists_trim isSpace (q.get key).toList
  have hnil : a = [] := by
    cases a with
    | nil => rfl
    | cons c a =>
      refine absurd ⟨hreserved, hblank, Or.inr ⟨hfield, c, ?_, ha c List.mem_cons_self⟩⟩ hkey
      rw [hvalue]
      rfl
  rw [hnil, List.nil_append] at hvalue
  have htext : (key ++ "=" ++ q.get key).toList =
      [] ++ ((key ++ "=" ++ trimSpace (q.get key)).toList ++ b) := by
    simp only [String.toList_append, toList_trimSpace, List.nil_append, List.append_assoc]
    rw [← hvalue]
  have htrim : trimSpace (key ++ "=" ++ q.get key) =
      trimSpace (key ++ "=" ++ trimSpace (q.get key)) := by
    rw [← String.toList_inj, toList_trimSpace, toList_trimSpace, htext, trim_pad (by simp) _ hb]
  rw [← parseMatcher_trimSpace rt (key ++ "=" ++ q.get key), htrim, parseMatcher_trimSpace]

theorem values_resubmitted_of_mem (q : Query) (order : List String) {key : String}
    (hkey : key ∈ ["healthy", "connected", "via_gateway"]) :
    (resubmitted q order).values key = q.values key := by
  have hmatch : key ≠ "match" := by
    rintro rfl
    exact absurd hkey (by decide)
  rw [values_resubmitted, if_neg hmatch, if_pos hkey]

theorem get_resubmitted_of_mem (q : Query) (order : List String) {key : String}
    (hkey : key ∈ ["healthy", "connected", "via_gateway"]) :
    (resubmitted q order).get key = q.get key := by
  unfold Query.get
  rw [values_resubmitted_of_mem q order hkey]

/-- Nothing else is sent under a name of its own. -/
theorem blank_resubmitted (q : Query) (order : List String) {key : String} (hmatch : key ≠ "match")
    (hkey : key ∉ ["healthy", "connected", "via_gateway"]) :
    trimSpace ((resubmitted q order).get key) = "" := by
  unfold Query.get
  rw [values_resubmitted, if_neg hmatch, if_neg hkey]
  exact trimSpace_empty

theorem values_match_resubmitted (q : Query) (order : List String) :
    (resubmitted q order).values "match" = collectMatches q order := by
  rw [values_resubmitted, if_pos rfl]

/-- The three fields that are kept as parameters. -/
theorem name_mem_kept {field : BoolField} (h : field ≠ .supervisorManaged) :
    field.name ∈ ["healthy", "connected", "via_gateway"] := by
  cases field with
  | healthy => decide
  | connected => decide
  | viaGateway => decide
  | supervisorManaged => exact absurd rfl h

theorem not_mem_kept {key : String} (h : BoolField.ofName key = none) :
    key ∉ ["healthy", "connected", "via_gateway"] := by
  intro hmem
  simp only [List.mem_cons, List.not_mem_nil, or_false] at hmem
  rcases hmem with rfl | rfl | rfl
  · exact ofName_eq_none.mp h .healthy rfl
  · exact ofName_eq_none.mp h .connected rfl
  · exact ofName_eq_none.mp h .viaGateway rfl

/-- A displayed text is never blank. -/
theorem trimSpace_pair_ne (key value : String) : trimSpace (key ++ "=" ++ value) ≠ "" :=
  trimSpace_ne_of_mem (c := '=') (by simp) (by decide)

theorem trimSpace_ne_of_mem_collectMatches {q : Query} {order : List String}
    (horder : FinMap.Enumerates order q.keys) {s : String} (hs : s ∈ collectMatches q order) :
    trimSpace s ≠ "" := by
  rcases (mem_collectMatches horder).mp hs with ⟨raw, -, hblank, rfl⟩ | ⟨-, rfl⟩ | ⟨key, -, -, rfl⟩
  · rwa [trimSpace_trimSpace]
  · exact trimSpace_pair_ne _ _
  · exact trimSpace_pair_ne _ _

/-- What the displayed texts are parsed from: the parameters that are moved as they
stand, and the others as the query itself reads them. -/
theorem forall_displayed_iff (rt : Runtime) {q : Query} {order : List String}
    (horder : FinMap.Enumerates order q.keys) (P : Except String AttrMatcher → Prop) :
    (∀ s ∈ collectMatches q order, P (parseMatcher rt s)) ↔
      (∀ raw ∈ q.values "match", trimSpace raw ≠ "" → P (parseMatcher rt (trimSpace raw))) ∧
      (trimSpace (q.get "attr_key") ≠ "" →
        P (parseMatcher rt (trimSpace (q.get "attr_key") ++ "=" ++ q.get "attr_value"))) ∧
      (∀ key, key ∉ reservedParams → BoolField.ofName key = none → trimSpace (q.get key) ≠ "" →
        ¬ Moved q key → P (parseMatcher rt (key ++ "=" ++ trimSpace (q.get key)))) ∧
      ∀ key, Moved q key → P (parseMatcher rt (key ++ "=" ++ q.get key)) := by
  constructor
  · intro h
    have hpair : ∀ key, key ∉ shownElsewhere → trimSpace (q.get key) ≠ "" →
        P (parseMatcher rt (key ++ "=" ++ q.get key)) := fun key hshown hblank =>
      h _ ((mem_collectMatches horder).mpr (Or.inr (Or.inr ⟨key, hshown, hblank, rfl⟩)))
    refine ⟨fun raw hraw hblank => ?_, fun hblank => ?_, fun key hreserved hfield hblank hkey => ?_,
      fun key hmoved => ?_⟩
    · exact h _ ((mem_collectMatches horder).mpr (Or.inl ⟨raw, hraw, hblank, rfl⟩))
    · exact h _ ((mem_collectMatches horder).mpr (Or.inr (Or.inl ⟨hblank, rfl⟩)))
    · rw [← parseMatcher_of_not_moved hreserved hfield hblank hkey]
      exact hpair key (not_mem_shownElsewhere.mpr ⟨hreserved, Or.inl hfield⟩) hblank
    · refine hpair key (not_mem_shownElsewhere.mpr ⟨hmoved.not_reserved, ?_⟩) hmoved.not_blank
      exact hmoved.kind.symm.imp_left And.left
  · rintro ⟨hrepeated, hlegacy, hbare, hmoved⟩ s hs
    rcases (mem_collectMatches horder).mp hs with
      ⟨raw, hraw, hblank, rfl⟩ | ⟨hblank, rfl⟩ | ⟨key, hshown, hblank, rfl⟩
    · exact hrepeated raw hraw hblank
    · exact hlegacy hblank
    · obtain ⟨hreserved, hkind⟩ := not_mem_shownElsewhere.mp hshown
      by_cases hkey : Moved q key
      · exact hmoved key hkey
      · have hfield : BoolField.ofName key = none :=
          hkind.resolve_right fun hname => hkey ⟨hreserved, hblank, Or.inl hname⟩
        rw [parseMatcher_of_not_moved hreserved hfield hblank hkey]
        exact hbare key hreserved hfield hblank hkey

/-- What a query asks once its displayed filters are sent again. -/
theorem satisfies_resubmitted {rt : Runtime} {q : Query} {order : List String} {a : Agent}
    (horder : FinMap.Enumerates order q.keys) :
    Satisfies rt (resubmitted q order) a ↔
      Rest rt q a ∧ ∀ key, Moved q key → AskedAfter rt q a key := by
  have hdisplayed := forall_displayed_iff rt horder
    fun r => ∃ m, r = .ok m ∧ matchAttr a m = true
  constructor
  · intro h
    have htexts : ∀ s ∈ collectMatches q order, MatchesText rt a s := by
      intro s hs
      have hmatch := h.repeated s (by rwa [values_match_resubmitted])
        (trimSpace_ne_of_mem_collectMatches horder hs)
      exact matchesText_trimSpace.mp hmatch
    obtain ⟨hrepeated, hlegacy, hbare, hmoved⟩ := hdisplayed.mp htexts
    refine ⟨⟨fun field hfield hblank => ?_, hbare, hrepeated, hlegacy⟩, hmoved⟩
    have hget := get_resubmitted_of_mem q order (name_mem_kept hfield)
    rw [← hget] at hblank ⊢
    exact h.bools field hblank
  · rintro ⟨hrest, hmoved⟩
    have htexts := hdisplayed.mpr ⟨hrest.repeated, hrest.legacy, hrest.bare, hmoved⟩
    refine ⟨fun field hblank => ?_, fun key hreserved hfield hblank => ?_, fun raw hraw _ => ?_,
      fun hblank => ?_⟩
    · by_cases hfield : field = .supervisorManaged
      · subst hfield
        exact absurd (blank_resubmitted q order (by decide) (by decide)) hblank
      · rw [get_resubmitted_of_mem q order (name_mem_kept hfield)] at hblank ⊢
        exact hrest.bools field hfield hblank
    · refine absurd (blank_resubmitted q order ?_ (not_mem_kept hfield)) hblank
      rintro rfl
      exact hreserved (by decide)
    · rw [values_match_resubmitted] at hraw
      exact matchesText_trimSpace.mpr (htexts raw hraw)
    · exact absurd (blank_resubmitted q order (by decide) (by decide)) hblank

/-! ### What is accepted -/

theorem isOk_map_matcher {rt : Runtime} {s : String} :
    ((parseMatcher rt s).map fun m => some (Test.matcher m)).isOk = true ↔
      ∃ m, parseMatcher rt s = .ok m := by
  cases parseMatcher rt s <;> simp [Except.map, Except.isOk, Except.toBool]

theorem isOk_readMatch {rt : Runtime} {raw : String} (hraw : trimSpace raw ≠ "") :
    (readMatch rt raw).isOk = true ↔ ∃ m, parseMatcher rt raw = .ok m := by
  rw [readMatch_of_ne hraw, isOk_map_matcher]

theorem isOk_readParam_resubmitted {rt : Runtime} {q : Query} (order : List String)
    (hq : Accepted rt q) (key : String) :
    (readParam rt key ((resubmitted q order).values key)).isOk = true := by
  by_cases hkept : key ∈ ["healthy", "connected", "via_gateway"]
  · rw [values_resubmitted_of_mem q order hkept]
    by_cases hkey : key ∈ q.keys
    · exact hq.params key hkey
    · rw [readParam_eq, if_pos (Or.inr (not_not.mp (mt mem_keys_of_get hkey)))]
      rfl
  · rw [readParam_eq, if_pos]
    · rfl
    · by_cases hmatch : key = "match"
      · exact Or.inl (by rw [hmatch]; decide)
      · exact Or.inr (blank_resubmitted q order hmatch hkept)

theorem accepted_resubmitted_iff {rt : Runtime} {q : Query} {order : List String}
    (horder : FinMap.Enumerates order q.keys) (hq : Accepted rt q) :
    Accepted rt (resubmitted q order) ↔
      ∀ key, Moved q key → ∃ m, parseMatcher rt (key ++ "=" ++ q.get key) = .ok m := by
  have hdisplayed := forall_displayed_iff rt horder fun r : Except String AttrMatcher => ∃ m, r = .ok m
  constructor
  · intro h
    refine (hdisplayed.mp fun s hs => ?_).2.2.2
    exact (isOk_readMatch (trimSpace_ne_of_mem_collectMatches horder hs)).mp
      (h.repeated s (by rwa [values_match_resubmitted]))
  · intro h
    refine ⟨fun key _ => isOk_readParam_resubmitted order hq key, fun raw hraw => ?_, ?_⟩
    · rw [values_match_resubmitted] at hraw
      rw [isOk_readMatch (trimSpace_ne_of_mem_collectMatches horder hraw)]
      refine hdisplayed.mpr ⟨fun raw hraw hblank => ?_, fun hblank => ?_,
        fun key hreserved hfield hblank _ => ?_, h⟩ raw hraw
      · rw [parseMatcher_trimSpace]
        exact (isOk_readMatch hblank).mp (hq.repeated raw hraw)
      · have hlegacy := hq.legacy
        unfold readLegacy at hlegacy
        simp only [hblank, if_false] at hlegacy
        exact isOk_map_matcher.mp hlegacy
      · have hparam := hq.params key (mem_keys_of_get hblank)
        rw [readParam_eq, if_neg (not_or.mpr ⟨hreserved, hblank⟩), hfield] at hparam
        exact isOk_map_matcher.mp hparam
    · unfold readLegacy
      rw [blank_resubmitted q order (by decide) (by decide)]
      rfl

/-! ### The same selection -/

/-- However the maps are iterated over, the query sent again is accepted and keeps
the same agents of every list. -/
def Preserved (rt : Runtime) (q : Query) : Prop :=
  ∀ order shown order' f, FinMap.Enumerates order q.keys → FinMap.Enumerates shown q.keys →
    FinMap.Enumerates order' (resubmitted q shown).keys → parseFilters rt q order = .ok f →
    ∃ f', parseFilters rt (resubmitted q shown) order' = .ok f' ∧
      ∀ orders orders' : ℕ → List BoolField, (∀ i, FinMap.Enumerates (orders i) f.bools.keys) →
        (∀ i, FinMap.Enumerates (orders' i) f'.bools.keys) →
        ∀ agents, matchingAgents orders' agents f' = matchingAgents orders agents f

/-- The parameters that come back as something else are accepted as that, and
among the agents the rest of the query selects they select the same ones. -/
structure Harmless (rt : Runtime) (q : Query) : Prop where
  accepted : ∀ key, Moved q key → ∃ m, parseMatcher rt (key ++ "=" ++ q.get key) = .ok m
  same : ∀ a, Rest rt q a → ((∀ key, Moved q key → AskedBefore rt q a key) ↔
    ∀ key, Moved q key → AskedAfter rt q a key)

theorem preserved_of_harmless {rt : Runtime} {q : Query} (hq : Accepted rt q)
    (h : Harmless rt q) : Preserved rt q := by
  intro order shown order' f horder hshown horder' hf
  obtain ⟨f', hf'⟩ := (parseFilters_ok_iff horder').mpr
    ((accepted_resubmitted_iff hshown hq).mpr h.accepted)
  refine ⟨f', hf', fun orders orders' horders horders' agents => ?_⟩
  rw [matchingAgents_of_parse horder' hf' horders', matchingAgents_of_parse horder hf horders]
  apply List.filter_congr
  intro a _
  apply decide_eq_decide.mpr
  rw [satisfies_resubmitted hshown, satisfies_iff_before, and_congr_right_iff]
  exact fun hrest => (h.same a hrest).symm

/-! ### Space before a value -/

/-- Space before the value makes no difference: nothing is read inside the key, the value
is on one line, and what is left of it once it is trimmed does not turn the sign into
another operator, unless the key has done so by its last character. -/
structure Resendable (key value : List Char) : Prop extends PlainKey key where
  value_line : '\n' ∉ value
  tilde : key.tail.getLast? = some '!' ∨ (trim isSpace value).head? ≠ some '~'

/-- The pair is read as an equality, of a value that does not start with a tilde. -/
theorem written_pair {key value : String} (hkey : PlainKey key.toList)
    (hend : key.toList.tail.getLast? ≠ some '!') (hline : '\n' ∉ value.toList)
    (htilde : value.toList.head? ≠ some '~') :
    written (key ++ "=" ++ value) =
      some (key.toList, .equal, unquoteMatcherValue value.toList) :=
  written_of_foremost key.toList [] .equal value.toList (by simp [Op.text]) hkey.ne_nil hkey.bare
    hkey.line (by simp) (fun t => foremost_of_plain (not_space_of_getLast?_tail hkey.bare)
      hkey.equals hkey.mark fun hlast => absurd hlast hend) (fun _ => htilde) hline

/-- A value that starts with a tilde is read as a regular expression. -/
theorem written_pair_tilde {key value : String} {pattern : List Char} (hkey : PlainKey key.toList)
    (hend : key.toList.tail.getLast? ≠ some '!') (hvalue : value.toList = '~' :: pattern)
    (hline : '\n' ∉ pattern) :
    written (key ++ "=" ++ value) = some (key.toList, .regex, unquoteMatcherValue pattern) :=
  written_of_foremost key.toList [] .regex pattern (by simp [Op.text, hvalue]) hkey.ne_nil hkey.bare
    hkey.line (by simp) (fun t => foremost_of_plain (not_space_of_getLast?_tail hkey.bare)
      hkey.equals hkey.mark fun hlast => absurd hlast hend) (by simp) hline

/-- An exclamation mark at the end of the key is read with the equals sign, whatever
the value starts with. -/
theorem exists_written_pair_mark {key : String} (hkey : PlainKey key.toList)
    (hend : key.toList.tail.getLast? = some '!') :
    ∃ name, ∀ value : String, '\n' ∉ value.toList →
      written (key ++ "=" ++ value) = some (name, .notEqual, unquoteMatcherValue value.toList) := by
  obtain ⟨c, mid, hmid⟩ : ∃ c mid, key.toList = c :: (mid ++ ['!']) := by
    obtain ⟨c, rest, hrest⟩ := List.exists_cons_of_ne_nil hkey.ne_nil
    rw [hrest] at hend
    obtain ⟨mid, rfl⟩ := List.getLast?_eq_some_iff.mp hend
    exact ⟨c, mid, hrest⟩
  -- The space before the mark belongs to the operator, not to the key.
  have hparts : mid = mid.rdropWhile CharSet.space.mem ++ mid.rtakeWhile CharSet.space.mem :=
    List.rdropWhile_append_rtakeWhile.symm
  generalize hfront : mid.rdropWhile CharSet.space.mem = front at hparts
  generalize hgap : mid.rtakeWhile CharSet.space.mem = gap at hparts
  have htail : key.toList.tail = front ++ (gap ++ ['!']) := by
    rw [hmid, hparts]
    simp
  refine ⟨trim isSpace (c :: front), fun value hline => ?_⟩
  have hspace : ∀ x ∈ gap, CharSet.space.mem x = true := by
    intro x hx
    rw [← hgap] at hx
    exact List.mem_rtakeWhile_imp hx
  refine written_trim_of_foremost (c :: front) gap .notEqual value.toList ?_ (by simp) ?_ ?_ hspace
    (fun t => foremost_of_plain ?_ ?_ ?_ ?_) (by simp) hline
  · rw [String.toList_append, String.toList_append, hmid, hparts]
    simp [Op.text]
  · intro x hx
    exact hkey.bare.head x (by rw [hmid]; exact hx)
  · intro hmem
    apply hkey.line
    rw [hmid, hparts]
    rcases List.mem_cons.mp hmem with rfl | hmem
    · exact List.mem_cons_self
    · exact List.mem_cons_of_mem c (by simp [hmem])
  · intro x hx
    rw [List.tail_cons, ← hfront] at hx
    obtain ⟨hne, rfl⟩ := List.mem_getLast?_eq_getLast hx
    exact Bool.eq_false_iff.mpr (List.rdropWhile_last_not _ _ hne)
  · intro hmem
    apply hkey.equals
    rw [htail]
    exact List.mem_append_left _ hmem
  · intro hinside
    apply hkey.mark
    rw [htail]
    exact hinside.trans (List.prefix_append _ _).isInfix
  · intro _
    cases gap with
    | nil => simp [Op.text]
    | cons x gap =>
      have hx := hspace x List.mem_cons_self
      constructor
      · rintro heq
        obtain rfl := Option.some.inj heq
        exact absurd hx (by decide)
      · rintro heq
        obtain rfl := Option.some.inj heq
        exact absurd hx (by decide)

/-- Such a pair is accepted, and reads as it does without the space around the value. -/
theorem parseMatcher_of_resendable (rt : Runtime) {key value : String}
    (h : Resendable key.toList value.toList) :
    ∃ m, parseMatcher rt (key ++ "=" ++ value) = .ok m ∧
      parseMatcher rt (key ++ "=" ++ trimSpace value) = .ok m := by
  have hline : '\n' ∉ (trimSpace value).toList := by
    rw [toList_trimSpace]
    exact fun hmem => h.value_line (mem_of_mem_trim hmem)
  have hsame : unquoteMatcherValue (trimSpace value).toList = unquoteMatcherValue value.toList := by
    apply unquoteMatcherValue_congr
    rw [toList_trimSpace, trim_trim]
  by_cases hend : key.toList.tail.getLast? = some '!'
  · obtain ⟨name, hread⟩ := exists_written_pair_mark h.toPlainKey hend
    refine ⟨⟨.ofList name, .notEqual, .ofList (unquoteMatcherValue value.toList), none⟩, ?_, ?_⟩
    · refine parseMatcher_ok_iff.mpr ⟨?_, rfl⟩
      rw [hread value h.value_line, String.toList_ofList, String.toList_ofList]
    · refine parseMatcher_ok_iff.mpr ⟨?_, rfl⟩
      rw [hread _ hline, String.toList_ofList, String.toList_ofList, hsame]
  · have htilde := h.tilde.resolve_left hend
    have hhead : value.toList.head? ≠ some '~' :=
      fun hhead => htilde (head?_trim hhead (by decide))
    have hhead' : (trimSpace value).toList.head? ≠ some '~' := by
      rw [toList_trimSpace]
      exact htilde
    refine ⟨⟨key, .equal, .ofList (unquoteMatcherValue value.toList), none⟩, ?_, ?_⟩
    · refine parseMatcher_ok_iff.mpr ⟨?_, rfl⟩
      rw [written_pair h.toPlainKey hend h.value_line hhead, String.toList_ofList]
    · refine parseMatcher_ok_iff.mpr ⟨?_, rfl⟩
      rw [written_pair h.toPlainKey hend hline hhead', String.toList_ofList, hsame]

/-- Otherwise the space hides a tilde, and an equality comes back where a regular
expression was asked for. -/
theorem parseMatcher_ne_of_not_resendable (rt : Runtime) {key value : String}
    (hkey : PlainKey key.toList) (hline : '\n' ∉ value.toList) (hspace : SpaceLed value)
    (h : ¬ Resendable key.toList value.toList) :
    parseMatcher rt (key ++ "=" ++ value) ≠ parseMatcher rt (key ++ "=" ++ trimSpace value) := by
  obtain ⟨hend, htilde⟩ : key.toList.tail.getLast? ≠ some '!' ∧
      (trim isSpace value.toList).head? = some '~' := by
    by_contra hnot
    refine h ⟨hkey, hline, ?_⟩
    by_contra hneither
    obtain ⟨hend, htilde⟩ := not_or.mp hneither
    exact hnot ⟨hend, not_not.mp htilde⟩
  obtain ⟨pattern, hpattern⟩ := List.head?_eq_some_iff.mp htilde
  have hhead : value.toList.head? ≠ some '~' := by
    obtain ⟨c, hc, hblank⟩ := hspace
    rw [hc]
    rintro heq
    obtain rfl := Option.some.inj heq
    exact absurd hblank (by decide)
  have hpattern' : '\n' ∉ pattern := by
    intro hmem
    apply hline
    apply mem_of_mem_trim (p := isSpace)
    rw [hpattern]
    exact List.mem_cons_of_mem _ hmem
  have hafter : parseMatcher rt (key ++ "=" ++ value) =
      .ok ⟨key, .equal, .ofList (unquoteMatcherValue value.toList), none⟩ := by
    refine parseMatcher_ok_iff.mpr ⟨?_, rfl⟩
    rw [written_pair hkey hend hline hhead, String.toList_ofList]
  have hbefore := written_pair_tilde hkey hend
    ((toList_trimSpace value).trans hpattern) hpattern'
  intro heq
  have hread := (parseMatcher_ok_iff.mp (heq.symm.trans hafter)).1
  rw [hbefore] at hread
  cases hread

/-- The field the page does not know is not asked for, and every bare parameter with
space before its value can be sent again with it. -/
structure Kept (q : Query) : Prop where
  supervisor : trimSpace (q.get BoolField.supervisorManaged.name) = ""
  spaced : ∀ key, key ∉ reservedParams → BoolField.ofName key = none →
    trimSpace (q.get key) ≠ "" → SpaceLed (q.get key) → Resendable key.toList (q.get key).toList

theorem Kept.resendable {q : Query} (h : Kept q) {key : String} (hmoved : Moved q key) :
    BoolField.ofName key = none ∧ Resendable key.toList (q.get key).toList := by
  rcases hmoved.kind with rfl | ⟨hfield, hspace⟩
  · exact absurd h.supervisor hmoved.not_blank
  · exact ⟨hfield, h.spaced key hmoved.not_reserved hfield hmoved.not_blank hspace⟩

theorem harmless_of_kept {rt : Runtime} {q : Query} (h : Kept q) : Harmless rt q := by
  refine ⟨fun key hmoved => ?_, fun a _ => forall_congr' fun key => forall_congr' fun hmoved => ?_⟩
  · obtain ⟨m, hm, -⟩ := parseMatcher_of_resendable rt (h.resendable hmoved).2
    exact ⟨m, hm⟩
  · obtain ⟨hfield, hresend⟩ := h.resendable hmoved
    obtain ⟨m, hraw, htrimmed⟩ := parseMatcher_of_resendable rt hresend
    have hname : key ≠ BoolField.supervisorManaged.name := by
      rintro rfl
      exact absurd h.supervisor hmoved.not_blank
    simp [AskedBefore, AskedAfter, MatchesText, hraw, htrimmed, hname, hfield]

/-- Sending the displayed filters of an accepted query again keeps its selection if
the query does not ask for the supervisor field, and if each bare parameter that
starts with space can be sent again with it; of the parameters with a plain key and
a one-line value those are the ones that are read as the matcher they were. -/
theorem resubmission_preserves (rt : Runtime) (q : Query) (order : List String) (f : Filters)
    (horder : FinMap.Enumerates order q.keys) (hf : parseFilters rt q order = .ok f) :
    (Kept q → Preserved rt q) ∧
      ∀ key value : String, PlainKey key.toList → '\n' ∉ value.toList → SpaceLed value →
        (parseMatcher rt (key ++ "=" ++ value) = parseMatcher rt (key ++ "=" ++ trimSpace value) ↔
          Resendable key.toList value.toList) := by
  refine ⟨fun hkept => preserved_of_harmless ((parseFilters_ok_iff horder).mp ⟨f, hf⟩)
    (harmless_of_kept hkept), fun key value hkey hline hspace => ⟨fun hsame => ?_, fun h => ?_⟩⟩
  · by_contra hnot
    exact parseMatcher_ne_of_not_resendable rt hkey hline hspace hnot hsame
  · obtain ⟨m, hraw, htrimmed⟩ := parseMatcher_of_resendable rt h
    exact hraw.trans htrimmed.symm

/-- A field filter, a bare parameter with space before its value, and a matcher. -/
def spaced : Query :=
  ((Query.single "connected" "true").insert "service.name" [" checkout"]).insert "match"
    ["env != prod"]

theorem get_spaced_of_ne {key : String} (hconnected : key ≠ "connected")
    (hservice : key ≠ "service.name") (hmatch : key ≠ "match") : spaced.get key = "" := by
  unfold spaced Query.single Query.get Query.values
  rw [FinMap.find_set_of_ne _ _ hmatch, FinMap.find_set_of_ne _ _ hservice,
    FinMap.find_set_of_ne _ _ hconnected]
  rfl

theorem kept_spaced : Kept spaced := by
  have hget : spaced.get "service.name" = " checkout" := by decide +kernel
  refine ⟨by decide +kernel, fun key hreserved hfield hblank _ => ?_⟩
  have hkey : key = "service.name" := by
    by_contra hne
    apply hblank
    rw [get_spaced_of_ne _ hne fun h => hreserved (by rw [h]; decide), trimSpace_empty]
    rintro rfl
    exact absurd hfield (by decide)
  rw [hkey, hget]
  exact ⟨plainKey_service, by decide +kernel, Or.inr (by decide +kernel)⟩

/-- The space hides the tilde of the second value only. -/
theorem resubmission_preserves_spaced :
    Moved spaced "service.name" ∧ collectMatches spaced ["connected", "service.name", "match"] =
      ["env != prod", "service.name= checkout"] ∧ Preserved .core spaced ∧
      parseMatcher .core ("service.name" ++ "=" ++ " ~checkout") ≠
        parseMatcher .core ("service.name" ++ "=" ++ trimSpace " ~checkout") := by
  have horder : FinMap.Enumerates ["connected", "service.name", "match"] spaced.keys := by
    decide +kernel
  obtain ⟨f, hf⟩ : ∃ f, parseFilters .core spaced ["connected", "service.name", "match"] =
      .ok f := by
    have hok : (parseFilters .core spaced ["connected", "service.name", "match"]).isOk = true := by
      decide +kernel
    cases hparse : parseFilters .core spaced ["connected", "service.name", "match"] with
    | error e => simp [hparse, Except.isOk, Except.toBool] at hok
    | ok f => exact ⟨f, rfl⟩
  obtain ⟨hpreserved, hexact⟩ := resubmission_preserves .core spaced _ f horder hf
  have hhidden : ¬ Resendable "service.name".toList " ~checkout".toList := by
    intro h
    exact absurd h.tilde (by decide +kernel)
  refine ⟨⟨by decide, by decide +kernel, Or.inr ⟨by decide, ' ', by decide +kernel, by decide⟩⟩,
    by decide +kernel, hpreserved kept_spaced, ?_⟩
  exact (hexact _ _ plainKey_service (by decide +kernel)
    ⟨' ', by decide +kernel, by decide⟩).not.mpr hhidden

/-- An agent that declares its supervisor. -/
def managed : Agent :=
  { instanceUID := "agent-1"
    nonIdentifying := (∅ : FinMap String String).insert "opamp.managed_by" supervisorManagedByValue }

/-- A field filter comes back as an attribute filter, and the agent is lost. -/
theorem supervisor_filter_lost :
    ∃ f f', parseFilters .core (.single "supervisor_managed" "true") ["supervisor_managed"] = .ok f ∧
      matchingAgents (fun _ => [.supervisorManaged]) [managed] f = [managed] ∧
      parseFilters .core (resubmitted (.single "supervisor_managed" "true") ["supervisor_managed"])
        ["match"] = .ok f' ∧ matchingAgents (fun _ => []) [managed] f' = [] := by
  refine ⟨⟨[], (∅ : FinMap BoolField Bool).insert .supervisorManaged true⟩,
    ⟨[⟨"supervisor_managed", .equal, "true", none⟩], ∅⟩, rfl, by decide +kernel, ?_,
    by decide +kernel⟩
  have hvalues : (resubmitted (.single "supervisor_managed" "true") ["supervisor_managed"]).values
      "match" = ["supervisor_managed=true"] := by decide +kernel
  have hlegacy : readLegacy .core (resubmitted (.single "supervisor_managed" "true")
      ["supervisor_managed"]) = .ok none := by
    unfold readLegacy
    rw [blank_resubmitted _ _ (by decide) (by decide)]
    rfl
  have hparse : parseMatcher .core "supervisor_managed=true" =
      .ok ⟨"supervisor_managed", .equal, "true", none⟩ :=
    parseMatcher_ok_iff.mpr ⟨by decide +kernel, rfl⟩
  unfold parseFilters reads
  rw [hlegacy, List.map_cons, hvalues, List.map_cons, readMatch_of_parse (by decide +kernel) hparse]
  rfl

end Grex.Resubmission
