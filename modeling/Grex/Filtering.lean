import Grex.Matchers

/-!
The filters of a list request. The parameters are read in the iteration order of
the query's map and the first bad one refuses the request; what an accepted query
selects is a conjunction, one part for each parameter, so neither the outcome nor
the selection depends on that order.
-/

namespace Grex.Filtering

open GoText AgentState Matchers

abbrev Query := FinMap String (List String)

namespace Query

def values (q : Query) (key : String) : List String := (q.find key).getD []

/-- The first value of a parameter, empty where it has none. -/
def get (q : Query) (key : String) : String := (q.values key).head?.getD ""

/-- The query with one parameter. -/
def single (key value : String) : Query := (∅ : FinMap String (List String)).insert key [value]

@[simp] theorem values_single (key value : String) : (single key value).values key = [value] := by
  simp [single, values]

theorem values_single_of_ne {key name : String} (value : String) (h : name ≠ key) :
    (single key value).values name = [] := by
  unfold single values
  rw [FinMap.find_set_of_ne _ _ h]
  rfl

theorem get_single_of_ne {key name : String} (value : String) (h : name ≠ key) :
    (single key value).get name = "" := by
  unfold get
  rw [values_single_of_ne value h]
  rfl

end Query

/-- Parameters that are never filters. -/
def reservedParams : List String :=
  ["limit", "offset", "sort", "order", "match", "attr_key", "attr_value"]

/-- The well-known fields that can be filtered on by name. -/
inductive BoolField
  | healthy
  | connected
  | viaGateway
  | supervisorManaged
  deriving DecidableEq

namespace BoolField

def name : BoolField → String
  | healthy => "healthy"
  | connected => "connected"
  | viaGateway => "via_gateway"
  | supervisorManaged => "supervisor_managed"

def ofName (key : String) : Option BoolField :=
  [healthy, connected, viaGateway, supervisorManaged].find? fun field => field.name = key

def value (a : Agent) : BoolField → Bool
  | healthy => a.healthy
  | connected => a.connected
  | viaGateway => a.conn.viaGateway
  | supervisorManaged => AgentState.supervisorManaged a

theorem ofName_eq_some {key : String} {field : BoolField} :
    ofName key = some field ↔ field.name = key := by
  constructor
  · intro h
    simpa using List.find?_some h
  · rintro rfl
    cases field <;> decide

end BoolField

structure Filters where
  matchers : List AttrMatcher
  bools : FinMap BoolField Bool

namespace Filters

def empty : Filters := ⟨[], ∅⟩

def isEmpty (f : Filters) : Bool := f.matchers.isEmpty && decide (f.bools.keys = ∅)

end Filters

/-- One constraint read from a query. -/
inductive Test
  | matcher (m : AttrMatcher)
  | flag (field : BoolField) (want : Bool)

namespace Test

def holds (a : Agent) : Test → Bool
  | matcher m => matchAttr a m
  | flag field want => field.value a == want

/-- The field of a boolean constraint. -/
def field? : Test → Option BoolField
  | matcher _ => none
  | flag field _ => some field

end Test

/-- One turn of the loop over the query's map. -/
def readParam (rt : Runtime) (key : String) (values : List String) :
    Except String (Option Test) :=
  if key ∈ reservedParams then .ok none
  else
    match values with
    | [] => .ok none
    | first :: _ =>
        let val := trimSpace first
        if val = "" then .ok none
        else
          match BoolField.ofName key with
          | some field =>
              match parseBool val with
              | none => .error (key ++ " must be a boolean (true or false)")
              | some b => .ok (some (.flag field b))
          | none => (parseMatcher rt (key ++ "=" ++ val)).map fun m => some (.matcher m)

/-- One turn of the loop over the values of `match`. -/
def readMatch (rt : Runtime) (raw : String) : Except String (Option Test) :=
  let raw := trimSpace raw
  if raw = "" then .ok none
  else (parseMatcher rt raw).map fun m => some (.matcher m)

theorem readMatch_of_ne {rt : Runtime} {raw : String} (hraw : trimSpace raw ≠ "") :
    readMatch rt raw = (parseMatcher rt raw).map fun m => some (.matcher m) := by
  unfold readMatch
  simp only [hraw, if_false, parseMatcher_trimSpace]

theorem readMatch_of_parse {rt : Runtime} {raw : String} {m : AttrMatcher}
    (hraw : trimSpace raw ≠ "") (h : parseMatcher rt raw = .ok m) :
    readMatch rt raw = .ok (some (.matcher m)) := by
  rw [readMatch_of_ne hraw, h]
  rfl

/-- The legacy pair of parameters. -/
def readLegacy (rt : Runtime) (q : Query) : Except String (Option Test) :=
  let key := trimSpace (q.get "attr_key")
  if key = "" then .ok none
  else (parseMatcher rt (key ++ "=" ++ q.get "attr_value")).map fun m => some (.matcher m)

def Filters.add (f : Filters) : Test → Filters
  | .matcher m => { f with matchers := f.matchers ++ [m] }
  | .flag field want => { f with bools := f.bools.insert field want }

/-- What was read is added to the filters; an error is returned at once. -/
def collect (f : Filters) (read : Except String (Option Test)) : Except String Filters :=
  read.map fun test =>
    match test with
    | none => f
    | some test => f.add test

/-- What is read from the query, in order. -/
def reads (rt : Runtime) (q : Query) (order : List String) : List (Except String (Option Test)) :=
  order.map (fun key => readParam rt key (q.values key)) ++
    ((q.values "match").map (readMatch rt) ++ [readLegacy rt q])

def parseFilters (rt : Runtime) (q : Query) (order : List String) : Except String Filters :=
  (reads rt q order).foldlM collect Filters.empty

/-- The matchers first, then the fields in the iteration order of their map. -/
def agentMatches (order : List BoolField) (f : Filters) (a : Agent) : Bool :=
  f.matchers.all (matchAttr a) && order.all fun field =>
    match f.bools.find field with
    | none => true
    | some want => field.value a == want

/-- Each agent is tested with an iteration of its own. -/
def matchingAgents (orders : ℕ → List BoolField) (agents : List Agent) (f : Filters) :
    List Agent :=
  if f.isEmpty then agents
  else ((agents.zipIdx).filter fun entry => agentMatches (orders entry.2) f entry.1).map Prod.fst

/-! ### What an accepted query selects -/

/-- What a reading asks of an agent. -/
def asks (a : Agent) : Except String (Option Test) → Bool
  | .error _ => false
  | .ok none => true
  | .ok (some test) => test.holds a

/-- Every part of the query can be read. -/
structure Accepted (rt : Runtime) (q : Query) : Prop where
  params : ∀ key ∈ q.keys, (readParam rt key (q.values key)).isOk = true
  repeated : ∀ raw ∈ q.values "match", (readMatch rt raw).isOk = true
  legacy : (readLegacy rt q).isOk = true

/-- The agent satisfies the matcher a text stands for. -/
def MatchesText (rt : Runtime) (a : Agent) (s : String) : Prop :=
  ∃ m, parseMatcher rt s = .ok m ∧ matchAttr a m = true

/-- Every boolean parameter, every bare attribute, every value of `match` and the
legacy pair holds of the agent. -/
structure Satisfies (rt : Runtime) (q : Query) (a : Agent) : Prop where
  bools : ∀ field : BoolField, trimSpace (q.get field.name) ≠ "" →
    parseBool (trimSpace (q.get field.name)) = some (field.value a)
  bare : ∀ key, key ∉ reservedParams → BoolField.ofName key = none →
    trimSpace (q.get key) ≠ "" → MatchesText rt a (key ++ "=" ++ trimSpace (q.get key))
  repeated : ∀ raw ∈ q.values "match", trimSpace raw ≠ "" → MatchesText rt a (trimSpace raw)
  legacy : trimSpace (q.get "attr_key") ≠ "" →
    MatchesText rt a (trimSpace (q.get "attr_key") ++ "=" ++ q.get "attr_value")

theorem matchesText_trimSpace {rt : Runtime} {a : Agent} {s : String} :
    MatchesText rt a (trimSpace s) ↔ MatchesText rt a s := by
  unfold MatchesText
  rw [parseMatcher_trimSpace]

theorem asks_map_matcher (rt : Runtime) (a : Agent) (s : String) :
    asks a ((parseMatcher rt s).map fun m => some (.matcher m)) = true ↔ MatchesText rt a s := by
  unfold MatchesText
  cases parseMatcher rt s with
  | error e => simp [Except.map, asks]
  | ok m => simp [Except.map, asks, Test.holds]

theorem asks_readMatch (rt : Runtime) (a : Agent) (raw : String) :
    asks a (readMatch rt raw) = true ↔ (trimSpace raw ≠ "" → MatchesText rt a (trimSpace raw)) := by
  unfold readMatch
  by_cases hblank : trimSpace raw = ""
  · simp [hblank, asks]
  · simp only [hblank, if_false, ne_eq, not_false_eq_true, true_imp_iff]
    exact asks_map_matcher rt a _

theorem asks_readLegacy (rt : Runtime) (a : Agent) (q : Query) :
    asks a (readLegacy rt q) = true ↔ (trimSpace (q.get "attr_key") ≠ "" →
      MatchesText rt a (trimSpace (q.get "attr_key") ++ "=" ++ q.get "attr_value")) := by
  unfold readLegacy
  by_cases hblank : trimSpace (q.get "attr_key") = ""
  · simp [hblank, asks]
  · simp only [hblank, if_false, ne_eq, not_false_eq_true, true_imp_iff]
    exact asks_map_matcher rt a _

theorem trimSpace_empty : trimSpace "" = "" := by decide

/-- A parameter without values reads like a blank one. -/
theorem readParam_eq (rt : Runtime) (q : Query) (key : String) :
    readParam rt key (q.values key) =
      if key ∈ reservedParams ∨ trimSpace (q.get key) = "" then .ok none
      else
        match BoolField.ofName key with
        | some field =>
            match parseBool (trimSpace (q.get key)) with
            | none => .error (key ++ " must be a boolean (true or false)")
            | some b => .ok (some (.flag field b))
        | none => (parseMatcher rt (key ++ "=" ++ trimSpace (q.get key))).map
            fun m => some (.matcher m) := by
  unfold readParam Query.get
  by_cases hreserved : key ∈ reservedParams
  · simp [hreserved]
  · cases q.values key with
    | nil => simp [trimSpace_empty]
    | cons first rest =>
      by_cases hblank : trimSpace first = ""
      · simp [hblank]
      · simp [hreserved, hblank]

theorem asks_readParam (rt : Runtime) (a : Agent) (q : Query) (key : String) :
    asks a (readParam rt key (q.values key)) = true ↔
      (key ∉ reservedParams → trimSpace (q.get key) ≠ "" →
        (∀ field, BoolField.ofName key = some field →
          parseBool (trimSpace (q.get key)) = some (field.value a)) ∧
        (BoolField.ofName key = none →
          MatchesText rt a (key ++ "=" ++ trimSpace (q.get key)))) := by
  rw [readParam_eq]
  by_cases hskip : key ∈ reservedParams ∨ trimSpace (q.get key) = ""
  · rw [if_pos hskip]
    simp only [asks, true_iff]
    intro hreserved hblank
    exact absurd hskip (by simp [hreserved, hblank])
  · rw [if_neg hskip]
    obtain ⟨hreserved, hblank⟩ := not_or.mp hskip
    simp only [hreserved, hblank, ne_eq, not_false_eq_true, true_imp_iff]
    cases hfield : BoolField.ofName key with
    | none =>
      rw [asks_map_matcher]
      simp
    | some field =>
      cases hbool : parseBool (trimSpace (q.get key)) with
      | none => simp [asks]
      | some b =>
        simp only [asks, Test.holds, beq_iff_eq, Option.some.injEq, forall_eq', reduceCtorEq,
          false_imp_iff, and_true]
        exact eq_comm

theorem mem_keys_of_get {q : Query} {key : String} (h : trimSpace (q.get key) ≠ "") :
    key ∈ q.keys := by
  rw [q.mem_keys]
  cases hfind : q.find key with
  | none =>
    exfalso
    apply h
    unfold Query.get Query.values
    rw [hfind]
    exact trimSpace_empty
  | some values => rfl

theorem name_not_reserved (field : BoolField) : field.name ∉ reservedParams := by
  cases field <;> decide

/-- The selection in terms of the single readings. -/
theorem satisfies_iff (rt : Runtime) (q : Query) (a : Agent) :
    Satisfies rt q a ↔ (∀ key ∈ q.keys, asks a (readParam rt key (q.values key)) = true) ∧
      (∀ raw ∈ q.values "match", asks a (readMatch rt raw) = true) ∧
      asks a (readLegacy rt q) = true := by
  simp only [asks_readParam, asks_readMatch, asks_readLegacy]
  constructor
  · intro h
    refine ⟨fun key _ hreserved hblank => ⟨fun field hfield => ?_, fun hfield => ?_⟩,
      h.repeated, h.legacy⟩
    · obtain rfl := BoolField.ofName_eq_some.mp hfield
      exact h.bools field hblank
    · exact h.bare key hreserved hfield hblank
  · rintro ⟨hparams, hrepeated, hlegacy⟩
    refine ⟨fun field hblank => ?_, fun key hreserved hfield hblank => ?_, hrepeated, hlegacy⟩
    · exact (hparams _ (mem_keys_of_get hblank) (name_not_reserved field) hblank).1 field
        (BoolField.ofName_eq_some.mpr rfl)
    · exact (hparams key (mem_keys_of_get hblank) hreserved hblank).2 hfield

instance (rt : Runtime) (q : Query) (a : Agent) : Decidable (Satisfies rt q a) :=
  decidable_of_iff _ (satisfies_iff rt q a).symm

/-! ### Queries with the same filters -/

/-- The queries differ only in parameters that are no filters. -/
structure SameFilters (q q' : Query) : Prop where
  bare : ∀ key ∉ reservedParams, q.get key = q'.get key
  repeated : q.values "match" = q'.values "match"
  attr_key : q.get "attr_key" = q'.get "attr_key"
  attr_value : q.get "attr_value" = q'.get "attr_value"

namespace SameFilters

variable {rt : Runtime} {q q' : Query}

theorem symm (h : SameFilters q q') : SameFilters q' q where
  bare key hkey := (h.bare key hkey).symm
  repeated := h.repeated.symm
  attr_key := h.attr_key.symm
  attr_value := h.attr_value.symm

theorem readLegacy_eq (h : SameFilters q q') : readLegacy rt q = readLegacy rt q' := by
  unfold readLegacy
  rw [h.attr_key, h.attr_value]

theorem readParam_eq (h : SameFilters q q') (key : String) :
    readParam rt key (q.values key) = readParam rt key (q'.values key) := by
  rw [Filtering.readParam_eq, Filtering.readParam_eq]
  by_cases hkey : key ∈ reservedParams
  · rw [if_pos (Or.inl hkey), if_pos (Or.inl hkey)]
  · rw [h.bare key hkey]

theorem satisfies (h : SameFilters q q') {a : Agent} (hq : Satisfies rt q a) :
    Satisfies rt q' a where
  bools field := by
    rw [← h.bare field.name (name_not_reserved field)]
    exact hq.bools field
  bare key hreserved := by
    rw [← h.bare key hreserved]
    exact hq.bare key hreserved
  repeated := by
    rw [← h.repeated]
    exact hq.repeated
  legacy := by
    rw [← h.attr_key, ← h.attr_value]
    exact hq.legacy

theorem accepted (h : SameFilters q q') (hq : Accepted rt q) : Accepted rt q' where
  params key _ := by
    rw [← h.readParam_eq]
    by_cases hkey : key ∈ q.keys
    · exact hq.params key hkey
    · rw [Filtering.readParam_eq, if_pos (Or.inr (not_not.mp (mt mem_keys_of_get hkey)))]
      rfl
  repeated := by
    rw [← h.repeated]
    exact hq.repeated
  legacy := by
    rw [← h.readLegacy_eq]
    exact hq.legacy

theorem satisfies_iff (h : SameFilters q q') {a : Agent} : Satisfies rt q a ↔ Satisfies rt q' a :=
  ⟨h.satisfies, h.symm.satisfies⟩

theorem accepted_iff (h : SameFilters q q') : Accepted rt q ↔ Accepted rt q' :=
  ⟨h.accepted, h.symm.accepted⟩

end SameFilters

/-! ### Reading in any order -/

def test? : Except String (Option Test) → Option Test
  | .error _ => none
  | .ok test => test

theorem foldlM_collect {rs : List (Except String (Option Test))}
    (h : ∀ r ∈ rs, r.isOk = true) (f : Filters) :
    rs.foldlM collect f = .ok ((rs.filterMap test?).foldl Filters.add f) := by
  induction rs generalizing f with
  | nil => rfl
  | cons r rs ih =>
    have hrest := ih fun r hr => h r (List.mem_cons_of_mem _ hr)
    cases r with
    | error e => exact absurd (h _ List.mem_cons_self) (by simp [Except.isOk, Except.toBool])
    | ok test =>
      cases test with
      | none => exact hrest f
      | some test => exact hrest (f.add test)

theorem foldlM_collect_error {rs : List (Except String (Option Test))} (f : Filters)
    {r : Except String (Option Test)} (hr : r ∈ rs) (hbad : r.isOk = false) :
    ∃ e, rs.foldlM collect f = .error e := by
  induction rs generalizing f with
  | nil => cases hr
  | cons r' rs ih =>
    rw [List.foldlM_cons]
    cases r' with
    | error e => exact ⟨e, rfl⟩
    | ok test =>
      rcases List.mem_cons.mp hr with rfl | hr
      · cases hbad
      · exact ih _ hr

theorem accepted_iff {rt : Runtime} {q : Query} {order : List String}
    (horder : FinMap.Enumerates order q.keys) :
    Accepted rt q ↔ ∀ r ∈ reads rt q order, r.isOk = true := by
  unfold reads
  constructor
  · intro h r hr
    rcases List.mem_append.mp hr with hr | hr
    · obtain ⟨key, hkey, rfl⟩ := List.mem_map.mp hr
      exact h.params key ((horder.mem_iff key).mp hkey)
    · rcases List.mem_append.mp hr with hr | hr
      · obtain ⟨raw, hraw, rfl⟩ := List.mem_map.mp hr
        exact h.repeated raw hraw
      · rw [List.mem_singleton.mp hr]
        exact h.legacy
  · intro h
    refine ⟨fun key hkey => h _ ?_, fun raw hraw => h _ ?_, h _ ?_⟩
    · exact List.mem_append_left _ (List.mem_map_of_mem ((horder.mem_iff key).mpr hkey))
    · exact List.mem_append_right _ (List.mem_append_left _ (List.mem_map_of_mem hraw))
    · exact List.mem_append_right _ (List.mem_append_right _ (List.mem_singleton.mpr rfl))

theorem parseFilters_ok_iff {rt : Runtime} {q : Query} {order : List String}
    (horder : FinMap.Enumerates order q.keys) :
    (∃ f, parseFilters rt q order = .ok f) ↔ Accepted rt q := by
  rw [accepted_iff horder]
  constructor
  · rintro ⟨f, hf⟩ r hr
    cases hok : r.isOk with
    | true => rfl
    | false =>
      obtain ⟨e, he⟩ := foldlM_collect_error Filters.empty hr hok
      unfold parseFilters at hf
      rw [he] at hf
      cases hf
  · intro h
    exact ⟨_, foldlM_collect h Filters.empty⟩

/-- What the filters ask of an agent. -/
def Filters.Holds (f : Filters) (a : Agent) : Prop :=
  (∀ m ∈ f.matchers, matchAttr a m = true) ∧
    ∀ field want, f.bools.find field = some want → field.value a = want

theorem agentMatches_iff {order : List BoolField} {f : Filters}
    (horder : FinMap.Enumerates order f.bools.keys) (a : Agent) :
    agentMatches order f a = true ↔ f.Holds a := by
  unfold agentMatches Filters.Holds
  rw [Bool.and_eq_true, List.all_eq_true, List.all_eq_true]
  apply and_congr_right
  intro _
  constructor
  · intro h field want hfind
    have hmem : field ∈ order := (horder.mem_iff field).mpr
      ((f.bools.mem_keys_iff field).mpr ⟨want, hfind⟩)
    have hfield := h field hmem
    rw [hfind] at hfield
    exact beq_iff_eq.mp hfield
  · intro h field _
    cases hfind : f.bools.find field with
    | none => rfl
    | some want => exact beq_iff_eq.mpr (h field want hfind)

theorem mem_keys_add {f : Filters} {test : Test} {field : BoolField} :
    field ∈ (f.add test).bools.keys ↔ test.field? = some field ∨ field ∈ f.bools.keys := by
  cases test with
  | matcher m => simp [Filters.add, Test.field?]
  | flag field' want =>
    rw [FinMap.mem_keys, FinMap.mem_keys]
    change ((f.bools.insert field' want).find field).isSome = true ↔ _
    rw [FinMap.find_set]
    by_cases hsame : field = field'
    · simp [hsame, Test.field?]
    · simp [hsame, Test.field?, Ne.symm hsame]

theorem holds_add {f : Filters} {test : Test}
    (hnew : ∀ field, test.field? = some field → field ∉ f.bools.keys) (a : Agent) :
    (f.add test).Holds a ↔ f.Holds a ∧ test.holds a = true := by
  unfold Filters.Holds
  cases test with
  | matcher m =>
    simp only [Filters.add, Test.holds, List.mem_append, List.mem_singleton, or_imp, forall_and,
      forall_eq]
    exact and_right_comm
  | flag field want =>
    rw [and_assoc]
    apply and_congr_right
    intro _
    have hfind : ∀ field', (f.add (.flag field want)).bools.find field' =
        if field' = field then some want else f.bools.find field' :=
      fun field' => f.bools.find_set field field' _
    constructor
    · intro h
      refine ⟨fun field' want' hwant => h field' want' ?_, beq_iff_eq.mpr (h field want ?_)⟩
      · have hne : field' ≠ field := by
          rintro rfl
          exact hnew field' rfl ((f.bools.mem_keys_iff field').mpr ⟨want', hwant⟩)
        rw [hfind, if_neg hne, hwant]
      · rw [hfind, if_pos rfl]
    · rintro ⟨hold, hflag⟩ field' want' hwant
      rw [hfind] at hwant
      split at hwant
      next hsame =>
        rw [hsame, ← Option.some.inj hwant]
        exact beq_iff_eq.mp hflag
      next => exact hold field' want' hwant

theorem holds_foldl {tests : List Test} (hnodup : (tests.filterMap Test.field?).Nodup)
    {f : Filters} (hnew : ∀ test ∈ tests, ∀ field, test.field? = some field → field ∉ f.bools.keys)
    (a : Agent) :
    (tests.foldl Filters.add f).Holds a ↔ f.Holds a ∧ ∀ test ∈ tests, test.holds a = true := by
  induction tests generalizing f with
  | nil => simp
  | cons test tests ih =>
    have htail : (tests.filterMap Test.field?).Nodup := by
      rw [List.filterMap_cons] at hnodup
      split at hnodup
      next => exact hnodup
      next => exact (List.nodup_cons.mp hnodup).2
    have hfresh : ∀ t ∈ tests, ∀ field, t.field? = some field →
        field ∉ (f.add test).bools.keys := by
      intro t ht field hfield hmem
      rcases mem_keys_add.mp hmem with htest | hold
      · rw [List.filterMap_cons, htest] at hnodup
        exact (List.nodup_cons.mp hnodup).1 (List.mem_filterMap.mpr ⟨t, ht, hfield⟩)
      · exact hnew t (List.mem_cons_of_mem test ht) field hfield hold
    rw [List.foldl_cons, ih htail hfresh, holds_add (hnew test List.mem_cons_self), and_assoc]
    simp

theorem field_map_matcher (read : Except String AttrMatcher) :
    (test? (read.map fun m => some (.matcher m))).bind Test.field? = none := by
  cases read <;> rfl

/-- A field is set by the parameter of its own name only. -/
theorem field_readParam {rt : Runtime} {q : Query} {key : String} {field : BoolField}
    (h : (test? (readParam rt key (q.values key))).bind Test.field? = some field) :
    field.name = key := by
  rw [readParam_eq] at h
  split at h
  next => cases h
  next =>
    split at h
    next field' hfield =>
      split at h
      next => cases h
      next =>
        obtain rfl : field' = field := Option.some.inj h
        exact BoolField.ofName_eq_some.mp hfield
    next =>
      rw [field_map_matcher] at h
      cases h

theorem field_readMatch (rt : Runtime) (raw : String) :
    (test? (readMatch rt raw)).bind Test.field? = none := by
  unfold readMatch
  simp only
  split
  next => rfl
  next => exact field_map_matcher _

theorem field_readLegacy (rt : Runtime) (q : Query) :
    (test? (readLegacy rt q)).bind Test.field? = none := by
  unfold readLegacy
  simp only
  split
  next => rfl
  next => exact field_map_matcher _

theorem mem_keys_foldl {tests : List Test} {f : Filters} {field : BoolField} :
    field ∈ (tests.foldl Filters.add f).bools.keys ↔
      (∃ test ∈ tests, test.field? = some field) ∨ field ∈ f.bools.keys := by
  induction tests generalizing f with
  | nil => simp
  | cons test tests ih =>
    rw [List.foldl_cons, ih, mem_keys_add, List.exists_mem_cons_iff, or_left_comm, or_assoc]

/-- The fields that are set are named by parameters. -/
theorem name_mem_of_mem_bools {rt : Runtime} {q : Query} {order : List String} {f : Filters}
    (horder : FinMap.Enumerates order q.keys) (hf : parseFilters rt q order = .ok f)
    {field : BoolField} (hfield : field ∈ f.bools.keys) : field.name ∈ order := by
  have hok := (accepted_iff horder).mp ((parseFilters_ok_iff horder).mp ⟨f, hf⟩)
  unfold parseFilters at hf
  rw [foldlM_collect hok, Except.ok.injEq] at hf
  rw [← hf, mem_keys_foldl] at hfield
  obtain ⟨test, htest, hset⟩ := hfield.resolve_right (by simp [Filters.empty])
  obtain ⟨r, hr, hread⟩ := List.mem_filterMap.mp htest
  have hset' : (test? r).bind Test.field? = some field := by
    rw [hread]
    exact hset
  unfold reads at hr
  rcases List.mem_append.mp hr with hr | hr
  · obtain ⟨key, hkey, rfl⟩ := List.mem_map.mp hr
    rwa [field_readParam hset']
  · rcases List.mem_append.mp hr with hr | hr
    · obtain ⟨raw, -, rfl⟩ := List.mem_map.mp hr
      rw [field_readMatch] at hset'
      cases hset'
    · rw [List.mem_singleton.mp hr, field_readLegacy] at hset'
      cases hset'

/-- The map has one entry for each name, so no field is set twice. -/
theorem nodup_fields (rt : Runtime) (q : Query) {order : List String} (horder : order.Nodup) :
    (((reads rt q order).filterMap test?).filterMap Test.field?).Nodup := by
  have hmatches : (q.values "match").filterMap
      (fun raw => (test? (readMatch rt raw)).bind Test.field?) = [] := by
    rw [List.filterMap_eq_nil_iff]
    exact fun raw _ => field_readMatch rt raw
  unfold reads
  rw [List.filterMap_filterMap, List.filterMap_append, List.filterMap_append, List.filterMap_map,
    List.filterMap_map, List.filterMap_cons]
  simp only [Function.comp_def, hmatches, field_readLegacy, List.filterMap_nil, List.append_nil]
  refine List.Nodup.filterMap (fun key key' field hfield hfield' => ?_) horder
  exact (field_readParam hfield).symm.trans (field_readParam hfield')

theorem forall_tests_iff {rs : List (Except String (Option Test))}
    (hok : ∀ r ∈ rs, r.isOk = true) (a : Agent) :
    (∀ test ∈ rs.filterMap test?, test.holds a = true) ↔ ∀ r ∈ rs, asks a r = true := by
  constructor
  · intro h r hr
    cases r with
    | error e => exact absurd (hok _ hr) (by simp [Except.isOk, Except.toBool])
    | ok test =>
      cases test with
      | none => rfl
      | some test => exact h test (List.mem_filterMap.mpr ⟨_, hr, rfl⟩)
  · intro h test htest
    obtain ⟨r, hr, hread⟩ := List.mem_filterMap.mp htest
    cases r with
    | error e => cases hread
    | ok read =>
      obtain rfl : read = some test := hread
      exact h _ hr

theorem forall_reads_iff {rt : Runtime} {q : Query} {order : List String}
    (horder : FinMap.Enumerates order q.keys) (a : Agent) :
    (∀ r ∈ reads rt q order, asks a r = true) ↔ Satisfies rt q a := by
  rw [satisfies_iff]
  unfold reads
  simp only [List.mem_append, List.mem_map, List.mem_singleton, or_imp, forall_and,
    forall_exists_index, and_imp, forall_apply_eq_imp_iff₂, forall_eq, horder.mem_iff]

theorem holds_iff_satisfies {rt : Runtime} {q : Query} {order : List String} {f : Filters}
    (horder : FinMap.Enumerates order q.keys) (hf : parseFilters rt q order = .ok f) (a : Agent) :
    f.Holds a ↔ Satisfies rt q a := by
  have hok := (accepted_iff horder).mp ((parseFilters_ok_iff horder).mp ⟨f, hf⟩)
  unfold parseFilters at hf
  rw [foldlM_collect hok, Except.ok.injEq] at hf
  rw [← hf, holds_foldl (nodup_fields rt q horder.nodup) (fun _ _ _ _ => by simp [Filters.empty]),
    forall_tests_iff hok, forall_reads_iff horder]
  simp [Filters.Holds, Filters.empty]

theorem holds_of_isEmpty {f : Filters} (h : f.isEmpty = true) (a : Agent) : f.Holds a := by
  unfold Filters.isEmpty at h
  rw [Bool.and_eq_true, List.isEmpty_iff, decide_eq_true_eq] at h
  refine ⟨fun m hm => ?_, fun field want hfind => ?_⟩
  · rw [h.1] at hm
    cases hm
  · have hmem := (f.bools.mem_keys_iff field).mpr ⟨want, hfind⟩
    rw [h.2] at hmem
    exact absurd hmem (Finset.notMem_empty field)

theorem matchingAgents_eq_filter {f : Filters} {orders : ℕ → List BoolField}
    (horders : ∀ i, FinMap.Enumerates (orders i) f.bools.keys) {p : Agent → Bool}
    (hp : ∀ a, p a = true ↔ f.Holds a) (agents : List Agent) :
    matchingAgents orders agents f = agents.filter p := by
  unfold matchingAgents
  split
  next hempty =>
    rw [eq_comm, List.filter_eq_self]
    exact fun a _ => (hp a).mpr (holds_of_isEmpty hempty a)
  next =>
    have hsame : (fun entry : Agent × ℕ => agentMatches (orders entry.2) f entry.1) =
        p ∘ Prod.fst := by
      funext entry
      rw [Bool.eq_iff_iff, agentMatches_iff (horders entry.2)]
      exact (hp entry.1).symm
    rw [hsame, ← List.filter_map, List.zipIdx_map_fst]

/-- An accepted query keeps the agents that satisfy it. -/
theorem matchingAgents_of_parse {rt : Runtime} {q : Query} {order : List String} {f : Filters}
    (horder : FinMap.Enumerates order q.keys) (hf : parseFilters rt q order = .ok f)
    {orders : ℕ → List BoolField} (horders : ∀ i, FinMap.Enumerates (orders i) f.bools.keys)
    (agents : List Agent) :
    matchingAgents orders agents f = agents.filter fun a => decide (Satisfies rt q a) := by
  apply matchingAgents_eq_filter horders
  intro a
  rw [decide_eq_true_eq, holds_iff_satisfies horder hf]

/-- Whether a query is accepted does not depend on the order of its map, and the
agents an accepted query keeps are those that satisfy all its parts, in the order
they came in. -/
theorem filtering_order_independent (rt : Runtime) (q : Query) :
    (∀ order order', FinMap.Enumerates order q.keys → FinMap.Enumerates order' q.keys →
        ((∃ f, parseFilters rt q order = .ok f) ↔ ∃ f, parseFilters rt q order' = .ok f)) ∧
      ∀ order f, FinMap.Enumerates order q.keys → parseFilters rt q order = .ok f →
        ∀ orders : ℕ → List BoolField, (∀ i, FinMap.Enumerates (orders i) f.bools.keys) →
          ∀ agents, matchingAgents orders agents f =
            agents.filter fun a => decide (Satisfies rt q a) := by
  constructor
  · intro order order' horder horder'
    rw [parseFilters_ok_iff horder, parseFilters_ok_iff horder']
  · intro order f horder hf orders horders agents
    exact matchingAgents_of_parse horder hf horders agents

end Grex.Filtering
