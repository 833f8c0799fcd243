import Grex.Filtering
import Grex.MatcherText

/-!
Bare query parameters. A parameter that is no filter of its own is written out as
a matcher with an equals sign and read back, so it asks for the exact value only
where the text is split again at that sign and the value is taken as it is.
-/

namespace Grex.BareParams

open GoText Regex AgentState Matchers Filtering

theorem parseFilters_single {rt : Runtime} {key value : String} (hreserved : key ∉ reservedParams)
    (hfield : BoolField.ofName key = none) (hblank : trimSpace value ≠ "") :
    parseFilters rt (.single key value) [key] =
      (parseMatcher rt (key ++ "=" ++ trimSpace value)).map fun m => ⟨[m], ∅⟩ := by
  have hother : ∀ name ∈ reservedParams, name ≠ key := by
    rintro name hname rfl
    exact hreserved hname
  have hlegacy : readLegacy rt (.single key value) = .ok none := by
    unfold readLegacy
    rw [Query.get_single_of_ne value (hother "attr_key" (by decide))]
    rfl
  unfold parseFilters reads
  rw [Query.values_single_of_ne value (hother "match" (by decide)), hlegacy, List.map_cons,
    Query.values_single]
  simp only [readParam, hreserved, hblank, hfield, if_false]
  cases parseMatcher rt (key ++ "=" ++ trimSpace value) <;> rfl

/-! ### Which agents a matcher keeps -/

/-- An agent with one attribute. -/
def holding (key value : String) : Agent :=
  { instanceUID := "", firstSeen := 0, identifying := (∅ : FinMap String String).insert key value }

/-- An agent without attributes. -/
def plain : Agent := { instanceUID := "", firstSeen := 0 }

theorem attrValue_holding (key value name : String) :
    attrValue (holding key value) name = if name = key then some value else none := by
  unfold attrValue holding
  simp only [FinMap.find_set]
  by_cases hname : name = key
  · simp [hname]
  · simp [hname]

theorem attrValue_plain (name : String) : attrValue plain name = none := rfl

/-- A matcher keeps the agents with one value exactly when it asks for that value
of that attribute, or for a regular expression that nothing else matches. -/
theorem exact_iff (m : AttrMatcher) (key value : String) :
    (∀ a, matchAttr a m = true ↔ attrValue a key = some value) ↔
      m.key = key ∧ (m.op = .equal ∧ m.value = value ∨
        m.op = .regex ∧ ∃ re, m.re = some re ∧
          ∀ u : String, matchString re u.toList = true ↔ u = value) := by
  obtain ⟨name, op, wanted, re⟩ := m
  constructor
  · intro h
    -- An agent without attributes is not kept, so the operator is a positive one.
    have hplain := h plain
    simp only [attrValue_plain, reduceCtorEq, iff_false] at hplain
    have hhere := (h (holding key value)).mpr (by simp [attrValue_holding])
    have hname : name = key := by
      by_contra hne
      cases op <;> simp [matchAttr, attrValue_holding, hne] at hhere <;>
        exact hplain (by simp [matchAttr, attrValue_plain])
    refine ⟨hname, ?_⟩
    subst hname
    cases op with
    | equal =>
      have hvalue : value = wanted := by simpa [matchAttr, attrValue_holding] using hhere
      exact Or.inl ⟨rfl, hvalue.symm⟩
    | notEqual => exact absurd (by simp [matchAttr, attrValue_plain]) hplain
    | notRegex => exact absurd (by simp [matchAttr, attrValue_plain]) hplain
    | regex =>
      cases re with
      | none => simp [matchAttr, attrValue_holding] at hhere
      | some re =>
        refine Or.inr ⟨rfl, re, rfl, fun u => ?_⟩
        have hu := h (holding name u)
        simpa [matchAttr, attrValue_holding] using hu
  · rintro ⟨rfl, ⟨rfl, rfl⟩ | ⟨rfl, re, rfl, hre⟩⟩ a
    · simp [matchAttr]
    · cases hgot : attrValue a name with
      | none => simp [matchAttr, hgot]
      | some got => simp [matchAttr, hgot, hre]

/-! ### Reading the text back -/

/-- A key that no operator is read in, on one line and without space around it. -/
structure PlainKey (key : List Char) : Prop where
  ne_nil : key ≠ []
  bare : Bare isSpace key
  line : '\n' ∉ key
  equals : '=' ∉ key.tail
  mark : ¬ ['!', '~'] <:+: key.tail

theorem plainKey_service : PlainKey "service.name".toList := by
  have hbare : Bare isSpace "service.name".toList :=
    (trimSpace_eq_self_iff _).mp (by decide +kernel)
  refine ⟨?_, hbare, ?_, ?_, ?_⟩
  all_goals decide +kernel

theorem unquoteMatcherValue_eq_self_iff {w : List Char} (hbare : Bare isSpace w) :
    unquoteMatcherValue w = w ↔ Unpaired w := by
  have htrim : trim isSpace w = w := trim_eq_self hbare
  constructor
  · intro h q t hq hw
    have hquotes := unquoteMatcherValue_of_quotes hq (htrim.trans hw)
    rw [h, hw] at hquotes
    have hlength := congrArg List.length hquotes
    simp only [List.length_cons, List.length_append, List.length_nil] at hlength
    omega
  · intro h
    have hnone := unquoteMatcherValue_of_no_quotes (s := w) (by rwa [htrim])
    rw [hnone, htrim]

/-- A key that reads as `key` once trimmed has space after it only. -/
theorem exists_of_trim_eq {key key' rest rest' : List Char} (htext : key ++ rest = key' ++ rest')
    (htrim : trim isSpace key' = key) (hne : key ≠ []) :
    ∃ b, key' = key ++ b ∧ rest = b ++ rest' ∧ ∀ x ∈ b, isSpace x = true := by
  obtain ⟨a, b, hkey', ha, hb⟩ := exists_trim isSpace key'
  rw [htrim] at hkey'
  have hbare : Bare isSpace key := htrim ▸ bare_trim isSpace key'
  have hnil : a = [] := by
    cases a with
    | nil => rfl
    | cons x a =>
      have hhead : key.head? = some x := by
        rw [← List.head?_append_of_ne_nil key hne, htext, hkey']
        rfl
      have hx := ha x List.mem_cons_self
      rw [hbare.head x hhead] at hx
      cases hx
  rw [hnil, List.nil_append] at hkey'
  rw [hkey', List.append_assoc] at htext
  exact ⟨b, hkey', List.append_cancel_left htext, hb⟩

theorem eq_of_trim_eq {key key' rest rest' : List Char} {c : Char} (hc : isSpace c = false)
    (htext : key ++ c :: rest = key' ++ rest') (htrim : trim isSpace key' = key)
    (hne : key ≠ []) : key' = key := by
  obtain ⟨b, rfl, hrest, hb⟩ := exists_of_trim_eq htext htrim hne
  cases b with
  | nil => exact List.append_nil key
  | cons x b =>
    have hx := hb x List.mem_cons_self
    rw [← (List.cons.inj hrest).1, hc] at hx
    cases hx

/-- What is read after the sign when nothing is read before it. -/
theorem valueRead_equals {w value : List Char} {op : Op} (hw : Bare isSpace w)
    (h : ValueRead ('=' :: w) op value) :
    op = .equal ∧ value = w ∧ w.head? ≠ some '~' ∧ '\n' ∉ w ∨
      op = .regex ∧ ∃ w', w = '~' :: w' ∧ value = w'.dropWhile CharSet.space.mem ∧
        '\n' ∉ value := by
  obtain ⟨gap, gap', htext, hgap, hgap', hhead, hequal, hline⟩ := h
  have hnil : gap = [] := by
    cases gap with
    | nil => rfl
    | cons x gap =>
      rw [List.cons_append, List.cons.injEq] at htext
      have hx := hgap x List.mem_cons_self
      rw [← htext.1] at hx
      exact absurd hx (by decide)
  rw [hnil, List.nil_append] at htext
  cases op with
  | equal =>
    obtain rfl : w = gap' ++ value := (List.cons.inj htext).2
    have hnil' : gap' = [] := by
      cases gap' with
      | nil => rfl
      | cons x gap' =>
        have hx := isSpace_of_mem (hgap' x List.mem_cons_self)
        rw [hw.head x rfl] at hx
        cases hx
    subst hnil'
    exact Or.inl ⟨rfl, rfl, hequal rfl, hline⟩
  | regex =>
    refine Or.inr ⟨rfl, gap' ++ value, (List.cons.inj htext).2, ?_, hline⟩
    rw [dropWhile_append_of_all hgap', dropWhile_eq_self_of_head hhead]
  | notEqual => exact absurd (List.cons.inj htext).1 (by decide)
  | notRegex => exact absurd (List.cons.inj htext).1 (by decide)

/-- The parameter is written as it will be read. -/
structure ExactForm (key w : List Char) : Prop extends PlainKey key where
  end_mark : key.tail.getLast? ≠ some '!'
  value_line : '\n' ∉ w
  tilde : w.head? ≠ some '~'
  unpaired : Unpaired w

/-- A value that starts with a tilde is read as a regular expression; it may still
be one that only the value itself matches. -/
structure TildeForm (rt : Runtime) (key w : List Char) : Prop where
  ne_nil : key ≠ []
  bare : Bare isSpace key
  line : '\n' ∉ key
  first : ∀ key' op value, Reading (key ++ '=' :: w) key' op value → key.length ≤ key'.length
  pattern : ∃ w' re, w = '~' :: w' ∧ '\n' ∉ w'.dropWhile CharSet.space.mem ∧
    compileMatcherRE rt (unquoteMatcherValue w') = .ok re ∧
    ∀ u : String, matchString re u.toList = true ↔ u.toList = w

theorem written_of_exactForm {s : String} {key w : List Char} (hs : s.toList = key ++ '=' :: w)
    (hw : Bare isSpace w) (h : ExactForm key w) : written s = some (key, .equal, w) := by
  have hread := written_of_foremost key [] .equal w hs h.ne_nil h.bare h.line
    (by simp) (fun t => foremost_of_plain (not_space_of_getLast?_tail h.bare) h.equals h.mark
      fun hlast => absurd hlast h.end_mark) (fun _ => h.tilde) h.value_line
  rwa [(unquoteMatcherValue_eq_self_iff hw).mpr h.unpaired] at hread

theorem written_of_tildeForm {rt : Runtime} {s : String} {key w w' : List Char}
    (hs : s.toList = key ++ '=' :: w) (hw : Bare isSpace w) (h : TildeForm rt key w)
    (hw' : w = '~' :: w') (hline : '\n' ∉ w'.dropWhile CharSet.space.mem) :
    written s = some (key, .regex, unquoteMatcherValue w') := by
  have hbare : Bare isSpace (key ++ '=' :: w) :=
    h.bare.append h.ne_nil ['='] hw (by simp [hw'])
  have hread : ValueRead ('=' :: w) .regex (w'.dropWhile CharSet.space.mem) := by
    refine ⟨[], w'.takeWhile CharSet.space.mem, ?_, by simp, fun x hx => List.mem_takeWhile_imp hx,
      head_dropWhile, by simp, hline⟩
    rw [List.takeWhile_append_dropWhile, hw']
    rfl
  have hfirst : FirstReading (key ++ '=' :: w) key .regex (w'.dropWhile CharSet.space.mem) :=
    ⟨⟨h.ne_nil, h.line, '=' :: w, rfl, hread⟩, h.first⟩
  unfold written
  rw [hs, trim_eq_self hbare, split_eq_some_iff_reading.mpr hfirst, Option.map_some,
    trim_eq_self h.bare, unquoteMatcherValue_congr (trim_dropWhile (fun x => isSpace_of_mem) w')]

/-- A key that a one-line text is split at is plain, and does not lend the operator
its last character. -/
theorem plainKey_of_split {key rest value : List Char} {op : Op}
    (h : split (key ++ rest) = some (key, op, value)) (hbare : Bare isSpace key)
    (hrest : '\n' ∉ rest) : PlainKey key ∧
      (key.tail.getLast? = some '!' → rest.head? ≠ some '=' ∧ rest.head? ≠ some '~') := by
  obtain ⟨c, mid, rest', rfl, htext, hline, hfirst, -⟩ := split_eq_some_iff.mp h
  obtain rfl : rest = rest' := List.append_cancel_left htext
  obtain ⟨hequals, hmark, hend⟩ :=
    plain_of_foremost (fun hmem => hline (List.mem_cons_of_mem c hmem)) hrest hfirst
  exact ⟨⟨List.cons_ne_nil c mid, hbare, hline, hequals, hmark⟩, hend⟩

/-- A reading under the key itself has one of the two forms. -/
theorem forms_of_written {s : String} {key w value : List Char} {op : Op}
    (hs : s.toList = key ++ '=' :: w) (hw : Bare isSpace w) (hwne : w ≠ [])
    (h : written s = some (key, op, value)) :
    op = .equal ∧ value = unquoteMatcherValue w ∧ (Unpaired w → ExactForm key w) ∨
      op = .regex ∧ ∃ w', w = '~' :: w' ∧ value = unquoteMatcherValue w' ∧
        '\n' ∉ w'.dropWhile CharSet.space.mem ∧ key ≠ [] ∧ Bare isSpace key ∧ '\n' ∉ key ∧
        ∀ key' op' value', Reading (key ++ '=' :: w) key' op' value' →
          key.length ≤ key'.length := by
  obtain ⟨⟨key₀, op₀, value₀⟩, hsplit, hfound⟩ := Option.map_eq_some_iff.mp h
  obtain ⟨hkey, rfl, rfl⟩ := Prod.mk.inj hfound |>.imp id Prod.mk.inj
  have hne : key ≠ [] := hkey ▸ trim_key_ne_nil hsplit
  have hbare : Bare isSpace key := hkey ▸ bare_trim isSpace key₀
  have hpair : Bare isSpace (key ++ '=' :: w) := hbare.append hne ['='] hw hwne
  rw [hs, trim_eq_self hpair] at hsplit
  obtain ⟨⟨-, hline, rest, htext, hread⟩, hshortest⟩ := split_eq_some_iff_reading.mp hsplit
  obtain rfl : key₀ = key := eq_of_trim_eq (by decide) htext hkey hne
  obtain rfl : '=' :: w = rest := List.append_cancel_left htext
  rcases valueRead_equals hw hread with
    ⟨rfl, rfl, htilde, hwline⟩ | ⟨rfl, w', hw', rfl, hwline⟩
  · have hrest : '\n' ∉ '=' :: value₀ := fun hmem => (List.mem_cons.mp hmem).elim (by decide) hwline
    obtain ⟨hplain, hend⟩ := plainKey_of_split hsplit hbare hrest
    exact Or.inl ⟨rfl, rfl, fun hunpaired =>
      ⟨hplain, fun hlast => (hend hlast).1 rfl, hwline, htilde, hunpaired⟩⟩
  · refine Or.inr ⟨rfl, w', hw', ?_, hwline, hne, hbare, hline, hshortest⟩
    exact unquoteMatcherValue_congr (trim_dropWhile (fun x => isSpace_of_mem) w')

/-! ### Exact matches -/

/-- The parameter is accepted as one matcher, which keeps the agents whose
attribute of that name is the trimmed value. -/
def IsExact (rt : Runtime) (key value : String) : Prop :=
  ∃ m, parseFilters rt (.single key value) [key] = .ok ⟨[m], ∅⟩ ∧
    ∀ a, matchAttr a m = true ↔ attrValue a key = some (trimSpace value)

theorem isExact_iff_parse {rt : Runtime} {key value : String} (hreserved : key ∉ reservedParams)
    (hfield : BoolField.ofName key = none) (hblank : trimSpace value ≠ "") :
    IsExact rt key value ↔ ∃ m, parseMatcher rt (key ++ "=" ++ trimSpace value) = .ok m ∧
      ∀ a, matchAttr a m = true ↔ attrValue a key = some (trimSpace value) := by
  unfold IsExact
  rw [parseFilters_single hreserved hfield hblank]
  cases parseMatcher rt (key ++ "=" ++ trimSpace value) with
  | error e => simp [Except.map]
  | ok m => simp [Except.map]

/-- A bare parameter asks for the exact value when it is written as it will be
read, or when its value is a tilde with a regular expression after it that nothing
but the value matches. -/
theorem bare_param_exact_iff (rt : Runtime) (key value : String) (hreserved : key ∉ reservedParams)
    (hfield : BoolField.ofName key = none) (hblank : trimSpace value ≠ "") :
    IsExact rt key value ↔ ExactForm key.toList (trimSpace value).toList ∨
      TildeForm rt key.toList (trimSpace value).toList := by
  have hs : (key ++ "=" ++ trimSpace value).toList =
      key.toList ++ '=' :: (trimSpace value).toList := by simp
  have hw : Bare isSpace (trimSpace value).toList := by
    rw [toList_trimSpace]
    exact bare_trim isSpace value.toList
  have hwne : (trimSpace value).toList ≠ [] := fun hnil => hblank (String.toList_inj.mp hnil)
  rw [isExact_iff_parse hreserved hfield hblank]
  simp only [exact_iff]
  generalize trimSpace value = w at hs hw hwne
  constructor
  · rintro ⟨m, hparse, rfl, hm⟩
    obtain ⟨hwritten, hcompiled⟩ := parseMatcher_ok_iff.mp hparse
    rcases forms_of_written hs hw hwne hwritten with
      ⟨hop, hvalue, hform⟩ | ⟨hop, w', hw', hvalue, hline, hne, hbare, hkey, hfirst⟩
    · rcases hm with ⟨-, rfl⟩ | ⟨hop', -⟩
      · exact Or.inl (hform ((unquoteMatcherValue_eq_self_iff hw).mp hvalue.symm))
      · rw [hop] at hop'
        cases hop'
    · rcases hm with ⟨hop', -⟩ | ⟨-, re, hre, hexact⟩
      · rw [hop] at hop'
        cases hop'
      · unfold Compiled at hcompiled
        rw [hop, hvalue] at hcompiled
        obtain ⟨re', hcompile, hre'⟩ := hcompiled
        obtain rfl : re = re' := Option.some.inj (hre.symm.trans hre')
        refine Or.inr ⟨hne, hbare, hkey, hfirst, w', re, hw', hline, hcompile, fun u => ?_⟩
        rw [hexact, String.toList_inj]
  · rintro (hexact | htilde)
    · refine ⟨⟨key, .equal, w, none⟩, parseMatcher_ok_iff.mpr ⟨?_, rfl⟩, rfl, Or.inl ⟨rfl, rfl⟩⟩
      exact written_of_exactForm hs hw hexact
    · obtain ⟨w', re, hw', hline, hcompile, hre⟩ := htilde.pattern
      refine ⟨⟨key, .regex, .ofList (unquoteMatcherValue w'), some re⟩,
        parseMatcher_ok_iff.mpr ⟨?_, ?_⟩, rfl, Or.inr ⟨rfl, re, rfl, fun u => ?_⟩⟩
      · rw [String.toList_ofList]
        exact written_of_tildeForm hs hw htilde hw' hline
      · exact ⟨re, by rwa [String.toList_ofList], rfl⟩
      · rw [hre, String.toList_inj]

theorem bare_param_exact_service : IsExact .core "service.name" " checkout" := by
  refine (bare_param_exact_iff .core "service.name" " checkout" (by decide) (by decide)
    (by decide +kernel)).mpr (Or.inl ?_)
  refine ⟨plainKey_service, by decide +kernel, by decide +kernel, by decide +kernel, ?_⟩
  have hvalue : (trimSpace " checkout").toList = "checkout".toList := by decide +kernel
  rintro q t (rfl | rfl) hw
  · exact absurd (List.cons.inj (hvalue.symm.trans hw)).1 (by decide)
  · exact absurd (List.cons.inj (hvalue.symm.trans hw)).1 (by decide)

/-- A value that starts with a tilde is taken for a regular expression. -/
theorem tilde_value_not_exact :
    ∃ m, parseFilters .core (.single "a" "~b") ["a"] = .ok ⟨[m], ∅⟩ ∧
      matchAttr (holding "a" "b") m = true ∧ matchAttr (holding "a" "~b") m = false := by
  have htrim : trimSpace "~b" = "~b" := by decide +kernel
  have hparse : parseMatcher .core ("a" ++ "=" ++ "~b") =
      .ok ⟨"a", .regex, "b", RegexSyntax.parse "^(?:b)$".toList⟩ :=
    parseMatcher_ok_iff.mpr ⟨by decide +kernel, _, rfl, rfl⟩
  refine ⟨⟨"a", .regex, "b", RegexSyntax.parse "^(?:b)$".toList⟩, ?_, ?_, ?_⟩
  · rw [parseFilters_single (by decide) (by decide) (by decide +kernel), htrim, hparse]
    rfl
  · decide +kernel
  · decide +kernel

end Grex.BareParams
