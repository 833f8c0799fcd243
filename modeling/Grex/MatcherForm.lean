import Grex.MatcherText

/-!
How the page writes a matcher. A regular expression with space in it is put in
quotes and escaped, while the server takes the quotes off and leaves the rest as
it is, so what is escaped is not read back.
-/

namespace Grex.Matchers

open GoText Regex AgentState

/-- White space to the script of the page. -/
def isScriptSpace (c : Char) : Bool := CharSet.scriptSpace.mem c

/-- A backslash before every `q`. -/
def escapeChar (q : Char) (v : List Char) : List Char :=
  v.flatMap fun c => if c = q then ['\\', c] else [c]

/-- Backslashes first, then double quotes. -/
def escapeQuoted (v : List Char) : List Char := escapeChar '"' (escapeChar '\\' v)

/-- A character that puts a regular expression in quotes. -/
def isScriptMark (c : Char) : Bool := isScriptSpace c || c == '#'

def formatValue (op : Op) (v : List Char) : List Char :=
  if op.isRegex ∧ v ≠ [] ∧ ¬ (v.head? = some '\'' ∨ v.head? = some '"') ∧ v.any isScriptMark then
    '"' :: (escapeQuoted v ++ ['"'])
  else v

def formatMatcher (key : String) (op : Op) (value : String) : String :=
  key ++ " " ++ .ofList op.text ++ " " ++ .ofList (formatValue op value.toList)

@[simp] theorem toList_formatMatcher (key : String) (op : Op) (value : String) :
    (formatMatcher key op value).toList =
      key.toList ++ ([' '] ++ (op.text ++ (' ' :: formatValue op value.toList))) := by
  simp [formatMatcher]

theorem length_escapeChar (q : Char) (v : List Char) :
    (escapeChar q v).length = v.length + v.count q := by
  induction v with
  | nil => rfl
  | cons c v ih =>
    unfold escapeChar at ih ⊢
    rw [List.flatMap_cons, List.length_append, ih, List.length_cons]
    by_cases hc : c = q
    · rw [if_pos hc, hc, List.count_cons_self]
      simp only [List.length_cons, List.length_nil]
      omega
    · rw [if_neg hc, List.count_cons_of_ne hc]
      simp only [List.length_cons, List.length_nil]
      omega

theorem escapeChar_of_not_mem {q : Char} {v : List Char} (h : q ∉ v) : escapeChar q v = v := by
  induction v with
  | nil => rfl
  | cons c v ih =>
    obtain ⟨hne, hrest⟩ := not_or.mp (mt List.mem_cons.mpr h)
    unfold escapeChar at ih ⊢
    rw [List.flatMap_cons, if_neg (Ne.symm hne), ih hrest]
    rfl

theorem escapeQuoted_eq_self_iff {v : List Char} :
    escapeQuoted v = v ↔ '\\' ∉ v ∧ '"' ∉ v := by
  unfold escapeQuoted
  constructor
  · intro h
    have hlength := congrArg List.length h
    rw [length_escapeChar, length_escapeChar] at hlength
    have hslash : '\\' ∉ v := List.count_eq_zero.mp (by omega)
    refine ⟨hslash, List.count_eq_zero.mp ?_⟩
    rw [escapeChar_of_not_mem hslash] at hlength
    omega
  · rintro ⟨hslash, hquote⟩
    rw [escapeChar_of_not_mem hslash, escapeChar_of_not_mem hquote]

theorem mem_escapeChar {q c : Char} {v : List Char} (h : c ∈ escapeChar q v) :
    c = '\\' ∨ c ∈ v := by
  obtain ⟨d, hd, hc⟩ := List.mem_flatMap.mp h
  split at hc
  · rcases List.mem_cons.mp hc with rfl | hc
    · exact Or.inl rfl
    · exact Or.inr (List.mem_singleton.mp hc ▸ hd)
  · exact Or.inr (List.mem_singleton.mp hc ▸ hd)

/-- Formatting adds no line break. -/
theorem newline_not_mem_formatValue {op : Op} {v : List Char} (h : '\n' ∉ v) :
    '\n' ∉ formatValue op v := by
  unfold formatValue
  split
  next =>
    intro hmem
    simp only [List.mem_cons, List.mem_append, List.not_mem_nil, or_false] at hmem
    rcases hmem with hq | hmem | hq
    · exact absurd hq (by decide)
    · rcases mem_escapeChar hmem with hs | hmem
      · exact absurd hs (by decide)
      · rcases mem_escapeChar hmem with hs | hmem
        · exact absurd hs (by decide)
        · exact h hmem
    · exact absurd hq (by decide)
  next => exact h

theorem trim_cons_blank (l : List Char) : trim isSpace (' ' :: l) = trim isSpace l := by
  have hpad := trim_pad (p := isSpace) (a := [' ']) (b := [])
    (List.forall_mem_singleton.mpr rfl) l (by simp)
  rwa [List.append_nil] at hpad

/-- The value the server takes from a formatted regular expression. -/
theorem unquote_formatValue {op : Op} {v : List Char} (hop : op.isRegex = true) (hne : v ≠ [])
    (hbare : Bare isSpace v) (hquote : v.head? ≠ some '\'' ∧ v.head? ≠ some '"') :
    unquoteMatcherValue (' ' :: formatValue op v) =
      if v.any isScriptMark then escapeQuoted v else v := by
  rw [unquoteMatcherValue_congr (trim_cons_blank _)]
  unfold formatValue
  cases hmark : v.any isScriptMark with
  | true =>
    have hquoted : trim isSpace ('"' :: (escapeQuoted v ++ ['"'])) =
        '"' :: (escapeQuoted v ++ ['"']) := by
      apply trim_eq_self
      constructor
      · intro x hx
        obtain rfl : '"' = x := Option.some.inj hx
        decide
      · intro x hx
        rw [← List.cons_append, List.getLast?_concat] at hx
        obtain rfl : '"' = x := Option.some.inj hx
        decide
    rw [if_pos ⟨hop, hne, fun h => h.elim hquote.1 hquote.2, rfl⟩, if_pos rfl]
    exact unquoteMatcherValue_of_quotes (Or.inl rfl) hquoted
  | false =>
    rw [if_neg (by simp), if_neg Bool.false_ne_true]
    refine (unquoteMatcherValue_of_no_quotes ?_).trans (trim_eq_self hbare)
    rw [trim_eq_self hbare]
    rintro q t (rfl | rfl) rfl
    · exact hquote.2 rfl
    · exact hquote.1 rfl

/-- A formatted regular expression is read back exactly when it needed no quotes,
or when there was nothing to escape in it. -/
theorem parseMatcher_formatMatcher_iff (rt : Runtime) (k v : String) (op : Op) (hk : k ≠ "")
    (hktrim : trimSpace k = k) (hchars : ∀ c ∈ k.toList, c ≠ '=' ∧ c ≠ '!' ∧ c ≠ '\n')
    (hop : op = .regex ∨ op = .notRegex) (hv : v ≠ "") (hvtrim : trimSpace v = v)
    (hvline : '\n' ∉ v.toList)
    (hquote : v.toList.head? ≠ some '\'' ∧ v.toList.head? ≠ some '"')
    (hre : ∃ re, compileMatcherRE rt v.toList = .ok re) :
    (∃ m, parseMatcher rt (formatMatcher k op v) = .ok m ∧ m.key = k ∧ m.op = op ∧ m.value = v) ↔
      (∀ c ∈ v.toList, isScriptSpace c = false ∧ c ≠ '#') ∨
        (∀ c ∈ v.toList, c ≠ '\\' ∧ c ≠ '"') := by
  have hregex : op.isRegex = true := by rcases hop with rfl | rfl <;> rfl
  have hkne : k.toList ≠ [] := fun hnil => hk (String.toList_inj.mp hnil)
  have hvne : v.toList ≠ [] := fun hnil => hv (String.toList_inj.mp hnil)
  have hbare : Bare isSpace k.toList := (trimSpace_eq_self_iff k).mp hktrim
  have hvbare : Bare isSpace v.toList := (trimSpace_eq_self_iff v).mp hvtrim
  have hline : '\n' ∉ ' ' :: formatValue op v.toList := by
    intro hmem
    rcases List.mem_cons.mp hmem with hspace | hmem
    · exact absurd hspace (by decide)
    · exact newline_not_mem_formatValue hvline hmem
  have hwritten := written_of_foremost k.toList [' '] op _ (toList_formatMatcher k op v) hkne hbare
    (fun hmem => (hchars _ hmem).2.2 rfl) (List.forall_mem_singleton.mpr rfl)
    (fun t => foremost_of_no_operator hbare fun c hc => ⟨(hchars c hc).1, (hchars c hc).2.1⟩)
    (by simp) hline
  rw [unquote_formatValue hregex hvne hvbare hquote] at hwritten
  have hmark : (v.toList.any isScriptMark = true → escapeQuoted v.toList = v.toList) ↔
      (∀ c ∈ v.toList, isScriptSpace c = false ∧ c ≠ '#') ∨
        (∀ c ∈ v.toList, c ≠ '\\' ∧ c ≠ '"') := by
    rw [escapeQuoted_eq_self_iff, imp_iff_not_or, Bool.not_eq_true, List.any_eq_false]
    simp only [isScriptMark, Bool.or_eq_true, beq_iff_eq, not_or, Bool.not_eq_true, forall_and,
      ne_eq, List.forall_mem_ne']
  rw [← hmark]
  constructor
  · rintro ⟨m, hparse, hkey, rfl, hvalue⟩ hany
    have hread := (parseMatcher_ok_iff.mp hparse).1
    rw [hwritten, hvalue, if_pos hany] at hread
    exact (Prod.mk.inj (Prod.mk.inj (Option.some.inj hread)).2).2
  · intro h
    obtain ⟨re, hre⟩ := hre
    refine ⟨⟨k, op, v, some re⟩, parseMatcher_ok_iff.mpr ⟨?_, ?_⟩, rfl, rfl, rfl⟩
    · rw [hwritten]
      split
      next hany => rw [h hany]
      next => rfl
    · unfold Compiled
      rw [if_pos hregex]
      exact ⟨re, hre, rfl⟩

theorem parseMatcher_formatMatcher_spaced :
    ∃ m, parseMatcher .core (formatMatcher "service.name" .notRegex "check out.+") = .ok m ∧
      m.key = "service.name" ∧ m.op = .notRegex ∧ m.value = "check out.+" :=
  (parseMatcher_formatMatcher_iff .core "service.name" "check out.+" .notRegex (by decide)
    (by decide +kernel) (List.all_iff_forall_prop.mp (by decide +kernel)) (Or.inr rfl) (by decide)
    (by decide +kernel) (by decide +kernel) (by decide +kernel) ⟨_, rfl⟩).mpr
    (Or.inr (List.all_iff_forall_prop.mp (by decide +kernel)))

/-- The backslash of a character class is doubled on the way. -/
theorem escaped_pattern_not_recovered :
    (∃ re, compileMatcherRE .core "a\\d b".toList = .ok re) ∧
      ∃ m, parseMatcher .core (formatMatcher "host.name" .regex "a\\d b") = .ok m ∧
        m.value = "a\\\\d b" := by
  refine ⟨⟨_, rfl⟩, ⟨"host.name", .regex, "a\\\\d b",
    RegexSyntax.parse (anchoredPattern "a\\\\d b".toList)⟩, ?_, rfl⟩
  exact parseMatcher_ok_iff.mpr ⟨by decide +kernel, _, rfl, rfl⟩

end Grex.Matchers
