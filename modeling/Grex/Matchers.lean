import Grex.FleetStats
import Grex.GoText
import Grex.RegexSyntax

/-!
Attribute matchers: a key, one of four operators and a value, written as one
text. A regular expression splits the text, trying the shortest key first; what
it finds is described by a scan for the first operator that can be read with a
value after it.
-/

namespace Grex.Matchers

open GoText Regex AgentState

/-- What the matchers take from Go's standard library: `regexp.Compile`, and the
quoting of a text in a message. -/
structure Runtime where
  compile : String → Except String Node
  quote : String → String

/-- A runtime with the core of the pattern language; plain texts are quoted as
they are. -/
def Runtime.core : Runtime where
  compile s :=
    match RegexSyntax.parse s.toList with
    | some r => .ok r
    | none => .error "error parsing regexp"
  quote s := "\"" ++ s ++ "\""

inductive Op
  | equal
  | notEqual
  | regex
  | notRegex
  deriving DecidableEq

namespace Op

def text : Op → List Char
  | equal => ['=']
  | notEqual => ['!', '=']
  | regex => ['=', '~']
  | notRegex => ['!', '~']

def ofText (t : List Char) : Option Op :=
  [equal, notEqual, regex, notRegex].find? fun op => op.text = t

@[simp] theorem ofText_text (op : Op) : ofText op.text = some op := by
  cases op <;> rfl

end Op

structure AttrMatcher where
  key : String
  op : Op
  value : String
  /-- Compiled for the two regular expression operators. -/
  re : Option Node

/-- The tree of `matcherRE`. -/
def matcherRE : Node :=
  .cat (.look .beginText) (.cat (.group 1 (.cat (.chr .dot) (.star false (.chr .dot))))
    (.cat (.star true (.chr .space)) (.cat
      (.group 2 (.alt (.cat (.chr (.single '!')) (.chr (.single '~')))
        (.alt (.cat (.chr (.single '=')) (.chr (.single '~')))
          (.alt (.cat (.chr (.single '!')) (.chr (.single '='))) (.chr (.single '='))))))
      (.cat (.star true (.chr .space)) (.cat (.group 3 (.star true (.chr .dot)))
        (.look .endText))))))

theorem parse_matcherRE :
    RegexSyntax.parse "^(.+?)\\s*(!~|=~|!=|=)\\s*(.*)$".toList = some matcherRE := by
  decide +kernel

/-- The key, the operator and the value that `matcherRE` finds. -/
def findSubmatch (s : List Char) : Option (List Char × Op × List Char) :=
  (find matcherRE s).bind fun m =>
    (Op.ofText (m.group 2)).map fun op => (m.group 1, op, m.group 3)

/-- Strip one pair of quotes around the trimmed text. -/
def unquoteMatcherValue (s : List Char) : List Char :=
  let s := trim isSpace s
  if s.length < 2 then s
  else if (s.head? = some '"' ∧ s.getLast? = some '"') ∨
      (s.head? = some '\'' ∧ s.getLast? = some '\'') then (s.drop 1).dropLast
  else s

def hasStart (pattern : List Char) : Bool :=
  ['^'].isPrefixOf pattern || ['\\', 'A'].isPrefixOf pattern

def hasEnd (pattern : List Char) : Bool :=
  ['$'].isSuffixOf pattern || ['\\', 'z'].isSuffixOf pattern

/-- The text that is compiled for a pattern. -/
def anchoredPattern (pattern : List Char) : List Char :=
  if pattern = [] then ['^', '$']
  else if hasStart pattern && hasEnd pattern then pattern
  else if !hasStart pattern && !hasEnd pattern then
    ['^', '(', '?', ':'] ++ (pattern ++ [')', '$'])
  else if !hasStart pattern then ['^', '(', '?', ':'] ++ (pattern ++ [')'])
  else ['(', '?', ':'] ++ (pattern ++ [')', '$'])

def compileMatcherRE (rt : Runtime) (pattern : List Char) : Except String Node :=
  rt.compile (.ofList (anchoredPattern pattern))

def parseMatcher (rt : Runtime) (s : String) : Except String AttrMatcher :=
  let s := trimSpace s
  if s = "" then .error "empty matcher"
  else
    match findSubmatch s.toList with
    | none => .error ("invalid matcher " ++ rt.quote s ++
        ": want key=value, key!=value, key=~regex, or key!~regex")
    | some (key, op, value) =>
        let key := trim isSpace key
        let value := unquoteMatcherValue value
        if key = [] then .error "matcher missing attribute key"
        else if op = .regex ∨ op = .notRegex then
          match compileMatcherRE rt value with
          | .error e => .error ("invalid regex in matcher " ++ rt.quote s ++ ": " ++ e)
          | .ok re => .ok ⟨.ofList key, op, .ofList value, some re⟩
        else .ok ⟨.ofList key, op, .ofList value, none⟩

theorem parseMatcher_trimSpace (rt : Runtime) (s : String) :
    parseMatcher rt (trimSpace s) = parseMatcher rt s := by
  unfold parseMatcher
  rw [trimSpace_trimSpace]

/-- An identifying attribute first, then a non-identifying one. -/
def attrValue (a : Agent) (key : String) : Option String :=
  match a.identifying.find key with
  | some v => some v
  | none => a.nonIdentifying.find key

/-- An absent attribute satisfies the two negative operators. -/
def matchAttr (a : Agent) (m : AttrMatcher) : Bool :=
  match m.op with
  | .equal => attrValue a m.key == some m.value
  | .notEqual => attrValue a m.key != some m.value
  | .regex =>
      match attrValue a m.key, m.re with
      | some got, some re => matchString re got.toList
      | _, _ => false
  | .notRegex =>
      match attrValue a m.key, m.re with
      | some got, some re => !matchString re got.toList
      | _, _ => true

/-! ### The split -/

/-- The first operator, the longer ones first, and what follows it. -/
def opAt : List Char → Option (Op × List Char)
  | '!' :: '~' :: rest => some (.notRegex, rest)
  | '=' :: '~' :: rest => some (.regex, rest)
  | '!' :: '=' :: rest => some (.notEqual, rest)
  | '=' :: rest => some (.equal, rest)
  | _ => none

/-- An equals sign with a tilde after it is another operator. -/
theorem opAt_eq_some_iff {rest tail : List Char} {op : Op} :
    opAt rest = some (op, tail) ↔
      rest = op.text ++ tail ∧ (op = .equal → tail.head? ≠ some '~') := by
  constructor
  · fun_cases opAt rest with
    | case1 rest =>
      rintro ⟨⟩
      exact ⟨rfl, by simp⟩
    | case2 rest =>
      rintro ⟨⟩
      exact ⟨rfl, by simp⟩
    | case3 rest =>
      rintro ⟨⟩
      exact ⟨rfl, by simp⟩
    | case4 rest hlonger =>
      rintro ⟨⟩
      refine ⟨rfl, fun _ hhead => ?_⟩
      cases tail with
      | nil => cases hhead
      | cons c tail =>
        cases hhead
        exact hlonger tail rfl
    | case5 => rintro ⟨⟩
  · rintro ⟨rfl, hequal⟩
    cases op with
    | equal =>
      cases tail with
      | nil => rfl
      | cons c tail =>
        have hc : c ≠ '~' := fun hc => hequal rfl (congrArg some hc)
        simp [opAt, Op.text, hc]
    | notEqual => rfl
    | regex => rfl
    | notRegex => rfl

theorem Op.head_text (op : Op) : ∃ c t, op.text = c :: t ∧ (c = '=' ∨ c = '!') := by
  cases op with
  | equal => exact ⟨_, _, rfl, Or.inl rfl⟩
  | notEqual => exact ⟨_, _, rfl, Or.inr rfl⟩
  | regex => exact ⟨_, _, rfl, Or.inl rfl⟩
  | notRegex => exact ⟨_, _, rfl, Or.inr rfl⟩

/-- Every operator starts with an equals sign or an exclamation mark. -/
theorem opAt_cons_of_ne {c : Char} {rest : List Char} (hequals : c ≠ '=') (hmark : c ≠ '!') :
    opAt (c :: rest) = none := by
  by_contra hsome
  obtain ⟨⟨op, tail⟩, hop⟩ := Option.ne_none_iff_exists'.mp hsome
  obtain ⟨d, t, htext, hd⟩ := op.head_text
  have happend := (opAt_eq_some_iff.mp hop).1
  rw [htext, List.cons_append, List.cons.injEq] at happend
  rcases hd with rfl | rfl
  · exact hequals happend.1
  · exact hmark happend.1

def valueOf (rest : List Char) : Option (List Char) :=
  if '\n' ∈ rest.dropWhile CharSet.space.mem then none
  else some (rest.dropWhile CharSet.space.mem)

/-- An operator with a value, after optional space. -/
def valueAfter (rest : List Char) : Option (Op × List Char) :=
  (opAt (rest.dropWhile CharSet.space.mem)).bind fun found =>
    (valueOf found.2).map fun value => (found.1, value)

/-- Lengthen the key until an operator with a value follows it. -/
def splitFrom (key : List Char) : List Char → Option (List Char × Op × List Char)
  | [] => none
  | c :: rest =>
      match valueAfter (c :: rest) with
      | some found => some (key, found)
      | none => if c = '\n' then none else splitFrom (key ++ [c]) rest

def split : List Char → Option (List Char × Op × List Char)
  | [] => none
  | c :: rest => if c = '\n' then none else splitFrom [c] rest

/-- The value group: the rest of the text, if it is one line. -/
def valueTree : Node := .cat (.group 3 (.star true (.chr .dot))) (.look .endText)

/-- The operator group, the longer operators first. -/
def opTree : Node :=
  .group 2 (.alt (literal Op.notRegex.text) (.alt (literal Op.regex.text)
    (.alt (literal Op.notEqual.text) (literal Op.equal.text))))

/-- Space, then what the tree reads. -/
def afterSpace (r : Node) : Node := .cat (.star true (.chr .space)) r

theorem outcomes_afterSpace (r : Node) (s : State) :
    outcomes (afterSpace r) s = (outcomes (.star true (.chr .space)) s).flatMap (outcomes r) := rfl

theorem matcherRE_eq : matcherRE = .cat (.look .beginText)
    (.cat (.group 1 (.cat (.chr .dot) (.star false (.chr .dot))))
      (afterSpace (.cat opTree (afterSpace valueTree)))) := rfl

theorem dot_run {s : State} (f : State → State) (hf : ∀ t, (f t).toCursor = t.toCursor) :
    ((outcomes (.star true (.chr .dot)) s).flatMap fun t => outcomes (.look .endText) (f t)) =
      if '\n' ∈ s.rest then [] else [f ⟨⟨s.rest.reverse ++ s.before, []⟩, s.groups⟩] := by
  obtain ⟨⟨before, rest⟩, groups⟩ := s
  have hend : ∀ t, outcomes (.look .endText) (f t) = if t.rest = [] then [f t] else [] := by
    intro t
    have hrest : (f t).rest = t.rest := congrArg Cursor.rest (hf t)
    simp [outcomes, Look.holds, hrest]
  simp only [hend]
  induction rest generalizing before with
  | nil => rfl
  | cons a rest ih =>
    by_cases hnewline : a = '\n'
    · subst hnewline
      rw [outcomes_star_of_not_mem (by intro b tail h; cases h; rfl)]
      simp
    · have hmem : CharSet.dot.mem a = true := by simp [hnewline]
      have hread := ih (a :: before)
      rw [outcomes_star_of_mem rfl hmem, if_pos rfl, List.flatMap_append]
      change ((outcomes _ (⟨⟨a :: before, rest⟩, groups⟩ : State)).flatMap _) ++ _ = _
      rw [hread]
      simp [Ne.symm hnewline]

theorem outcomes_valueTree (s : State) :
    outcomes valueTree s = if '\n' ∈ s.rest then []
      else [⟨⟨s.rest.reverse ++ s.before, []⟩, (3, s.rest) :: s.groups⟩] := by
  unfold valueTree
  rw [outcomes_cat, outcomes_group, List.flatMap_map]
  rw [dot_run (fun t => { t with groups := (3, s.rest.take (s.rest.length - t.rest.length)) ::
    t.groups }) (fun t => rfl)]
  simp

/-- Space before the value is never given back. -/
theorem head?_afterSpace_valueTree (s : State) :
    (outcomes (afterSpace valueTree) s).head?.map State.groups =
      (valueOf s.rest).map fun value => (3, value) :: s.groups := by
  have hlater : ∀ u a rest, u.rest = a :: rest → CharSet.space.mem a = true →
      outcomes valueTree u ≠ [] → outcomes valueTree (u.read a rest) ≠ [] := by
    intro u a rest hrest _ hsome
    rw [outcomes_valueTree, hrest] at hsome
    rw [outcomes_valueTree]
    by_cases hnewline : '\n' ∈ rest
    · simp [hnewline] at hsome
    · simp [State.read, hnewline]
  rw [outcomes_afterSpace, (head?_star_greedy hlater s).1, outcomes_valueTree]
  unfold valueOf
  by_cases hnewline : '\n' ∈ s.rest.dropWhile CharSet.space.mem
  · simp [State.skip, hnewline]
  · simp [State.skip, hnewline]

/-- The state after an operator, if it comes next. -/
def opState (s : State) (op : Op) : List State :=
  if op.text.isPrefixOf s.rest then
    [⟨(s.advance op.text.length).toCursor, (2, op.text) :: s.groups⟩]
  else []

theorem outcomes_opTree (s : State) :
    outcomes opTree s = opState s .notRegex ++ (opState s .regex ++
      (opState s .notEqual ++ opState s .equal)) := by
  have hop : ∀ op : Op, (outcomes (literal op.text) s).map (fun t =>
      { t with groups := (2, s.rest.take (s.rest.length - t.rest.length)) :: t.groups }) =
      opState s op := by
    intro op
    have hne : op.text ≠ [] := by cases op <;> exact List.cons_ne_nil _ _
    rw [outcomes_literal hne]
    unfold opState
    split
    next hstart =>
      obtain ⟨t, ht⟩ := List.isPrefixOf_iff_prefix.mp hstart
      simp [State.advance, ← ht]
    next => rfl
  unfold opTree
  rw [outcomes_group, outcomes_alt, outcomes_alt, outcomes_alt, List.map_append, List.map_append,
    List.map_append, hop, hop, hop, hop]

theorem head?_opState (s : State) (op : Op) :
    ((opState s op).flatMap (outcomes (afterSpace valueTree))).head?.map State.groups =
      if op.text.isPrefixOf s.rest then (valueOf (s.rest.drop op.text.length)).map fun value =>
        (3, value) :: (2, op.text) :: s.groups
      else none := by
  unfold opState
  split
  next =>
    rw [List.flatMap_singleton, head?_afterSpace_valueTree]
    rfl
  next => rfl

/-- A value that cannot follow the longer operator cannot follow the shorter one. -/
theorem valueOf_tilde {rest : List Char} (h : valueOf rest = none) : valueOf ('~' :: rest) = none := by
  unfold valueOf at h ⊢
  split at h
  next hmem =>
    apply if_pos
    have hrest : '\n' ∈ rest := (List.dropWhile_sublist _).subset hmem
    exact List.mem_cons_of_mem '~' hrest
  next => cases h

theorem head?_opTree (s : State) :
    (outcomes (.cat opTree (afterSpace valueTree)) s).head?.map State.groups =
      (opAt s.rest).bind fun found => (valueOf found.2).map fun value =>
        (3, value) :: (2, found.1.text) :: s.groups := by
  rw [outcomes_cat, outcomes_opTree]
  simp only [List.flatMap_append, List.head?_append, Option.map_or, head?_opState]
  generalize s.groups = groups
  generalize s.rest = rest
  fun_cases opAt rest with
  | case1 rest => simp [Op.text]
  | case2 rest =>
    cases hvalue : valueOf rest with
    | none => simp [Op.text, hvalue, valueOf_tilde hvalue]
    | some value => simp [Op.text, hvalue]
  | case3 rest => simp [Op.text]
  | case4 rest hlonger =>
    have hregex : ¬ ['~'] <+: rest := by
      rintro ⟨t, ht⟩
      exact hlonger t ht.symm
    simp [Op.text, hregex]
  | case5 rest hnotRegex hregex hnotEqual hequal =>
    have hnone : ∀ op : Op, ¬ op.text <+: rest := by
      rintro op ⟨t, ht⟩
      cases op with
      | equal => exact hequal t ht.symm
      | notEqual => exact hnotEqual t ht.symm
      | regex => exact hregex t ht.symm
      | notRegex => exact hnotRegex t ht.symm
    simp [hnone]

/-- Nor is the space before the operator, which no operator starts with. -/
theorem head?_afterSpace_opTree (s : State) :
    (outcomes (afterSpace (.cat opTree (afterSpace valueTree))) s).head?.map State.groups =
      (valueAfter s.rest).map fun found => (3, found.2) :: (2, found.1.text) :: s.groups := by
  have hlater : ∀ u a rest, u.rest = a :: rest → CharSet.space.mem a = true →
      outcomes (.cat opTree (afterSpace valueTree)) u ≠ [] →
      outcomes (.cat opTree (afterSpace valueTree)) (u.read a rest) ≠ [] := by
    intro u a rest hrest hspace hsome
    have hhead := head?_opTree u
    have hnone : opAt (a :: rest) = none := by
      apply opAt_cons_of_ne
      · rintro rfl
        exact absurd hspace (by decide)
      · rintro rfl
        exact absurd hspace (by decide)
    rw [hrest, hnone, Option.bind_none, Option.map_eq_none_iff, List.head?_eq_none_iff] at hhead
    exact absurd hhead hsome
  rw [outcomes_afterSpace, (head?_star_greedy hlater s).1, head?_opTree]
  unfold valueAfter
  simp only [Option.map_bind, State.skip, Function.comp_def, Option.map_map]

/-- The key grows one character at a time. -/
theorem head?_star_lazy (start : State) (key before : List Char) {rest : List Char}
    (hstart : start.rest = key ++ rest) :
    ((outcomes (.star false (.chr .dot)) ⟨⟨before, rest⟩, []⟩).flatMap fun t =>
      outcomes (afterSpace (.cat opTree (afterSpace valueTree)))
        { t with groups := (1, start.rest.take (start.rest.length - t.rest.length)) ::
          t.groups }).head?.map State.groups =
      (splitFrom key rest).map fun found =>
        [(3, found.2.2), (2, found.2.1.text), (1, found.1)] := by
  induction rest generalizing key before with
  | nil =>
    rw [outcomes_star_of_not_mem (by intro a tail h; cases h), List.flatMap_singleton,
      head?_afterSpace_opTree]
    rfl
  | cons c rest ih =>
    have hkey : start.rest.take (start.rest.length - (c :: rest).length) = key := by
      simp [hstart]
    have hhere := head?_afterSpace_opTree ⟨⟨before, c :: rest⟩, [(1, key)]⟩
    have hfound : ∀ found, valueAfter (c :: rest) = some found →
        splitFrom key (c :: rest) = some (key, found) := by
      intro found h
      rw [splitFrom, h]
    by_cases hnewline : c = '\n'
    · rw [outcomes_star_of_not_mem (by intro a tail h; cases h; simp [hnewline]),
        List.flatMap_singleton, hkey, hhere]
      cases hvalue : valueAfter (c :: rest) with
      | none => rw [splitFrom, hvalue, if_pos hnewline]; rfl
      | some found => rw [hfound found hvalue]; rfl
    · have hmem : CharSet.dot.mem c = true := by simp [hnewline]
      have hlater := ih (key ++ [c]) (c :: before) (by simp [hstart])
      rw [outcomes_star_of_mem rfl hmem, if_neg Bool.false_ne_true, List.flatMap_cons,
        List.head?_append, Option.map_or, hkey, hhere]
      refine (congrArg _ hlater).trans ?_
      cases hvalue : valueAfter (c :: rest) with
      | none => rw [splitFrom, hvalue, if_neg hnewline]; rfl
      | some found => rw [hfound found hvalue]; rfl

theorem find_matcherRE (s : List Char) :
    (find matcherRE s).map State.groups = (split s).map fun found =>
      [(3, found.2.2), (2, found.2.1.text), (1, found.1)] := by
  rw [matcherRE_eq, find_beginText, outcomes_cat, outcomes_group, List.flatMap_map, outcomes_cat]
  cases s with
  | nil => rfl
  | cons c rest =>
    rw [outcomes_chr rfl]
    by_cases hnewline : c = '\n'
    · simp [split, hnewline]
    · rw [if_pos (by simp [hnewline]), List.flatMap_singleton]
      rw [split, if_neg hnewline]
      exact head?_star_lazy ⟨.start (c :: rest), []⟩ [c] [c] rfl

theorem findSubmatch_eq_split (s : List Char) : findSubmatch s = split s := by
  have hgroups := find_matcherRE s
  unfold findSubmatch
  cases hfind : find matcherRE s with
  | none =>
    rw [hfind, Option.map_none, eq_comm, Option.map_eq_none_iff] at hgroups
    rw [hgroups]
    rfl
  | some m =>
    rw [hfind, Option.map_some, eq_comm, Option.map_eq_some_iff] at hgroups
    obtain ⟨found, hsplit, hm⟩ := hgroups
    rw [hsplit]
    simp [State.group, ← hm, List.lookup_cons]

end Grex.Matchers
