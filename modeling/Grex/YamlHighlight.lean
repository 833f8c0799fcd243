import Grex.Backtrack
import Grex.Markup
import Grex.Regex

/-!
The highlighter of an agent's effective configuration. It takes each line apart
by its indentation, list dash, key, value and trailing comment, and puts it
together again with a span around each part. Every part is escaped, so the
result is text and spans whatever the configuration is. The white space around
the colon of a key is not among the parts: the first pattern has read it before
the value starts, and a single space is written before every value.
-/

namespace Grex.YamlHighlight

open Lines Markup Backtrack

def newline : UInt16 := 0x0A

def space : UInt16 := unit ' '

def doubleQuote : UInt16 := 0x22

def singleQuote : UInt16 := 0x27

def backslash : UInt16 := 0x5C

inductive SpanClass
  | comment
  | punct
  | key
  | str
  | bool
  | null
  | num
  | anchor
  deriving DecidableEq

def SpanClass.name : SpanClass → Text
  | .comment => units "y-comment"
  | .punct => units "y-punct"
  | .key => units "y-key"
  | .str => units "y-str"
  | .bool => units "y-bool"
  | .null => units "y-null"
  | .num => units "y-num"
  | .anchor => units "y-anchor"

/-! ### Texts -/

/-- Another text in place of every unit of one kind. -/
def replaceAll (c : UInt16) (entity s : Text) : Text :=
  s.flatMap fun d => if d = c then entity else [d]

def escapeHtml (s : Text) : Text :=
  replaceAll (unit '>') (units "&gt;")
    (replaceAll (unit '<') (units "&lt;") (replaceAll (unit '&') (units "&amp;") s))

def indexOf (sub : Text) : Text → Option ℕ
  | [] => if sub.isEmpty then some 0 else none
  | c :: s => if sub.isPrefixOf (c :: s) then some 0 else (indexOf sub s).map (· + 1)

def includes (s sub : Text) : Bool := (indexOf sub s).isSome

def startsWith (s start : Text) : Bool := start.isPrefixOf s

def endsWith (s stop : Text) : Bool := stop.isSuffixOf s

/-! ### Classes and patterns -/

/-- `\s`: the white space and the line terminators. -/
def isSpace (c : UInt16) : Bool :=
  Regex.CharSet.scriptSpace.ranges.any fun r => decide (r.1.toNat ≤ c.toNat ∧ c.toNat ≤ r.2.toNat)

/-- `.`: all but the line terminators. -/
def isDot (c : UInt16) : Bool :=
  !decide (c = 0x0A ∨ c = 0x0D ∨ c = 0x2028 ∨ c = 0x2029)

/-- `\d` -/
def isDigit (c : UInt16) : Bool := decide (unit '0' ≤ c ∧ c ≤ unit '9')

def oneOf (s : Text) : Pattern UInt16 := .one fun c => decide (c ∈ s)

def noneOf (s : Text) : Pattern UInt16 := .one fun c => decide (c ∉ s)

def chr (c : UInt16) : Pattern UInt16 := oneOf [c]

/-- `^\s*#` -/
def commentStart : Pattern UInt16 := .seq (run isSpace) (chr (unit '#'))

/-- `^\s` -/
def spaceStart : Pattern UInt16 := .one isSpace

/-- A string in the given quotes, with escapes. -/
def quoted (quote : UInt16) : Pattern UInt16 :=
  .cat [chr quote,
    .star true (.alt (.seq (chr backslash) (.one isDot)) (noneOf [quote, backslash])),
    chr quote]

def keyPattern : Pattern UInt16 :=
  .choice [quoted doubleQuote, quoted singleQuote,
    .seq (.one fun c => decide (c ∉ units ":#") && !isSpace c) (.star false (noneOf (units ":#")))]

def boolPattern : Pattern UInt16 :=
  .seq (.choice (["true", "false", "True", "False", "TRUE", "FALSE", "yes", "no", "Yes", "No", "on",
    "off"].map fun s => .text (units s))) .stop

def nullPattern : Pattern UInt16 :=
  .seq (.choice (["null", "Null", "NULL", "~"].map fun s => .text (units s))) .stop

def numPattern : Pattern UInt16 :=
  .cat [.opt (chr (unit '-')),
    .alt (chr (unit '0'))
      (.seq (.one fun c => isDigit c && decide (c ≠ unit '0')) (run isDigit)),
    .opt (.seq (chr (unit '.')) (.plus (.one isDigit))),
    .opt (.cat [oneOf (units "eE"), .opt (oneOf (units "+-")), .plus (.one isDigit)]),
    .stop]

def flowPattern : Pattern UInt16 := .seq (.plus (oneOf (units "[]\x7b\x7d|,"))) .stop

/-! ### Values -/

/-- The text in a span, escaped. -/
def spanned (c : SpanClass) (s : Text) : Text := span c.name (escapeHtml s)

/-- The class of a value that is not blank. -/
def valueClass (body : Text) : SpanClass :=
  if startsWith body [doubleQuote] && endsWith body [doubleQuote] && decide (2 ≤ body.length) ||
      startsWith body [singleQuote] && endsWith body [singleQuote] && decide (2 ≤ body.length) then
    .str
  else if boolPattern.test body then .bool
  else if nullPattern.test body then .null
  else if numPattern.test body then .num
  else if flowPattern.test body then .punct
  else if startsWith body (units "&") || startsWith body (units "*") then .anchor
  else if body ∈ ["|", ">", "|-", ">-", "|+", ">+"].map units then .punct
  else .str

def highlightValue (value : Text) : Text :=
  if value.isEmpty then []
  else
    let lead := ((run isSpace).exec value).getD []
    let body := value.drop lead.length
    if body.isEmpty then escapeHtml value
    else escapeHtml lead ++ spanned (valueClass body) body

/-- The span of a trailing comment, if there is one. -/
def highlightComment (comment : Text) : Text :=
  if comment.isEmpty then [] else spanned .comment comment

/-- A value and the comment behind it. -/
def splitComment (value : Text) : Text × Text :=
  match indexOf (units " #") value with
  | some hash => (value.take hash, value.drop hash)
  | none => (value, [])

/-- As behind a key, where the value may be missing. -/
def splitKeyComment (value : Text) : Text × Text :=
  match indexOf (units " #") value with
  | some hash => (value.take hash, value.drop hash)
  | none => if commentStart.test value then ([], value) else (value, [])

/-! ### Lines -/

/-- A match of the key expression. Its three groups are `key`, `colon` and
`value`; `before` and `after` are the white space around the colon. -/
structure KeyMatch where
  key : Text
  before : Text
  colon : Text
  after : Text
  value : Text
  deriving DecidableEq

/-- All that the expression matched. -/
def KeyMatch.text (m : KeyMatch) : Text := m.key ++ m.before ++ m.colon ++ m.after ++ m.value

/-- The part `\s*(.*)$` behind a colon. -/
def valueMatches (key before colon s : Text) : List KeyMatch :=
  ((run isSpace).splits s).flatMap fun after =>
    ((run isDot).splits after.2).flatMap fun value =>
      if value.2.isEmpty then [⟨key, before, colon, after.1, value.1⟩] else []

def keyMatches (s : Text) : List KeyMatch :=
  (keyPattern.splits s).flatMap fun key =>
    ((run isSpace).splits key.2).flatMap fun before =>
      ((chr (unit ':')).splits before.2).flatMap fun colon =>
        valueMatches key.1 before.1 colon.1 colon.2

def keyMatch (s : Text) : Option KeyMatch := (keyMatches s).head?

/-- What is written between the colon and the value. -/
def separator (m : KeyMatch) : Text :=
  if !m.value.isEmpty && !spaceStart.test m.value && includes m.text (units ": ") then [space]
  else if spaceStart.test m.value then []
  else if m.value.isEmpty then []
  else [space]

def highlightKey (m : KeyMatch) : Text :=
  let (value, comment) := splitKeyComment m.value
  spanned .key m.key ++ span SpanClass.punct.name m.colon ++ separator m ++
    highlightValue value ++ highlightComment comment

/-- A line with no key. -/
def highlightPlain (rest : Text) : Text :=
  let (value, comment) := splitComment rest
  highlightValue value ++ highlightComment comment

/-- The start of a line, and the rest that may have a key. -/
structure Opening where
  lead : Text
  dash : Text
  blanks : Text
  rest : Text

def isBlank (c : UInt16) : Bool := decide (c ∈ units " \t")

/-- A dash opens a list item if it ends the line or a blank follows. -/
def opening (line : Text) : Opening :=
  let lead := line.takeWhile isBlank
  match line.dropWhile isBlank with
  | [] => ⟨lead, [], [], []⟩
  | c :: s =>
      if decide (c = unit '-') && s.head?.all isBlank then
        ⟨lead, [c], s.takeWhile isBlank, s.dropWhile isBlank⟩
      else ⟨lead, [], [], c :: s⟩

def Opening.highlight (o : Opening) : Text :=
  o.lead ++ (if o.dash.isEmpty then [] else span SpanClass.punct.name o.dash) ++ o.blanks

/-- The key and value of a line, if it is read as such. -/
def keyOf (rest : Text) : Option KeyMatch :=
  if startsWith rest (units "http") then none else keyMatch rest

def highlightLine (line : Text) : Text :=
  if commentStart.test line then spanned .comment line
  else
    let o := opening line
    o.highlight ++
      match keyOf o.rest with
      | some m => highlightKey m
      | none => highlightPlain o.rest

def highlightYaml (text : Text) : Text := mapLines newline highlightLine text

/-! ### Every part is escaped -/

theorem escapeHtml_unit (c : UInt16) : escapeHtml [c] = escapeUnit c := by
  rcases escapeUnit_cases c with ⟨e, he, rfl, hescape⟩ | ⟨⟨hamp, hlt, hgt⟩, hescape⟩
  · simp only [entities, List.mem_cons, List.not_mem_nil, or_false] at he
    rcases he with rfl | rfl | rfl
    · rfl
    · rfl
    · rfl
  · rw [hescape]
    simp [escapeHtml, replaceAll, hamp, hlt, hgt]

/-- The three replacements do not disturb each other. -/
theorem escapeHtml_eq (s : Text) : escapeHtml s = escape s := by
  induction s with
  | nil => rfl
  | cons c s ih =>
    have happend : escapeHtml (c :: s) = escapeHtml [c] ++ escapeHtml s := by
      simp only [escapeHtml, replaceAll, ← List.flatMap_append, List.flatMap_singleton]
      rfl
    rw [happend, escapeHtml_unit, ih, escape_cons]

theorem shows_spanned (c : SpanClass) (s : Text) : Shows SpanClass.name (spanned c s) s := by
  rw [spanned, escapeHtml_eq]
  exact shows_span c s

/-- A value is shown whatever its class. -/
theorem shows_highlightValue (value : Text) :
    Shows SpanClass.name (highlightValue value) value := by
  unfold highlightValue
  split_ifs with hempty
  · rw [List.isEmpty_iff.mp hempty]
    exact shows_nil
  · simp only [exec_run, Option.getD_some, escapeHtml_eq]
    split_ifs with hblank
    · exact shows_escape value
    · have hsplit := List.prefix_iff_eq_append.mp (List.takeWhile_prefix (l := value) isSpace)
      generalize value.drop (value.takeWhile isSpace).length = body at hsplit hblank ⊢
      have hshows := (shows_escape (value.takeWhile isSpace)).append
        (shows_spanned (valueClass body) body)
      rwa [hsplit] at hshows

theorem shows_highlightComment (comment : Text) :
    Shows SpanClass.name (highlightComment comment) comment := by
  unfold highlightComment
  split_ifs with hempty
  · rw [List.isEmpty_iff.mp hempty]
    exact shows_nil
  · exact shows_spanned .comment comment

theorem splitComment_append (value : Text) :
    (splitComment value).1 ++ (splitComment value).2 = value := by
  unfold splitComment
  cases indexOf (units " #") value with
  | some hash => exact List.take_append_drop hash value
  | none => exact List.append_nil value

theorem splitKeyComment_append (value : Text) :
    (splitKeyComment value).1 ++ (splitKeyComment value).2 = value := by
  unfold splitKeyComment
  cases indexOf (units " #") value with
  | some hash => exact List.take_append_drop hash value
  | none =>
    simp only
    split_ifs
    · exact List.nil_append value
    · exact List.append_nil value

theorem shows_highlightPlain (rest : Text) : Shows SpanClass.name (highlightPlain rest) rest := by
  have hshows := (shows_highlightValue (splitComment rest).1).append
    (shows_highlightComment (splitComment rest).2)
  rwa [splitComment_append] at hshows

/-! ### What the key expression reads -/

/-- What every match of the key expression is like. -/
structure KeyMatch.Reads (m : KeyMatch) (s : Text) : Prop where
  text_eq : m.text = s
  before_space : ∀ c ∈ m.before, isSpace c = true
  colon_eq : m.colon = [unit ':']
  value_start : spaceStart.test m.value = false

/-- The white space behind a colon never is part of the value. -/
theorem valueMatches_head {key before colon s : Text} {m : KeyMatch}
    (h : (valueMatches key before colon s).head? = some m) :
    m = ⟨key, before, colon, s.takeWhile isSpace, s.dropWhile isSpace⟩ := by
  refine (mem_run_to_end.mp (List.mem_of_mem_head? (head?_run_flatMap ?_ h))).2
  -- a value that starts later has no more line terminators in it
  intro q hq hvalue
  obtain ⟨m', hm'⟩ := List.exists_mem_of_ne_nil _ hvalue
  have hdots := (mem_run_to_end.mp hm').1
  have hleft := (mem_splits_run hq).2.subset
  exact List.ne_nil_of_mem (mem_run_to_end.mpr ⟨fun c hc => hdots c (hleft hc), rfl⟩)

theorem spaceStart_dropWhile (s : Text) : spaceStart.test (s.dropWhile isSpace) = false := by
  have hhead := List.head?_dropWhile_not isSpace s
  cases hdrop : s.dropWhile isSpace with
  | nil => rfl
  | cons c rest =>
    rw [hdrop] at hhead
    have hc : isSpace c = false := hhead
    simp [spaceStart, Pattern.test, Pattern.splits, hc]

theorem mem_splits_chr {c : UInt16} {s : Text} {q : Text × Text} (hq : q ∈ (chr c).splits s) :
    q.1 = [c] := by
  cases s with
  | nil => cases hq
  | cons d rest =>
    simp only [chr, oneOf, Pattern.splits, List.mem_singleton, decide_eq_true_eq] at hq
    split_ifs at hq with hd
    · rw [List.mem_singleton.mp hq, hd]
    · cases hq

theorem reads_of_keyMatch {s : Text} {m : KeyMatch} (h : keyMatch s = some m) : m.Reads s := by
  obtain ⟨key, hkey, h⟩ := exists_of_head?_flatMap h
  obtain ⟨before, hbefore, h⟩ := exists_of_head?_flatMap h
  obtain ⟨colon, hcolon, h⟩ := exists_of_head?_flatMap h
  obtain rfl := valueMatches_head h
  refine ⟨?_, (mem_splits_run hbefore).1, mem_splits_chr hcolon, spaceStart_dropWhile colon.2⟩
  simp only [KeyMatch.text, List.append_assoc, List.takeWhile_append_dropWhile]
  rw [append_of_mem_splits _ _ _ hcolon, append_of_mem_splits _ _ _ hbefore,
    append_of_mem_splits _ _ _ hkey]

/-- Between the colon and the value at most one space is written, and the branch
that keeps the value's own white space is never taken. -/
theorem separator_eq {m : KeyMatch} {s : Text} (h : m.Reads s) :
    separator m = if m.value = [] then [] else [space] := by
  unfold separator
  rw [h.value_start]
  by_cases hvalue : m.value = []
  · simp [hvalue]
  · simp [hvalue]

/-- A line with a key, as it is put together again. -/
def KeyMatch.reassembled (m : KeyMatch) : Text := m.key ++ m.colon ++ separator m ++ m.value

/-- The white space the highlighter writes itself: none before the colon, and
none behind it but a single space before a value. -/
structure KeyMatch.Spaced (m : KeyMatch) : Prop where
  before : m.before = []
  after : m.after = if m.value = [] then [] else [space]

theorem reassembled_eq_iff {m : KeyMatch} {s : Text} (h : m.Reads s) :
    m.reassembled = s ↔ m.Spaced := by
  rw [← h.text_eq, KeyMatch.reassembled, KeyMatch.text, h.colon_eq, separator_eq h,
    List.append_left_inj]
  simp only [List.append_assoc, List.append_cancel_left_eq]
  constructor
  · intro heq
    -- white space before the colon would stand where the colon is written
    cases hbefore : m.before with
    | nil =>
      rw [hbefore, List.nil_append, List.append_cancel_left_eq] at heq
      exact ⟨hbefore, heq.symm⟩
    | cons c rest =>
      rw [hbefore] at heq
      have hc := h.before_space c (hbefore ▸ List.mem_cons_self)
      rw [← (List.cons.inj heq).1] at hc
      exact absurd hc (by decide)
  · rintro ⟨hbefore, hafter⟩
    rw [hbefore, hafter, List.nil_append]

/-! ### What a line shows -/

/-- No special character is among the units written as they are. -/
theorem not_special (c : UInt16) (hc : c ∈ units " \t-:") : ∀ e ∈ entities, c ≠ e.1 := by
  have hspecial : ∀ e ∈ entities, e.1 ∉ units " \t-:" := by decide
  intro e he heq
  exact hspecial e he (heq ▸ hc)

/-- A text in a span that need not be escaped. -/
theorem shows_span_self (c : SpanClass) {s : Text} (hs : s ⊆ units " \t-:") :
    Shows SpanClass.name (span c.name s) s := by
  have hshows : Shows SpanClass.name (span c.name (escape s)) s := shows_span c s
  rwa [escape_eq_self fun d hd => not_special d (hs hd)] at hshows

theorem shows_highlightKey {m : KeyMatch} {s : Text} (h : m.Reads s) :
    Shows SpanClass.name (highlightKey m) m.reassembled := by
  have hcolon : m.colon ⊆ units " \t-:" := by
    rw [h.colon_eq]
    decide
  have hseparator : separator m ⊆ units " \t-:" := by
    rw [separator_eq h]
    split_ifs
    · exact List.nil_subset _
    · decide
  have hvalue := (shows_highlightValue (splitKeyComment m.value).1).append
    (shows_highlightComment (splitKeyComment m.value).2)
  rw [splitKeyComment_append] at hvalue
  have hshows := (((shows_spanned .key m.key).append (shows_span_self .punct hcolon)).append
    (shows_self fun c hc => not_special c (hseparator hc))).append hvalue
  rw [← List.append_assoc] at hshows
  exact hshows

def Opening.text (o : Opening) : Text := o.lead ++ o.dash ++ o.blanks

/-- What the start of every line is like. -/
structure Opening.Reads (o : Opening) (line : Text) : Prop where
  text_eq : o.text ++ o.rest = line
  lead_blank : o.lead ⊆ units " \t-:"
  dash_eq : o.dash = [] ∨ o.dash = [unit '-']
  blanks_blank : o.blanks ⊆ units " \t-:"

theorem takeWhile_isBlank_subset (s : Text) : s.takeWhile isBlank ⊆ units " \t-:" := by
  intro c hc
  have hblank := List.mem_takeWhile_imp hc
  have hsub : units " \t" ⊆ units " \t-:" := by decide
  exact hsub (of_decide_eq_true hblank)

theorem reads_opening (line : Text) : (opening line).Reads line := by
  have hline : line.takeWhile isBlank ++ line.dropWhile isBlank = line :=
    List.takeWhile_append_dropWhile
  have hlead := takeWhile_isBlank_subset line
  unfold opening
  cases hdrop : line.dropWhile isBlank with
  | nil =>
    rw [hdrop] at hline
    exact ⟨by simpa [Opening.text] using hline, hlead, Or.inl rfl, List.nil_subset _⟩
  | cons c s =>
    rw [hdrop] at hline
    simp only
    split_ifs with hdash
    · rw [Bool.and_eq_true, decide_eq_true_eq] at hdash
      refine ⟨?_, hlead, Or.inr (by rw [hdash.1]), takeWhile_isBlank_subset s⟩
      simpa [Opening.text, List.takeWhile_append_dropWhile] using hline
    · exact ⟨by simpa [Opening.text] using hline, hlead, Or.inl rfl, List.nil_subset _⟩

theorem shows_opening {o : Opening} {line : Text} (h : o.Reads line) :
    Shows SpanClass.name o.highlight o.text := by
  have hdash : Shows SpanClass.name
      (if o.dash.isEmpty then [] else span SpanClass.punct.name o.dash) o.dash := by
    rcases h.dash_eq with hdash | hdash
    · rw [hdash]
      exact shows_nil
    · rw [hdash]
      exact shows_span_self .punct (by decide)
  exact ((shows_self fun c hc => not_special c (h.lead_blank hc)).append hdash).append
    (shows_self fun c hc => not_special c (h.blanks_blank hc))

theorem reads_of_keyOf {s : Text} {m : KeyMatch} (h : keyOf s = some m) : m.Reads s := by
  unfold keyOf at h
  split_ifs at h
  exact reads_of_keyMatch h

/-- What is shown of a line behind its indentation and dash. -/
def shownRest (rest : Text) : Text :=
  match keyOf rest with
  | some m => m.reassembled
  | none => rest

def shownLine (line : Text) : Text :=
  if commentStart.test line then line else (opening line).text ++ shownRest (opening line).rest

/-- Every line is put together from its parts. -/
theorem shows_highlightLine (line : Text) :
    Shows SpanClass.name (highlightLine line) (shownLine line) := by
  unfold highlightLine shownLine
  split_ifs with hcomment
  · exact shows_spanned .comment line
  · refine (shows_opening (reads_opening line)).append ?_
    unfold shownRest
    cases hkey : keyOf (opening line).rest with
    | none => exact shows_highlightPlain (opening line).rest
    | some m => exact shows_highlightKey (reads_of_keyOf hkey)

theorem shows_highlightYaml (text : Text) :
    Shows SpanClass.name (highlightYaml text) (mapLines newline shownLine text) :=
  shows_mapLines (by decide) shows_highlightLine text

/-- Whatever the text is, the highlighted HTML is a concatenation of plain text
and of spans of the highlighter's own classes around plain text. -/
theorem highlightYaml_segments (text : Text) :
    ∃ segments : List (Option SpanClass × Text),
      highlightYaml text = segments.flatMap (render SpanClass.name) ∧
        ∀ p ∈ segments, Plain p.2 :=
  (shows_highlightYaml text).segments

theorem shown_highlightYaml (text : Text) :
    shown (highlightYaml text) = mapLines newline shownLine text := by
  refine (shows_highlightYaml text).shown_eq fun c => ?_
  cases c <;> decide

/-- A line that is a comment, that is not read as a key and a value, or that has
the white space around its colon as the highlighter writes it. -/
def LineSpaced (line : Text) : Prop :=
  commentStart.test line = false → ∀ m, keyOf (opening line).rest = some m → m.Spaced

theorem shownRest_eq_iff (rest : Text) :
    shownRest rest = rest ↔ ∀ m, keyOf rest = some m → m.Spaced := by
  unfold shownRest
  cases hkey : keyOf rest with
  | none => simp
  | some m => simpa using reassembled_eq_iff (reads_of_keyOf hkey)

/-- A line is changed only around its colon. -/
theorem shownLine_eq_iff (line : Text) : shownLine line = line ↔ LineSpaced line := by
  unfold shownLine LineSpaced
  cases hcomment : commentStart.test line with
  | true => simp
  | false =>
    have hrest : (opening line).text ++ shownRest (opening line).rest = line ↔
        shownRest (opening line).rest = (opening line).rest := by
      nth_rewrite 3 [← (reads_opening line).text_eq]
      exact List.append_right_inj _
    rw [shownRest_eq_iff] at hrest
    simpa using hrest

/-- Nothing but a space is added. -/
theorem mem_reassembled {m : KeyMatch} {s : Text} (h : m.Reads s) {c : UInt16}
    (hc : c ∈ m.reassembled) : c = space ∨ c ∈ s := by
  have hseparator : c ∈ separator m → c = space := by
    rw [separator_eq h]
    split_ifs
    · simp
    · simp
  rw [← h.text_eq]
  simp only [KeyMatch.reassembled, KeyMatch.text, List.mem_append] at hc ⊢
  tauto

theorem mem_shownRest {rest : Text} {c : UInt16} (hc : c ∈ shownRest rest) :
    c = space ∨ c ∈ rest := by
  unfold shownRest at hc
  cases hkey : keyOf rest with
  | none =>
    rw [hkey] at hc
    exact Or.inr hc
  | some m =>
    rw [hkey] at hc
    exact mem_reassembled (reads_of_keyOf hkey) hc

theorem newline_notMem_shownLine {line : Text} (hline : newline ∉ line) :
    newline ∉ shownLine line := by
  unfold shownLine
  split_ifs with hcomment
  · exact hline
  rw [← (reads_opening line).text_eq, List.mem_append, not_or] at hline
  rw [List.mem_append, not_or]
  refine ⟨hline.1, fun hmem => ?_⟩
  rcases mem_shownRest hmem with hspace | hrest
  · exact absurd hspace (by decide)
  · exact hline.2 hrest

/-- The highlighted HTML shows the text itself exactly if no line has other
white space around the colon of a key than the highlighter writes. -/
theorem shown_highlightYaml_eq_iff (text : Text) :
    shown (highlightYaml text) = text ↔ ∀ line ∈ lines newline text, LineSpaced line := by
  rw [shown_highlightYaml, mapLines_eq_self_iff fun l hl =>
    newline_notMem_shownLine (notMem_of_mem_lines hl)]
  exact forall₂_congr fun line _ => shownLine_eq_iff line

/-- An endpoint in a list is not shown as it is configured. -/
theorem list_endpoint_altered :
    shown (highlightYaml (units "- localhost:4317")) = units "- localhost: 4317" ∧
      shown (highlightYaml (units "- localhost:4317")) ≠ units "- localhost:4317" := by
  decide +kernel

-- the usual spacing is kept, with every kind of part on the line
example : shown (highlightYaml (units "  - \"a&b\": [1] # <c>")) = units "  - \"a&b\": [1] # <c>" := by
  decide +kernel

end Grex.YamlHighlight
