import Grex.Matchers

/-!
What a matcher text means. The text is split at the first operator that leaves a
key before it and a one-line value after it, so an operator inside the key, or a
value that starts like one, changes the reading; an unreadable text is refused.
-/

namespace Grex.Matchers

open GoText Regex AgentState

/-! ### The first operator -/

/-- No operator can be read before the end of `mid`. -/
def Foremost (mid rest : List Char) : Prop :=
  ∀ a b, mid = a ++ b → b ≠ [] → valueAfter (b ++ rest) = none

theorem Foremost.tail {c : Char} {mid rest : List Char} (h : Foremost (c :: mid) rest) :
    Foremost mid rest := by
  intro a b hab hb
  exact h (c :: a) b (by rw [hab]; rfl) hb

theorem foremost_cons {c : Char} {mid rest : List Char}
    (hhere : valueAfter (c :: (mid ++ rest)) = none) (h : Foremost mid rest) :
    Foremost (c :: mid) rest := by
  intro a b hab hb
  cases a with
  | nil =>
    rw [List.nil_append] at hab
    rw [← hab]
    exact hhere
  | cons d a =>
    rw [List.cons_append, List.cons.injEq] at hab
    exact h a b hab.2 hb

theorem splitFrom_append {key mid rest : List Char} (hline : '\n' ∉ mid)
    (hfirst : Foremost mid rest) : splitFrom key (mid ++ rest) = splitFrom (key ++ mid) rest := by
  induction mid generalizing key with
  | nil => rw [List.nil_append, List.append_nil]
  | cons c mid ih =>
    have hhere : valueAfter (c :: (mid ++ rest)) = none :=
      hfirst [] (c :: mid) rfl (List.cons_ne_nil c mid)
    have hc : c ≠ '\n' := fun hc => hline (hc ▸ List.mem_cons_self)
    rw [List.cons_append, splitFrom, hhere]
    simp only [if_neg hc]
    rw [ih (fun hmem => hline (List.mem_cons_of_mem c hmem)) hfirst.tail, List.append_assoc]
    rfl

theorem exists_of_splitFrom {key rest : List Char} {found : List Char × Op × List Char}
    (h : splitFrom key rest = some found) :
    ∃ mid tail, rest = mid ++ tail ∧ found.1 = key ++ mid ∧ '\n' ∉ mid ∧ Foremost mid tail ∧
      valueAfter tail = some found.2 := by
  induction rest generalizing key with
  | nil => cases h
  | cons c rest ih =>
    rw [splitFrom] at h
    cases hvalue : valueAfter (c :: rest) with
    | some pair =>
      rw [hvalue] at h
      obtain rfl := Option.some.inj h
      refine ⟨[], c :: rest, rfl, (List.append_nil key).symm, List.not_mem_nil, ?_, hvalue⟩
      intro a b hab hb
      exact absurd (List.append_eq_nil_iff.mp hab.symm).2 hb
    | none =>
      rw [hvalue] at h
      by_cases hc : c = '\n'
      · simp [hc] at h
      · simp only [if_neg hc] at h
        obtain ⟨mid, tail, rfl, hkey, hline, hfirst, htail⟩ := ih h
        refine ⟨c :: mid, tail, rfl, ?_, ?_, foremost_cons hvalue hfirst, htail⟩
        · rw [hkey, List.append_assoc]
          rfl
        · intro hmem
          rcases List.mem_cons.mp hmem with heq | hmem
          · exact hc heq.symm
          · exact hline hmem

/-- The split in terms of the text alone. -/
theorem split_eq_some_iff {t key value : List Char} {op : Op} :
    split t = some (key, op, value) ↔ ∃ c mid rest, key = c :: mid ∧ t = key ++ rest ∧
      '\n' ∉ key ∧ Foremost mid rest ∧ valueAfter rest = some (op, value) := by
  constructor
  · intro h
    cases t with
    | nil => cases h
    | cons c t =>
      rw [split] at h
      by_cases hc : c = '\n'
      · simp [hc] at h
      · rw [if_neg hc] at h
        obtain ⟨mid, rest, rfl, hkey, hline, hfirst, hvalue⟩ := exists_of_splitFrom h
        obtain rfl : key = c :: mid := hkey
        refine ⟨c, mid, rest, rfl, rfl, ?_, hfirst, hvalue⟩
        intro hmem
        rcases List.mem_cons.mp hmem with heq | hmem
        · exact hc heq.symm
        · exact hline hmem
  · rintro ⟨c, mid, rest, rfl, rfl, hline, hfirst, hvalue⟩
    have hc : c ≠ '\n' := fun hc => hline (hc ▸ List.mem_cons_self)
    rw [List.cons_append, split, if_neg hc,
      splitFrom_append (fun hmem => hline (List.mem_cons_of_mem c hmem)) hfirst]
    cases rest with
    | nil => cases hvalue
    | cons d rest =>
      rw [splitFrom, hvalue]
      rfl

theorem Op.text_ne_nil (op : Op) : op.text ≠ [] := by
  obtain ⟨c, t, htext, -⟩ := op.head_text
  rw [htext]
  exact List.cons_ne_nil c t

theorem Op.bare_text (op : Op) : Bare isSpace op.text := by
  cases op <;> exact bare_of_ends (by decide) (by decide)

/-- The characters RE2 calls space are space for Go. -/
theorem isSpace_of_mem {c : Char} (h : CharSet.space.mem c = true) : isSpace c = true := by
  simp only [CharSet.mem, CharSet.space, List.any_cons, List.any_nil, Bool.or_false,
    Bool.bne_false, Bool.or_eq_true, decide_eq_true_eq] at h
  unfold isSpace
  rw [List.any_eq_true]
  rcases h with ⟨hlow, hhigh⟩ | ⟨hlow, hhigh⟩ | hblank
  · exact ⟨('\t', '\r'), by simp, decide_eq_true ⟨hlow, hhigh.trans (by decide)⟩⟩
  · exact ⟨('\t', '\r'), by simp, decide_eq_true ⟨le_trans (by decide) hlow, hhigh⟩⟩
  · exact ⟨(' ', ' '), by simp, decide_eq_true hblank⟩

theorem dropWhile_op {gap tail : List Char} {op : Op}
    (hgap : ∀ x ∈ gap, CharSet.space.mem x = true) :
    (gap ++ (op.text ++ tail)).dropWhile CharSet.space.mem = op.text ++ tail := by
  rw [dropWhile_append_of_all hgap]
  apply dropWhile_eq_self_of_head
  cases op <;> (intro x hx; cases hx; decide)

theorem valueOf_of_line {rest : List Char} (hline : '\n' ∉ rest) :
    valueOf rest = some (rest.dropWhile CharSet.space.mem) :=
  if_neg fun hmem => hline ((List.dropWhile_sublist _).subset hmem)

theorem valueAfter_op {gap : List Char} (op : Op) (tail : List Char)
    (hgap : ∀ x ∈ gap, CharSet.space.mem x = true) (hequal : op = .equal → tail.head? ≠ some '~') :
    valueAfter (gap ++ (op.text ++ tail)) = (valueOf tail).map fun value => (op, value) := by
  unfold valueAfter
  rw [dropWhile_op hgap, opAt_eq_some_iff.mpr ⟨rfl, hequal⟩]
  rfl

/-- An operator and its value, after optional space. The value starts at the first
character that is not space, and an equals sign takes a tilde with it. -/
def ValueRead (rest : List Char) (op : Op) (value : List Char) : Prop :=
  ∃ gap gap', rest = gap ++ (op.text ++ (gap' ++ value)) ∧
    (∀ x ∈ gap, CharSet.space.mem x = true) ∧ (∀ x ∈ gap', CharSet.space.mem x = true) ∧
    (∀ x, value.head? = some x → CharSet.space.mem x = false) ∧
    (op = .equal → (gap' ++ value).head? ≠ some '~') ∧ '\n' ∉ value

theorem ValueRead.line {rest value : List Char} {op : Op} (h : ValueRead rest op value) :
    '\n' ∉ value := by
  obtain ⟨-, -, -, -, -, -, -, hline⟩ := h
  exact hline

theorem valueAfter_eq_some_iff {rest value : List Char} {op : Op} :
    valueAfter rest = some (op, value) ↔ ValueRead rest op value := by
  constructor
  · intro h
    obtain ⟨⟨op', tail⟩, hop, hvalue⟩ := Option.bind_eq_some_iff.mp h
    obtain ⟨value', hvalue', hpair⟩ := Option.map_eq_some_iff.mp hvalue
    obtain ⟨rfl, rfl⟩ := Prod.mk.inj hpair
    obtain ⟨hrest, hequal⟩ := opAt_eq_some_iff.mp hop
    unfold valueOf at hvalue'
    split at hvalue'
    next => cases hvalue'
    next hline =>
      obtain rfl := Option.some.inj hvalue'
      refine ⟨rest.takeWhile CharSet.space.mem, tail.takeWhile CharSet.space.mem, ?_,
        fun x hx => List.mem_takeWhile_imp hx, fun x hx => List.mem_takeWhile_imp hx,
        head_dropWhile, ?_, hline⟩
      · rw [List.takeWhile_append_dropWhile, ← hrest, List.takeWhile_append_dropWhile]
      · rwa [List.takeWhile_append_dropWhile]
  · rintro ⟨gap, gap', rfl, hgap, hgap', hhead, hequal, hline⟩
    rw [valueAfter_op op _ hgap hequal]
    unfold valueOf
    rw [dropWhile_append_of_all hgap', dropWhile_eq_self_of_head hhead, if_neg hline]
    rfl

/-- An operator and a one-line value after it can be read. -/
theorem valueAfter_ne_none (gap : List Char) {tail : List Char} (op : Op)
    (hgap : ∀ x ∈ gap, CharSet.space.mem x = true) (hline : '\n' ∉ tail) :
    valueAfter (gap ++ (op.text ++ tail)) ≠ none := by
  by_cases htilde : op = .equal ∧ tail.head? = some '~'
  · obtain ⟨rfl, hhead⟩ := htilde
    obtain ⟨tail', rfl⟩ : ∃ tail', tail = '~' :: tail' := by
      cases tail with
      | nil => cases hhead
      | cons c tail' => exact ⟨tail', by rw [Option.some.inj hhead]⟩
    have hline' : '\n' ∉ tail' := fun hmem => hline (List.mem_cons_of_mem _ hmem)
    have hregex := valueAfter_op .regex tail' hgap (by simp)
    rw [valueOf_of_line hline'] at hregex
    change valueAfter (gap ++ (Op.regex.text ++ tail')) ≠ none
    rw [hregex]
    exact Option.some_ne_none _
  · rw [valueAfter_op op tail hgap (fun hop hhead => htilde ⟨hop, hhead⟩), valueOf_of_line hline]
    exact Option.some_ne_none _

/-- A non-empty key on one line, and an operator with its value after it. -/
def Reading (t key : List Char) (op : Op) (value : List Char) : Prop :=
  key ≠ [] ∧ '\n' ∉ key ∧ ∃ rest, t = key ++ rest ∧ ValueRead rest op value

/-- The reading with the shortest key. -/
def FirstReading (t key : List Char) (op : Op) (value : List Char) : Prop :=
  Reading t key op value ∧
    ∀ key' op' value', Reading t key' op' value' → key.length ≤ key'.length

theorem exists_splitFrom (key : List Char) {mid tail : List Char} (hline : '\n' ∉ mid)
    (hvalue : valueAfter tail ≠ none) :
    ∃ found, splitFrom key (mid ++ tail) = some found ∧
      found.1.length ≤ key.length + mid.length := by
  induction mid generalizing key with
  | nil =>
    obtain ⟨pair, hpair⟩ := Option.ne_none_iff_exists'.mp hvalue
    cases tail with
    | nil => cases hpair
    | cons c tail =>
      refine ⟨(key, pair), ?_, le_refl _⟩
      rw [List.nil_append, splitFrom, hpair]
  | cons c mid ih =>
    have hc : c ≠ '\n' := fun hc => hline (hc ▸ List.mem_cons_self)
    rw [List.cons_append, splitFrom]
    cases hhere : valueAfter (c :: (mid ++ tail)) with
    | some pair => exact ⟨(key, pair), rfl, by simp⟩
    | none =>
      obtain ⟨found, hfound, hlength⟩ := ih (key ++ [c])
        (fun hmem => hline (List.mem_cons_of_mem c hmem))
      refine ⟨found, by simp only [if_neg hc, hfound], ?_⟩
      simp only [List.length_append, List.length_cons, List.length_nil] at hlength ⊢
      omega

/-- The split finds a key at least as short as any. -/
theorem exists_split_of_reading {t key value : List Char} {op : Op}
    (h : Reading t key op value) :
    ∃ found, split t = some found ∧ found.1.length ≤ key.length := by
  obtain ⟨hne, hline, rest, rfl, hvalue⟩ := h
  obtain ⟨c, mid, rfl⟩ := List.exists_cons_of_ne_nil hne
  have hc : c ≠ '\n' := fun hc => hline (hc ▸ List.mem_cons_self)
  have hsome : valueAfter rest ≠ none := by
    rw [valueAfter_eq_some_iff.mpr hvalue]
    exact Option.some_ne_none _
  obtain ⟨found, hfound, hlength⟩ := exists_splitFrom [c]
    (fun hmem => hline (List.mem_cons_of_mem c hmem)) hsome
  refine ⟨found, ?_, ?_⟩
  · rw [List.cons_append, split, if_neg hc, hfound]
  · rw [List.length_singleton] at hlength
    rw [List.length_cons]
    omega

theorem reading_of_split {t key value : List Char} {op : Op}
    (h : split t = some (key, op, value)) : Reading t key op value := by
  obtain ⟨c, mid, rest, rfl, ht, hline, -, hvalue⟩ := split_eq_some_iff.mp h
  exact ⟨List.cons_ne_nil c mid, hline, rest, ht, valueAfter_eq_some_iff.mp hvalue⟩

/-- The split is the reading with the shortest key. -/
theorem split_eq_some_iff_reading {t key value : List Char} {op : Op} :
    split t = some (key, op, value) ↔ FirstReading t key op value := by
  constructor
  · intro h
    refine ⟨reading_of_split h, fun key' op' value' hreading => ?_⟩
    obtain ⟨found, hfound, hlength⟩ := exists_split_of_reading hreading
    rw [h, Option.some.injEq] at hfound
    rwa [← hfound] at hlength
  · rintro ⟨hreading, hshortest⟩
    obtain ⟨⟨key', op', value'⟩, hfound, hlength⟩ := exists_split_of_reading hreading
    have hreading' := reading_of_split hfound
    have hle := hshortest key' op' value' hreading'
    obtain ⟨-, -, rest, ht, hvalue⟩ := hreading
    obtain ⟨-, -, rest', ht', hvalue'⟩ := hreading'
    obtain ⟨rfl, rfl⟩ := List.append_inj (ht.symm.trans ht') (le_antisymm hle hlength)
    have hsame := (valueAfter_eq_some_iff.mpr hvalue).symm.trans
      (valueAfter_eq_some_iff.mpr hvalue')
    rw [Option.some.injEq, Prod.mk.injEq] at hsame
    rw [hfound, hsame.1, hsame.2]

theorem split_eq_none_iff {t : List Char} :
    split t = none ↔ ∀ key op value, ¬ Reading t key op value := by
  constructor
  · intro h key op value hreading
    obtain ⟨found, hfound, -⟩ := exists_split_of_reading hreading
    rw [h] at hfound
    cases hfound
  · intro h
    cases hsplit : split t with
    | none => rfl
    | some found => exact absurd (reading_of_split hsplit) (h found.1 found.2.1 found.2.2)

/-- Nothing is read before the end of `mid` where no operator starts at a character
of it. -/
theorem foremost_of_no_start {mid rest : List Char}
    (hlast : ∀ x, mid.getLast? = some x → CharSet.space.mem x = false)
    (h : ∀ a c t, mid = a ++ c :: t → ∀ (op : Op) tail, c :: (t ++ rest) ≠ op.text ++ tail) :
    Foremost mid rest := by
  intro a b hab hb
  -- What is left of `b` after space is a non-empty end of `mid`.
  obtain ⟨c, t, hct⟩ : ∃ c t, b.dropWhile CharSet.space.mem = c :: t := by
    apply List.exists_cons_of_ne_nil
    intro hnil
    have hspace := List.dropWhile_eq_nil_iff.mp hnil (b.getLast hb) (List.getLast_mem hb)
    rw [hlast (b.getLast hb)] at hspace
    · cases hspace
    · rw [hab, List.getLast?_append_of_ne_nil _ hb, List.getLast?_eq_getLast_of_ne_nil hb]
  have hmid : mid = (a ++ b.takeWhile CharSet.space.mem) ++ c :: t := by
    rw [← hct, List.append_assoc, List.takeWhile_append_dropWhile, hab]
  have hdrop : (b ++ rest).dropWhile CharSet.space.mem = c :: (t ++ rest) := by
    rw [List.dropWhile_append, hct]
    rfl
  unfold valueAfter
  rw [hdrop, Option.bind_eq_none_iff]
  rintro ⟨op, tail⟩ hop
  exact absurd (opAt_eq_some_iff.mp hop).1 (h _ c t hmid op tail)

/-- A key in which no operator starts past its first character, and that lends
none its last one. -/
theorem foremost_of_plain {mid rest : List Char}
    (hlast : ∀ x, mid.getLast? = some x → CharSet.space.mem x = false) (hequals : '=' ∉ mid)
    (hmark : ¬ ['!', '~'] <:+: mid)
    (hend : mid.getLast? = some '!' → rest.head? ≠ some '=' ∧ rest.head? ≠ some '~') :
    Foremost mid rest := by
  refine foremost_of_no_start hlast fun a c t hmid op tail htext => ?_
  have hin : ∀ x ∈ c :: t, x ∈ mid := by
    intro x hx
    rw [hmid]
    exact List.mem_append_right a hx
  cases op with
  | equal =>
    obtain ⟨rfl, -⟩ := List.cons.inj htext
    exact hequals (hin _ List.mem_cons_self)
  | regex =>
    obtain ⟨rfl, -⟩ := List.cons.inj htext
    exact hequals (hin _ List.mem_cons_self)
  | notEqual =>
    obtain ⟨rfl, hsecond⟩ := List.cons.inj htext
    cases t with
    | nil =>
      rw [List.nil_append] at hsecond
      exact (hend (by simp [hmid])).1 (by rw [hsecond]; rfl)
    | cons d t =>
      obtain ⟨rfl, -⟩ := List.cons.inj hsecond
      exact hequals (hin _ (by simp))
  | notRegex =>
    obtain ⟨rfl, hsecond⟩ := List.cons.inj htext
    cases t with
    | nil =>
      rw [List.nil_append] at hsecond
      exact (hend (by simp [hmid])).2 (by rw [hsecond]; rfl)
    | cons d t =>
      obtain ⟨rfl, -⟩ := List.cons.inj hsecond
      exact hmark ⟨a, t, by simp [hmid]⟩

/-- On one line no operator stands in a key before the end of which nothing is read. -/
theorem Foremost.operator_free {mid rest : List Char} (h : Foremost mid rest)
    (hmid : '\n' ∉ mid) (hrest : '\n' ∉ rest) (op : Op) : ¬ op.text <:+: mid := by
  rintro ⟨a, b, rfl⟩
  have hline : '\n' ∉ b ++ rest := by
    rw [List.mem_append, not_or]
    exact ⟨fun hmem => hmid (List.mem_append_right _ hmem), hrest⟩
  have hvalue := h a (op.text ++ b) (List.append_assoc a op.text b) (by simp [op.text_ne_nil])
  rw [List.append_assoc] at hvalue
  exact valueAfter_ne_none [] op (by simp) hline hvalue

/-- On one line no operator starts at the last character of such a key. -/
theorem Foremost.lends_none {mid rest : List Char} (h : Foremost mid rest) (hrest : '\n' ∉ rest)
    {c d : Char} (hlast : mid.getLast? = some c) {op : Op} (hop : op.text = [c, d]) :
    rest.head? ≠ some d := by
  intro hhead
  obtain ⟨a, hab⟩ := List.getLast?_eq_some_iff.mp hlast
  obtain ⟨tail, rfl⟩ := List.head?_eq_some_iff.mp hhead
  have hline : '\n' ∉ tail := fun hmem => hrest (List.mem_cons_of_mem d hmem)
  have hread := valueAfter_ne_none [] op (by simp) hline
  rw [hop] at hread
  exact hread (h a [c] hab (List.cons_ne_nil c []))

/-- On one line a key before which nothing is read has that form. -/
theorem plain_of_foremost {mid rest : List Char} (hmid : '\n' ∉ mid) (hrest : '\n' ∉ rest)
    (h : Foremost mid rest) : '=' ∉ mid ∧ ¬ ['!', '~'] <:+: mid ∧
      (mid.getLast? = some '!' → rest.head? ≠ some '=' ∧ rest.head? ≠ some '~') := by
  refine ⟨fun hmem => ?_, h.operator_free hmid hrest .notRegex, fun hlast => ⟨?_, ?_⟩⟩
  · obtain ⟨a, b, hab⟩ := List.append_of_mem hmem
    exact h.operator_free hmid hrest .equal ⟨a, b, by rw [hab]; simp [Op.text]⟩
  · exact h.lends_none hrest hlast (show Op.notEqual.text = _ from rfl)
  · exact h.lends_none hrest hlast (show Op.notRegex.text = _ from rfl)

/-! ### Parsing -/

def Op.isRegex : Op → Bool
  | .equal => false
  | .notEqual => false
  | .regex => true
  | .notRegex => true

/-- The key, the operator and the value a text is read as. -/
def written (s : String) : Option (List Char × Op × List Char) :=
  (split (trim isSpace s.toList)).map fun found =>
    (trim isSpace found.1, found.2.1, unquoteMatcherValue found.2.2)

/-- The matcher a reading stands for. -/
def build (rt : Runtime) (s : String) (found : List Char × Op × List Char) :
    Except String AttrMatcher :=
  if found.2.1.isRegex then
    match compileMatcherRE rt found.2.2 with
    | .error e => .error ("invalid regex in matcher " ++ rt.quote (trimSpace s) ++ ": " ++ e)
    | .ok re => .ok ⟨.ofList found.1, found.2.1, .ofList found.2.2, some re⟩
  else .ok ⟨.ofList found.1, found.2.1, .ofList found.2.2, none⟩

/-- A text starts its key, so the key is never blank. -/
theorem trim_key_ne_nil {s key value : List Char} {op : Op}
    (h : split (trim isSpace s) = some (key, op, value)) : trim isSpace key ≠ [] := by
  obtain ⟨c, mid, rest, rfl, htext, -⟩ := split_eq_some_iff.mp h
  have hc : isSpace c = false := (bare_trim isSpace s).head c (by rw [htext]; rfl)
  intro hnil
  have hspace := trim_eq_nil_iff.mp hnil c List.mem_cons_self
  rw [hc] at hspace
  cases hspace

theorem parseMatcher_of_written {rt : Runtime} {s : String}
    {found : List Char × Op × List Char} (h : written s = some found) :
    parseMatcher rt s = build rt s found := by
  obtain ⟨⟨key, op, value⟩, hsplit, rfl⟩ := Option.map_eq_some_iff.mp h
  have hkey := trim_key_ne_nil hsplit
  have hs : trimSpace s ≠ "" := by
    intro hempty
    rw [← toList_trimSpace, hempty] at hsplit
    cases hsplit
  unfold parseMatcher build
  simp only [hs, if_false, findSubmatch_eq_split, toList_trimSpace, hsplit, hkey]
  cases op with
  | equal => rfl
  | notEqual => rfl
  | regex => cases compileMatcherRE rt (unquoteMatcherValue value) <;> rfl
  | notRegex => cases compileMatcherRE rt (unquoteMatcherValue value) <;> rfl

theorem parseMatcher_of_not_written (rt : Runtime) {s : String} (h : written s = none) :
    ∃ e, parseMatcher rt s = .error e := by
  have hsplit := Option.map_eq_none_iff.mp h
  unfold parseMatcher
  by_cases hs : trimSpace s = ""
  · exact ⟨_, if_pos hs⟩
  · simp only [hs, if_false, findSubmatch_eq_split, toList_trimSpace, hsplit]
    exact ⟨_, rfl⟩

/-! ### Values -/

/-- No pair of quotes stands around the text. -/
def Unpaired (w : List Char) : Prop := ∀ q t, q = '"' ∨ q = '\'' → w ≠ q :: (t ++ [q])

/-- `u` is `w` without the pair of quotes around it, if it has one. -/
def Unquoted (w u : List Char) : Prop :=
  (∃ q, (q = '"' ∨ q = '\'') ∧ w = q :: (u ++ [q])) ∨ (Unpaired w ∧ u = w)

theorem unquoteMatcherValue_of_quotes {s t : List Char} {q : Char} (hq : q = '"' ∨ q = '\'')
    (hs : trim isSpace s = q :: (t ++ [q])) : unquoteMatcherValue s = t := by
  have hlength : ¬ (q :: (t ++ [q])).length < 2 := by simp
  have hlast : (q :: (t ++ [q])).getLast? = some q := by
    rw [← List.cons_append, List.getLast?_concat]
  unfold unquoteMatcherValue
  simp only [hs]
  rw [if_neg hlength, if_pos]
  · simp
  · rcases hq with rfl | rfl
    · exact Or.inl ⟨rfl, hlast⟩
    · exact Or.inr ⟨rfl, hlast⟩

theorem unquoteMatcherValue_of_no_quotes {s : List Char} (hs : Unpaired (trim isSpace s)) :
    unquoteMatcherValue s = trim isSpace s := by
  unfold unquoteMatcherValue
  generalize trim isSpace s = w at hs
  have hpair : ∀ q, q = '"' ∨ q = '\'' → ¬ w.length < 2 →
      ¬ (w.head? = some q ∧ w.getLast? = some q) := by
    rintro q hq hlength ⟨hhead, hlast⟩
    obtain ⟨c, w', rfl⟩ : ∃ c w', w = c :: w' := by
      apply List.exists_cons_of_ne_nil
      rintro rfl
      exact hlength (by simp)
    obtain rfl : c = q := Option.some.inj hhead
    have hne : w' ≠ [] := by
      rintro rfl
      exact hlength (by simp)
    rw [List.getLast?_cons_of_ne_nil hne, List.getLast?_eq_getLast_of_ne_nil hne] at hlast
    apply hs c w'.dropLast hq
    have hw' := List.dropLast_append_getLast hne
    rw [Option.some.inj hlast] at hw'
    rw [hw']
  simp only
  split
  next => rfl
  next hlength =>
    rw [if_neg]
    rintro (hdouble | hsingle)
    · exact hpair _ (Or.inl rfl) hlength hdouble
    · exact hpair _ (Or.inr rfl) hlength hsingle

theorem unquoted_unquoteMatcherValue (s : List Char) :
    Unquoted (trim isSpace s) (unquoteMatcherValue s) := by
  by_cases hquotes : ∃ q t, (q = '"' ∨ q = '\'') ∧ trim isSpace s = q :: (t ++ [q])
  · obtain ⟨q, t, hq, hs⟩ := hquotes
    rw [unquoteMatcherValue_of_quotes hq hs]
    exact Or.inl ⟨q, hq, hs⟩
  · have hnone : Unpaired (trim isSpace s) := fun q t hq hs => hquotes ⟨q, t, hq, hs⟩
    exact Or.inr ⟨hnone, unquoteMatcherValue_of_no_quotes hnone⟩

theorem unquoteMatcherValue_congr {s t : List Char} (h : trim isSpace s = trim isSpace t) :
    unquoteMatcherValue s = unquoteMatcherValue t := by
  unfold unquoteMatcherValue
  rw [h]

/-- A key before an operator is read up to the space around it. -/
theorem written_trim_of_foremost {s : String} (key gap : List Char) (op : Op) (r : List Char)
    (hs : s.toList = key ++ (gap ++ (op.text ++ r))) (hne : key ≠ [])
    (hhead : ∀ x, key.head? = some x → isSpace x = false) (hline : '\n' ∉ key)
    (hgap : ∀ x ∈ gap, CharSet.space.mem x = true)
    (hfirst : ∀ t, Foremost key.tail (gap ++ (op.text ++ t)))
    (hequal : op = .equal → r.head? ≠ some '~') (hr : '\n' ∉ r) :
    written s = some (trim isSpace key, op, unquoteMatcherValue r) := by
  have hbefore : Bare isSpace (key ++ (gap ++ op.text)) :=
    bare_append hhead hne gap op.bare_text op.text_ne_nil
  obtain ⟨t, b, hr', -, htrim, hsame⟩ := trim_append_of_bare hbefore (by simp [hne]) r
  have ht : '\n' ∉ t := fun hmem => hr (by rw [hr']; exact List.mem_append_left _ hmem)
  have hequal' : op = .equal → t.head? ≠ some '~' := by
    intro hop hhead
    apply hequal hop
    rw [hr', List.head?_append, hhead]
    rfl
  have hsplit : split (trim isSpace s.toList) = some (key, op, t.dropWhile CharSet.space.mem) := by
    obtain ⟨c, mid, rfl⟩ := List.exists_cons_of_ne_nil hne
    refine split_eq_some_iff.mpr ⟨c, mid, gap ++ (op.text ++ t), rfl, ?_, hline, hfirst t, ?_⟩
    · rw [hs, ← List.append_assoc, ← List.append_assoc, List.append_assoc (c :: mid), htrim]
      simp only [List.append_assoc]
    · rw [valueAfter_op op t hgap hequal', valueOf_of_line ht]
      rfl
  unfold written
  rw [hsplit, Option.map_some]
  have hvalue := (trim_dropWhile (fun x => isSpace_of_mem) t).trans hsame
  rw [unquoteMatcherValue_congr hvalue]

/-- A bare key before an operator is read as it is written. -/
theorem written_of_foremost {s : String} (key gap : List Char) (op : Op) (r : List Char)
    (hs : s.toList = key ++ (gap ++ (op.text ++ r))) (hne : key ≠ []) (hbare : Bare isSpace key)
    (hline : '\n' ∉ key) (hgap : ∀ x ∈ gap, CharSet.space.mem x = true)
    (hfirst : ∀ t, Foremost key.tail (gap ++ (op.text ++ t)))
    (hequal : op = .equal → r.head? ≠ some '~') (hr : '\n' ∉ r) :
    written s = some (key, op, unquoteMatcherValue r) := by
  have hread := written_trim_of_foremost key gap op r hs hne hbare.head hline hgap hfirst hequal hr
  rwa [trim_eq_self hbare] at hread

/-! ### What is accepted -/

/-- A regular expression that does not compile refuses the whole text. -/
theorem parseMatcher_error_iff (rt : Runtime) (s : String) :
    (∃ e, parseMatcher rt s = .error e) ↔ written s = none ∨
      ∃ key op value, written s = some (key, op, value) ∧ op.isRegex = true ∧
        ∃ e, compileMatcherRE rt value = .error e := by
  cases hwritten : written s with
  | none => simp [parseMatcher_of_not_written rt hwritten]
  | some found =>
    obtain ⟨key, op, value⟩ := found
    rw [parseMatcher_of_written hwritten]
    unfold build
    cases hregex : op.isRegex with
    | false => simp [hregex]
    | true => cases hcompile : compileMatcherRE rt value <;> simp [hregex, hcompile]

theorem parseMatcher_ok_of_written {rt : Runtime} {s : String} {key value : List Char} {op : Op}
    (h : written s = some (key, op, value))
    (hre : op.isRegex = true → ∃ re, compileMatcherRE rt value = .ok re) :
    ∃ re, parseMatcher rt s = .ok ⟨.ofList key, op, .ofList value, re⟩ := by
  rw [parseMatcher_of_written h]
  unfold build
  cases hregex : op.isRegex with
  | false => exact ⟨none, by simp⟩
  | true =>
    obtain ⟨re, hcompile⟩ := hre hregex
    exact ⟨some re, by simp [hcompile]⟩

/-- The regular expression a matcher holds is the one of its value. -/
def Compiled (rt : Runtime) (m : AttrMatcher) : Prop :=
  if m.op.isRegex then ∃ re, compileMatcherRE rt m.value.toList = .ok re ∧ m.re = some re
  else m.re = none

theorem parseMatcher_ok_iff {rt : Runtime} {s : String} {m : AttrMatcher} :
    parseMatcher rt s = .ok m ↔
      written s = some (m.key.toList, m.op, m.value.toList) ∧ Compiled rt m := by
  constructor
  · intro h
    cases hwritten : written s with
    | none =>
      obtain ⟨e, he⟩ := parseMatcher_of_not_written rt hwritten
      rw [he] at h
      cases h
    | some found =>
      obtain ⟨key, op, value⟩ := found
      rw [parseMatcher_of_written hwritten] at h
      unfold build at h
      unfold Compiled
      cases hregex : op.isRegex with
      | false =>
        simp only [hregex, Bool.false_eq_true, if_false, Except.ok.injEq] at h
        simp [← h, hregex]
      | true =>
        cases hcompile : compileMatcherRE rt value with
        | error e => simp [hregex, hcompile] at h
        | ok re =>
          simp only [hregex, if_true, hcompile, Except.ok.injEq] at h
          simp [← h, hregex, hcompile]
  · rintro ⟨hwritten, hcompiled⟩
    obtain ⟨key, op, value, re⟩ := m
    unfold Compiled at hcompiled
    rw [parseMatcher_of_written hwritten]
    unfold build
    cases hregex : op.isRegex with
    | false =>
      simp only [hregex, Bool.false_eq_true, if_false] at hcompiled
      simp [hcompiled]
    | true =>
      simp only [hregex, if_true] at hcompiled
      obtain ⟨re', hcompile, rfl⟩ := hcompiled
      simp [hcompile]

theorem space_of_blank {c : Char} (h : c = ' ' ∨ c = '\t') : CharSet.space.mem c = true := by
  rcases h with rfl | rfl <;> decide

theorem getLast?_of_tail {l : List Char} {x : Char} (h : l.tail.getLast? = some x) :
    l.getLast? = some x := by
  cases l with
  | nil => cases h
  | cons c t =>
    have hne : t ≠ [] := by
      rintro rfl
      cases h
    rwa [List.getLast?_cons_of_ne_nil hne]

/-- The last character of a bare key is not space. -/
theorem not_space_of_getLast?_tail {key : List Char} (hbare : Bare isSpace key) (x : Char)
    (hx : key.tail.getLast? = some x) : CharSet.space.mem x = false := by
  cases hspace : CharSet.space.mem x with
  | false => rfl
  | true =>
    have hlast := hbare.last x (getLast?_of_tail hx)
    rw [isSpace_of_mem hspace] at hlast
    cases hlast

/-- A key without operator characters lends none to an operator. -/
theorem foremost_of_no_operator {key rest : List Char} (hbare : Bare isSpace key)
    (hchars : ∀ c ∈ key, c ≠ '=' ∧ c ≠ '!') : Foremost key.tail rest := by
  have htail : ∀ c ∈ key.tail, c ≠ '=' ∧ c ≠ '!' := fun c hc => hchars c (List.mem_of_mem_tail hc)
  apply foremost_of_plain (not_space_of_getLast?_tail hbare)
  · intro hmem
    exact (htail _ hmem).1 rfl
  · intro hinside
    exact (htail '!' (hinside.subset (by simp))).2 rfl
  · intro hlast
    exact absurd rfl (htail '!' (List.mem_of_getLast? hlast)).2

/-- A key without operator characters, an operator and a one-line value are read
back from a text that joins them with any blanks between them. -/
theorem parseMatcher_recovers (rt : Runtime) (k s₁ s₂ v : String) (op : Op) (hk : k ≠ "")
    (hchars : ∀ c ∈ k.toList, c ≠ '=' ∧ c ≠ '!' ∧ c ≠ '\n') (htrim : trimSpace k = k)
    (hs₁ : ∀ c ∈ s₁.toList, c = ' ' ∨ c = '\t') (hs₂ : ∀ c ∈ s₂.toList, c = ' ' ∨ c = '\t')
    (hv : '\n' ∉ v.toList)
    (hre : op.isRegex = true → ∃ re, compileMatcherRE rt (unquoteMatcherValue v.toList) = .ok re)
    (hexcept : ¬ (op = .equal ∧ s₂ = "" ∧ v.toList.head? = some '~')) :
    ∃ m, parseMatcher rt (k ++ s₁ ++ .ofList op.text ++ s₂ ++ v) = .ok m ∧ m.key = k ∧
      m.op = op ∧ Unquoted (trim isSpace v.toList) m.value.toList := by
  have hbare : Bare isSpace k.toList := (trimSpace_eq_self_iff k).mp htrim
  have hne : k.toList ≠ [] := by
    intro hnil
    exact hk (String.toList_inj.mp hnil)
  have hline : '\n' ∉ s₂.toList ++ v.toList := by
    intro hmem
    rcases List.mem_append.mp hmem with hmem | hmem
    · rcases hs₂ _ hmem with h | h <;> exact absurd h (by decide)
    · exact hv hmem
  have htilde : op = .equal → (s₂.toList ++ v.toList).head? ≠ some '~' := by
    intro hop hhead
    cases hblank : s₂.toList with
    | nil =>
      rw [hblank] at hhead
      exact hexcept ⟨hop, String.toList_inj.mp hblank, hhead⟩
    | cons c t =>
      rw [hblank] at hhead hs₂
      obtain rfl : c = '~' := Option.some.inj hhead
      rcases hs₂ _ List.mem_cons_self with h | h <;> exact absurd h (by decide)
  have htext : (k ++ s₁ ++ .ofList op.text ++ s₂ ++ v).toList =
      k.toList ++ (s₁.toList ++ (op.text ++ (s₂.toList ++ v.toList))) := by simp
  have hwritten := written_of_foremost k.toList s₁.toList op _ htext hne hbare
    (fun hmem => (hchars _ hmem).2.2 rfl) (fun x hx => space_of_blank (hs₁ x hx))
    (fun t => foremost_of_no_operator hbare fun c hc => ⟨(hchars c hc).1, (hchars c hc).2.1⟩)
    htilde hline
  have hpad := trim_pad (p := isSpace) (b := [])
    (fun x hx => isSpace_of_mem (space_of_blank (hs₂ x hx))) v.toList (by simp)
  rw [List.append_nil] at hpad
  rw [unquoteMatcherValue_congr hpad] at hwritten
  obtain ⟨re, hparse⟩ := parseMatcher_ok_of_written hwritten hre
  refine ⟨_, hparse, String.ofList_toList, rfl, ?_⟩
  rw [String.toList_ofList]
  exact unquoted_unquoteMatcherValue v.toList

theorem parseMatcher_recovers_quoted :
    ∃ m, parseMatcher .core ("service.instance.id" ++ " " ++ .ofList Op.notRegex.text ++ "\t" ++
        "\"9.+\"") = .ok m ∧ m.key = "service.instance.id" ∧ m.op = .notRegex ∧
      Unquoted (trim isSpace "\"9.+\"".toList) m.value.toList :=
  parseMatcher_recovers .core "service.instance.id" " " "\t" "\"9.+\"" .notRegex (by decide)
    (List.all_iff_forall_prop.mp (by decide +kernel)) (by decide +kernel)
    (List.all_iff_forall_prop.mp (by decide +kernel))
    (List.all_iff_forall_prop.mp (by decide +kernel)) (by decide +kernel)
    (fun _ => ⟨_, rfl⟩) (by decide)

/-! ### Texts without a key -/

/-- No operator stands anywhere in the text. -/
def NoOperator (t : List Char) : Prop := ∀ op : Op, ¬ op.text <:+: t

/-- The text has no reading, or the first one names a regular expression that
does not compile. -/
def Refused (rt : Runtime) (t : List Char) : Prop :=
  (∀ key op value, ¬ Reading t key op value) ∨
    ∃ key op value, FirstReading t key op value ∧ op.isRegex = true ∧
      ∃ e, compileMatcherRE rt (unquoteMatcherValue value) = .error e

theorem parseMatcher_error_iff_refused (rt : Runtime) (s : String) :
    (∃ e, parseMatcher rt s = .error e) ↔ Refused rt (trim isSpace s.toList) := by
  rw [parseMatcher_error_iff]
  unfold Refused written
  rw [Option.map_eq_none_iff, split_eq_none_iff]
  apply or_congr_right
  constructor
  · rintro ⟨key, op, value, hwritten, hregex, hcompile⟩
    obtain ⟨⟨key', op', value'⟩, hsplit, hsame⟩ := Option.map_eq_some_iff.mp hwritten
    obtain ⟨-, rfl, rfl⟩ := Prod.mk.inj hsame |>.imp id Prod.mk.inj
    exact ⟨key', op', value', split_eq_some_iff_reading.mp hsplit, hregex, hcompile⟩
  · rintro ⟨key, op, value, hfirst, hregex, hcompile⟩
    exact ⟨_, op, _, by rw [split_eq_some_iff_reading.mpr hfirst]; rfl, hregex, hcompile⟩

theorem not_reading_of_noOperator {t : List Char} (h : NoOperator t) (key : List Char) (op : Op)
    (value : List Char) : ¬ Reading t key op value := by
  rintro ⟨-, -, rest, rfl, gap, gap', rfl, -⟩
  apply h op
  exact ⟨key ++ gap, gap' ++ value, by simp⟩

/-- On one line a text can be read as soon as an operator stands past its first
character. -/
theorem not_reading_iff_of_line {t : List Char} (hline : '\n' ∉ t) :
    (∀ key op value, ¬ Reading t key op value) ↔ NoOperator t.tail := by
  constructor
  · rintro h op ⟨a, b, hab⟩
    cases t with
    | nil =>
      obtain ⟨c, u, htext, -⟩ := op.head_text
      simp [htext] at hab
    | cons c t =>
      rw [List.tail_cons, List.append_assoc] at hab
      rw [← hab] at hline
      have hb : '\n' ∉ b := fun hmem => hline (by simp [hmem])
      have hsome := valueAfter_ne_none [] op (by simp) hb
      obtain ⟨⟨op', value⟩, hvalue⟩ := Option.ne_none_iff_exists'.mp hsome
      refine h (c :: a) op' value ⟨List.cons_ne_nil c a, ?_, op.text ++ b, ?_,
        valueAfter_eq_some_iff.mp hvalue⟩
      · intro hmem
        apply hline
        rcases List.mem_cons.mp hmem with heq | hmem
        · rw [heq]
          exact List.mem_cons_self
        · exact List.mem_cons_of_mem c (List.mem_append_left _ hmem)
      · rw [← hab]
        rfl
  · rintro h key op value ⟨hne, -, rest, rfl, gap, gap', rfl, -⟩
    obtain ⟨c, mid, rfl⟩ := List.exists_cons_of_ne_nil hne
    apply h op
    exact ⟨mid ++ gap, gap' ++ value, by simp⟩

/-- A text without an operator is refused. One that starts with an operator is
refused exactly when it has no reading with at least one character for the key,
or a first one whose regular expression does not compile; on one line, the former
means that no operator stands past its first character. -/
theorem keyless_refused_iff (rt : Runtime) :
    (∀ s : String, NoOperator s.toList → ∃ e, parseMatcher rt s = .error e) ∧
      ∀ (op : Op) (v ws ws' : String), (∀ c ∈ ws.toList, isSpace c = true) →
        (∀ c ∈ ws'.toList, isSpace c = true) →
        ((∃ e, parseMatcher rt (ws ++ .ofList op.text ++ v ++ ws') = .error e) ↔
            Refused rt (trim isSpace (op.text ++ v.toList))) ∧
          ('\n' ∉ v.toList →
            ((∀ key op' value, ¬ Reading (trim isSpace (op.text ++ v.toList)) key op' value) ↔
              NoOperator (trim isSpace (op.text ++ v.toList)).tail)) := by
  constructor
  · intro s hs
    rw [parseMatcher_error_iff_refused]
    obtain ⟨a, b, hsplit, -⟩ := exists_trim isSpace s.toList
    refine Or.inl (not_reading_of_noOperator fun op hinside => hs op (hinside.trans ?_))
    exact ⟨a, b, by rw [List.append_assoc]; exact hsplit.symm⟩
  · intro op v ws ws' hws hws'
    constructor
    · have hpad := trim_pad hws (op.text ++ v.toList) hws'
      have htext : (ws ++ .ofList op.text ++ v ++ ws').toList =
          ws.toList ++ ((op.text ++ v.toList) ++ ws'.toList) := by simp
      rw [parseMatcher_error_iff_refused, htext, hpad]
    · intro hv
      apply not_reading_iff_of_line
      obtain ⟨a, b, hsplit, -⟩ := exists_trim isSpace (op.text ++ v.toList)
      intro hmem
      have hin : '\n' ∈ op.text ++ v.toList := by
        rw [hsplit]
        exact List.mem_append_right _ (List.mem_append_left _ hmem)
      rcases List.mem_append.mp hin with hop | hin
      · cases op <;> simp [Op.text] at hop
      · exact hv hin

theorem keyless_refused_at_words :
    (∃ e, parseMatcher .core "noperator" = .error e) ∧
      (∃ e, parseMatcher .core (" " ++ .ofList Op.equal.text ++ "novaluekey" ++ "\t") = .error e) := by
  have hwords := keyless_refused_iff .core
  have hplain : NoOperator "noperator".toList := by
    intro op
    cases op <;> decide +kernel
  have htail : NoOperator (trim isSpace (Op.equal.text ++ "novaluekey".toList)).tail := by
    intro op
    cases op <;> decide +kernel
  have hkeyless := hwords.2 .equal "novaluekey" " " "\t" (List.all_eq_true.mp (by decide +kernel))
    (List.all_eq_true.mp (by decide +kernel))
  refine ⟨hwords.1 "noperator" hplain, hkeyless.1.mpr (Or.inl ?_)⟩
  exact (hkeyless.2 (by decide +kernel)).mpr htail

/-- The mark of an inequality is taken for the key. -/
theorem mark_taken_for_key :
    parseMatcher .core (.ofList Op.notEqual.text ++ "v") = .ok ⟨"!", .equal, "v", none⟩ := by
  rfl

end Grex.Matchers
