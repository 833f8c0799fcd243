import Grex.BareParams
import Grex.MatcherForm

/-!
How the page reads a matcher back. The script has the server's pattern over other classes of
white space and line ends, so the two agree on a text whose only space is blanks and tabs.
Writing such a text anew keeps what the server reads, unless a regular expression has to be
quoted that has a backslash or a quote in it.
-/

namespace Grex.ScriptMatcher

open GoText Regex Matchers BareParams

/-! ### The pattern of the script -/

/-- Any character but a line end of the script. -/
def scriptDot : CharSet :=
  ⟨true, [('\n', '\n'), ('\r', '\r'), ('\u2028', '\u2029')]⟩

/-- The tree of `OP_RE`. -/
def opRE : Node :=
  .cat (.look .beginText) (.cat (.group 1 (.cat (.chr scriptDot) (.star false (.chr scriptDot))))
    (.cat (.star true (.chr .scriptSpace)) (.cat
      (.group 2 (.alt (.cat (.chr (.single '!')) (.chr (.single '~')))
        (.alt (.cat (.chr (.single '=')) (.chr (.single '~')))
          (.alt (.cat (.chr (.single '!')) (.chr (.single '='))) (.chr (.single '='))))))
      (.cat (.star true (.chr .scriptSpace)) (.cat (.group 3 (.star true (.chr scriptDot)))
        (.look .endText))))))

/-- The three groups of a match of `OP_RE`. -/
def matchOp (s : List Char) : Option (List Char × Op × List Char) :=
  (find opRE s).bind fun m =>
    (Op.ofText (m.group 2)).map fun op => (m.group 1, op, m.group 3)

/-- The script's class for each of the server's. -/
def scriptClass (t : CharSet) : CharSet :=
  if t = .dot then scriptDot else if t = .space then .scriptSpace else t

theorem opRE_eq : opRE = .cat (.look .beginText)
    ((Node.cat (.group 1 (.cat (.chr .dot) (.star false (.chr .dot))))
      (afterSpace (.cat opTree (afterSpace valueTree)))).mapSets scriptClass) := by
  decide +kernel

/-- The only white space is blanks and tabs. -/
def Plain (s : List Char) : Prop :=
  ∀ c ∈ s, isSpace c = true ∨ isScriptSpace c = true → c = ' ' ∨ c = '\t'

instance (s : List Char) : Decidable (Plain s) :=
  decidable_of_iff (s.all fun c => decide (isSpace c = true ∨ isScriptSpace c = true →
    c = ' ' ∨ c = '\t')) List.all_iff_forall_prop

section Plain

variable {s t : List Char} {c : Char}

theorem Plain.subset (hs : Plain s) (hsub : t ⊆ s) : Plain t := fun c hc => hs c (hsub hc)

theorem Plain.trim (hs : Plain s) : Plain (trim isSpace s) := hs.subset fun _ => mem_of_mem_trim

theorem plain_append : Plain (s ++ t) ↔ Plain s ∧ Plain t := List.forall_mem_append

theorem Plain.mem_space (hs : Plain s) (hc : c ∈ s) (hspace : isSpace c = true) :
    CharSet.space.mem c = true :=
  space_of_blank (hs c hc (.inl hspace))

theorem Plain.line (hs : Plain s) : '\n' ∉ s := by
  intro hmem
  exact absurd (hs '\n' hmem (.inl (by decide))) (by decide)

theorem isScriptSpace_of_range {low high : Char}
    (hrange : ∃ r ∈ CharSet.scriptSpace.ranges, r.1 ≤ low ∧ high ≤ r.2) (hlow : low ≤ c)
    (hhigh : c ≤ high) : isScriptSpace c = true := by
  obtain ⟨r, hr, hle, hge⟩ := hrange
  have hin : (CharSet.scriptSpace.ranges.any fun r => decide (r.1 ≤ c ∧ c ≤ r.2)) = true :=
    List.any_eq_true.mpr ⟨r, hr, decide_eq_true ⟨hle.trans hlow, hhigh.trans hge⟩⟩
  rw [isScriptSpace, CharSet.mem, hin]
  rfl

/-- What either pattern treats as space or as a line end is space for the script. -/
theorem isScriptSpace_of_mem (h : CharSet.space.mem c = true ∨ CharSet.dot.mem c = false ∨
    scriptDot.mem c = false) : isScriptSpace c = true := by
  rcases h with hspace | hline | hline
  · simp only [CharSet.mem, CharSet.space, List.any_cons, List.any_nil, Bool.or_false,
      Bool.bne_false, Bool.or_eq_true, decide_eq_true_eq] at hspace
    rcases hspace with h | h | h
    · exact isScriptSpace_of_range ⟨('\t', '\r'), by decide⟩ h.1 h.2
    · exact isScriptSpace_of_range ⟨('\t', '\r'), by decide⟩ h.1 h.2
    · exact isScriptSpace_of_range ⟨(' ', ' '), by decide⟩ h.1 h.2
  · rw [CharSet.mem_dot, Bool.not_eq_false', decide_eq_true_eq] at hline
    rw [hline]
    decide
  · simp only [CharSet.mem, scriptDot, List.any_cons, List.any_nil, Bool.or_false, Bool.bne_true,
      Bool.not_eq_false', Bool.or_eq_true, decide_eq_true_eq] at hline
    rcases hline with h | h | h
    · exact isScriptSpace_of_range ⟨('\t', '\r'), by decide⟩ h.1 h.2
    · exact isScriptSpace_of_range ⟨('\t', '\r'), by decide⟩ h.1 h.2
    · exact isScriptSpace_of_range ⟨('\u2028', '\u2029'), by decide⟩ h.1 h.2

theorem sameOn_of_plain (hs : Plain s) : SameOn scriptClass s := by
  intro c hc t
  unfold scriptClass
  by_cases hspace : isScriptSpace c = true
  · split_ifs with hdot hblank
    · rcases hs c hc (.inr hspace) with rfl | rfl <;> (rw [hdot]; decide)
    · rcases hs c hc (.inr hspace) with rfl | rfl <;> (rw [hblank]; decide)
    · rfl
  · split_ifs with hdot hblank
    · have hscript := mt (fun h => isScriptSpace_of_mem (c := c) (.inr (.inr h))) hspace
      have hserver := mt (fun h => isScriptSpace_of_mem (c := c) (.inr (.inl h))) hspace
      rw [hdot, (Bool.not_eq_false _).mp hscript, (Bool.not_eq_false _).mp hserver]
    · have hserver := mt (fun h => isScriptSpace_of_mem (c := c) (.inl h)) hspace
      have hscript : CharSet.scriptSpace.mem c = false := (Bool.not_eq_true _).mp hspace
      rw [hblank, hscript, (Bool.not_eq_true _).mp hserver]
    · rfl

/-- On plain text the script splits a matcher where the server does. -/
theorem matchOp_eq_split (hs : Plain s) : matchOp s = split s := by
  rw [← findSubmatch_eq_split]
  unfold matchOp findSubmatch
  rw [opRE_eq, matcherRE_eq, find_beginText_mapSets _ (sameOn_of_plain hs)]

theorem trim_script (hs : Plain s) : GoText.trim isScriptSpace s = GoText.trim isSpace s := by
  refine trim_congr fun c hc => Bool.eq_iff_iff.mpr ⟨fun h => ?_, fun h => ?_⟩
  · rcases hs c hc (.inr h) with rfl | rfl <;> decide
  · rcases hs c hc (.inl h) with rfl | rfl <;> decide

end Plain

/-! ### Writing a matcher anew -/

/-- A match of `OP_RE` as the page writes it. -/
def reformat (m : List Char × Op × List Char) : String :=
  formatMatcher (.ofList (trim isScriptSpace m.1)) m.2.1 (.ofList m.2.2)

/-- The page leaves the value as it is, or puts quotes around it that the server takes off. -/
def Kept (op : Op) (v : List Char) : Prop :=
  formatValue op v = v ∨ trim isSpace v = v ∧ '\\' ∉ v ∧ '"' ∉ v

instance (op : Op) (v : List Char) : Decidable (Kept op v) :=
  inferInstanceAs (Decidable (formatValue op v = v ∨ trim isSpace v = v ∧ '\\' ∉ v ∧ '"' ∉ v))

/-- A complete matcher that the page and the server read alike. -/
structure Sound (s : List Char) : Prop where
  plain : Plain s
  head : ∀ c, s.head? = some c → isSpace c = false
  read : ∃ key op value, split s = some (key, op, value) ∧ Kept op value

/-- A text that is a sound matcher as soon as it is complete. -/
structure Legible (s : List Char) : Prop where
  plain : Plain s
  kept : ∀ key op value, split (trim isSpace s) = some (key, op, value) → Kept op value

instance (s : List Char) : Decidable (Sound s) :=
  decidable_of_iff (Plain s ∧ s.head?.any isSpace = false ∧
      (split s).any (fun found => decide (Kept found.2.1 found.2.2)) = true) <| by
    constructor
    · rintro ⟨hplain, hhead, hread⟩
      obtain ⟨⟨key, op, value⟩, hsplit, hkept⟩ := (Option.any_eq_true _ _).mp hread
      refine ⟨hplain, fun c hc => ?_, key, op, value, hsplit, of_decide_eq_true hkept⟩
      rwa [hc] at hhead
    · rintro ⟨hplain, hhead, key, op, value, hsplit, hkept⟩
      refine ⟨hplain, ?_, (Option.any_eq_true _ _).mpr ⟨_, hsplit, decide_eq_true hkept⟩⟩
      cases hc : s.head? with
      | none => rfl
      | some c => exact hhead c hc

instance (s : List Char) : Decidable (Legible s) :=
  decidable_of_iff (Plain s ∧ (split (trim isSpace s)).all
      (fun found => decide (Kept found.2.1 found.2.2)) = true) <| by
    constructor
    · rintro ⟨hplain, hkept⟩
      refine ⟨hplain, fun key op value hsplit => ?_⟩
      rw [hsplit] at hkept
      exact of_decide_eq_true hkept
    · rintro ⟨hplain, hkept⟩
      refine ⟨hplain, ?_⟩
      cases hsplit : split (trim isSpace s) with
      | none => rfl
      | some found => exact decide_eq_true (hkept _ _ _ hsplit)

/-- A text put together from a key, an operator and what follows it, as the pattern takes it
apart. -/
structure Joined (s key gap : List Char) (op : Op) (r : List Char) : Prop extends PlainKey key where
  text : s = key ++ (gap ++ (op.text ++ r))
  gap_space : ∀ x ∈ gap, CharSet.space.mem x = true
  end_mark : key.tail.getLast? = some '!' →
    (gap ++ op.text).head? ≠ some '=' ∧ (gap ++ op.text).head? ≠ some '~'
  tilde : op = .equal → r.head? ≠ some '~'
  rest_line : '\n' ∉ r

section Joined

variable {s key gap r value : List Char} {op : Op}

theorem head?_gap_op (gap : List Char) (op : Op) (t : List Char) :
    (gap ++ (op.text ++ t)).head? = (gap ++ op.text).head? := by
  rw [← List.append_assoc, List.head?_append_of_ne_nil]
  simp [op.text_ne_nil]

theorem Joined.key_subset (h : Joined s key gap op r) : key ⊆ s := by
  rw [h.text]
  exact List.subset_append_left _ _

theorem Joined.rest_subset (h : Joined s key gap op r) : r ⊆ s := by
  rw [h.text]
  intro c hc
  simp only [List.mem_append]
  exact .inr (.inr (.inr hc))

theorem Joined.foremost (h : Joined s key gap op r) (t : List Char) :
    Foremost key.tail (gap ++ (op.text ++ t)) := by
  refine foremost_of_plain (not_space_of_getLast?_tail h.bare) h.equals h.mark fun hlast => ?_
  rw [head?_gap_op]
  exact h.end_mark hlast

theorem Joined.split (h : Joined s key gap op r) :
    split s = some (key, op, r.dropWhile CharSet.space.mem) := by
  obtain ⟨c, mid, rfl⟩ := List.exists_cons_of_ne_nil h.ne_nil
  refine split_eq_some_iff.mpr ⟨c, mid, _, rfl, h.text, h.line, h.foremost r, ?_⟩
  rw [valueAfter_op op r h.gap_space h.tilde, valueOf_of_line h.rest_line]
  rfl

theorem Joined.written {s : String} (h : Joined s.toList key gap op r) :
    written s = some (key, op, unquoteMatcherValue r) :=
  written_of_foremost key gap op r h.text h.ne_nil h.bare h.line h.gap_space h.foremost h.tilde
    h.rest_line

/-- Another end leaves the key and the operator. -/
theorem Joined.withRest (h : Joined s key gap op r) {r' : List Char}
    (htilde : op = .equal → r'.head? ≠ some '~') (hline : '\n' ∉ r') :
    Joined (key ++ (gap ++ (op.text ++ r'))) key gap op r' :=
  { h with text := rfl, tilde := htilde, rest_line := hline }

/-- Every split is of this form. -/
theorem joined_of_split (hplain : Plain s) (hhead : ∀ c, s.head? = some c → isSpace c = false)
    (hsplit : split s = some (key, op, value)) :
    ∃ gap gap', Joined s key gap op (gap' ++ value) ∧ (∀ x ∈ gap', CharSet.space.mem x = true) ∧
      ∀ x, value.head? = some x → CharSet.space.mem x = false := by
  obtain ⟨c, mid, rest, rfl, rfl, -, hfirst, hvalue⟩ := split_eq_some_iff.mp hsplit
  obtain ⟨gap, gap', rfl, hgap, hgap', hstart, htilde, -⟩ := valueAfter_eq_some_iff.mp hvalue
  have hbare : Bare isSpace (c :: mid) :=
    { head := fun x hx => hhead x hx
      last := fun x hx => by
        by_contra hspace
        rcases List.eq_nil_or_concat mid with rfl | ⟨front, y, rfl⟩
        · exact hspace (hhead x hx)
        · -- a blank at the end of the key would have been read as the gap
          obtain rfl : y = x := by
            rw [List.concat_eq_append, ← List.cons_append, List.getLast?_concat] at hx
            exact Option.some.inj hx
          have hblank : CharSet.space.mem y = true :=
            hplain.mem_space (by simp) (by simpa using hspace)
          have hnone := hfirst front [y] (List.concat_eq_append ..) (List.cons_ne_nil y [])
          unfold valueAfter at hnone hvalue
          rw [List.singleton_append, List.dropWhile_cons_of_pos hblank, hvalue] at hnone
          cases hnone }
  have hline := (plain_append.mp hplain).2.line
  obtain ⟨hkey, hend⟩ := plainKey_of_split hsplit hbare hline
  rw [head?_gap_op] at hend
  have hrest : '\n' ∉ gap' ++ value := by
    intro hmem
    exact hline (List.mem_append_right gap (List.mem_append_right op.text hmem))
  have hjoined : Joined _ (c :: mid) gap op (gap' ++ value) :=
    { toPlainKey := hkey
      text := rfl
      gap_space := hgap
      end_mark := hend
      tilde := htilde
      rest_line := hrest }
  exact ⟨gap, gap', hjoined, hgap', hstart⟩

theorem Joined.split_trim (h : Joined s key gap op r) (hr : Plain r) :
    Matchers.split (trim isSpace s) = some (key, op, trim isSpace r) := by
  have hbefore : Bare isSpace (key ++ (gap ++ op.text)) :=
    h.bare.append h.ne_nil gap op.bare_text op.text_ne_nil
  obtain ⟨t, b, rfl, -, htrim, hsame⟩ := trim_append_of_bare hbefore (by simp [h.ne_nil]) r
  have htext : trim isSpace s = key ++ (gap ++ (op.text ++ t)) := by
    rw [h.text, ← List.append_assoc gap, ← List.append_assoc key, htrim]
    simp only [List.append_assoc]
  have htilde : op = .equal → t.head? ≠ some '~' := by
    intro hop hhead
    exact h.tilde hop (by rw [List.head?_append, hhead]; rfl)
  have hline : '\n' ∉ t := fun hmem => h.rest_line (List.mem_append_left b hmem)
  have hbare : Bare isSpace (t.dropWhile CharSet.space.mem) :=
    { head := fun x hx => by
        by_contra hspace
        have hmem := (List.dropWhile_sublist _).subset (List.mem_of_mem_head? hx)
        have hblank := hr.mem_space (List.mem_append_left b hmem) (by simpa using hspace)
        rw [head_dropWhile x hx] at hblank
        cases hblank
      last := fun x hx => by
        apply (bare_trim isSpace s).last x
        obtain ⟨front, hfront⟩ := List.dropWhile_suffix CharSet.space.mem (l := t)
        have hne : t.dropWhile CharSet.space.mem ≠ [] := by
          intro hnil
          rw [hnil] at hx
          cases hx
        rw [htext, ← hfront]
        simpa only [← List.append_assoc, List.getLast?_append_of_ne_nil _ hne] using hx }
  rw [htext, (h.withRest htilde hline).split, ← hsame, ← trim_eq_self hbare,
    trim_dropWhile fun x => isSpace_of_mem]

/-- Space before a value does not count. -/
theorem trim_gap (hgap : ∀ x ∈ gap, CharSet.space.mem x = true) (value : List Char) :
    trim isSpace (gap ++ value) = trim isSpace value := by
  have hpad := trim_pad (b := []) (fun x hx => isSpace_of_mem (hgap x hx)) value (by simp)
  rwa [List.append_nil] at hpad

end Joined

section Values

variable {op : Op} {v : List Char}

/-- The page puts quotes around the value. -/
def Quoted (op : Op) (v : List Char) : Prop :=
  op.isRegex ∧ v ≠ [] ∧ ¬ (v.head? = some '\'' ∨ v.head? = some '"') ∧ v.any isScriptMark

theorem formatValue_cases (op : Op) (v : List Char) : ¬ Quoted op v ∧ formatValue op v = v ∨
    Quoted op v ∧ formatValue op v = '"' :: (escapeQuoted v ++ ['"']) := by
  by_cases h : Quoted op v
  · exact .inr ⟨h, if_pos h⟩
  · exact .inl ⟨h, if_neg h⟩

theorem not_quoted_of_eq (h : formatValue op v = v) : ¬ Quoted op v := by
  rcases formatValue_cases op v with ⟨hnot, -⟩ | ⟨-, hquoted⟩
  · exact hnot
  · rw [hquoted] at h
    have hlength := congrArg List.length h
    unfold escapeQuoted at hlength
    simp only [List.length_cons, List.length_append, length_escapeChar] at hlength
    omega

/-- What has been quoted is not quoted again. -/
theorem formatValue_formatValue (op : Op) (v : List Char) :
    formatValue op (formatValue op v) = formatValue op v := by
  rcases formatValue_cases op v with ⟨-, h⟩ | ⟨-, h⟩
  · rw [h, h]
  · rw [h]
    exact if_neg fun hquote => hquote.2.2.1 (.inr rfl)

theorem unquote_kept (h : Kept op v) :
    unquoteMatcherValue (' ' :: formatValue op v) = unquoteMatcherValue v := by
  rw [unquoteMatcherValue_congr (trim_cons_blank _)]
  rcases h with hsame | ⟨htrim, hslash, hquote⟩
  · rw [hsame]
  · rcases formatValue_cases op v with ⟨-, hsame⟩ | ⟨⟨-, -, hhead, -⟩, hquoted⟩
    · rw [hsame]
    · have hbare : trim isSpace ('"' :: (v ++ ['"'])) = '"' :: (v ++ ['"']) := by
        apply trim_eq_self
        refine bare_of_ends rfl ?_
        rw [← List.cons_append, List.getLast?_concat]
        decide
      rw [hquoted, escapeQuoted_eq_self_iff.mpr ⟨hslash, hquote⟩,
        unquoteMatcherValue_of_quotes (.inl rfl) hbare, unquoteMatcherValue_of_no_quotes, htrim]
      intro q t hq hv
      rw [htrim] at hv
      rcases hq with rfl | rfl
      · exact hhead (.inr (by rw [hv]; rfl))
      · exact hhead (.inl (by rw [hv]; rfl))

theorem head?_trim {x : Char} (hx : v.head? = some x) (hspace : isSpace x = false)
    (hne : trim isSpace v ≠ []) : (trim isSpace v).head? = some x := by
  obtain ⟨a, b, hv, ha, -⟩ := exists_trim isSpace v
  cases a with
  | nil =>
    rw [hv, List.nil_append, List.head?_append_of_ne_nil _ hne] at hx
    exact hx
  | cons y a =>
    rw [hv] at hx
    obtain rfl : y = x := Option.some.inj hx
    rw [ha y List.mem_cons_self] at hspace
    cases hspace

theorem kept_trim (h : Kept op v) : Kept op (trim isSpace v) := by
  rcases h with hsame | h
  · rcases formatValue_cases op (trim isSpace v) with ⟨-, htrim⟩ | ⟨⟨hop, hne, hhead, hmark⟩, -⟩
    · exact .inl htrim
    · -- space around a value only adds reasons to quote it
      refine absurd ⟨hop, ?_, ?_, ?_⟩ (not_quoted_of_eq hsame)
      · rintro rfl
        exact hne rfl
      · rintro (hquote | hquote)
        · exact hhead (.inl (head?_trim hquote (by decide) hne))
        · exact hhead (.inr (head?_trim hquote (by decide) hne))
      · obtain ⟨c, hc, hcmark⟩ := List.any_eq_true.mp hmark
        exact List.any_eq_true.mpr ⟨c, mem_of_mem_trim hc, hcmark⟩
  · rw [h.1]
    exact .inr h

theorem mem_formatValue {c : Char} (hc : c ∈ formatValue op v) : c = '"' ∨ c = '\\' ∨ c ∈ v := by
  rcases formatValue_cases op v with ⟨-, h⟩ | ⟨-, h⟩
  · rw [h] at hc
    exact .inr (.inr hc)
  · rw [h] at hc
    simp only [List.mem_cons, List.mem_append, List.not_mem_nil, or_false] at hc
    rcases hc with hquote | hin | hquote
    · exact .inl hquote
    · rcases mem_escapeChar hin with hslash | hin
      · exact .inr (.inl hslash)
      · exact .inr (mem_escapeChar hin)
    · exact .inl hquote

/-- A value that does not start with space does not either once it is formatted. -/
theorem head_formatValue (h : ∀ x, v.head? = some x → CharSet.space.mem x = false) (x : Char)
    (hx : (formatValue op v).head? = some x) : CharSet.space.mem x = false := by
  rcases formatValue_cases op v with ⟨-, hsame⟩ | ⟨-, hquoted⟩
  · rw [hsame] at hx
    exact h x hx
  · rw [hquoted] at hx
    obtain rfl : '"' = x := Option.some.inj hx
    decide

end Values

section Sound

variable {s key value : List Char} {op : Op}

theorem Sound.kept (h : Sound s) (hsplit : split s = some (key, op, value)) : Kept op value := by
  obtain ⟨key', op', value', hread, hkept⟩ := h.read
  rw [hsplit] at hread
  obtain ⟨-, rfl, rfl⟩ := Prod.mk.inj (Option.some.inj hread) |>.imp id Prod.mk.inj
  exact hkept

theorem Sound.legible (h : Sound s) : Legible s where
  plain := h.plain
  kept := by
    obtain ⟨key, op, value, hsplit, hkept⟩ := h.read
    obtain ⟨gap, gap', hjoined, hgap', -⟩ := joined_of_split h.plain h.head hsplit
    have hrest : Plain (gap' ++ value) := h.plain.subset hjoined.rest_subset
    intro key' op' value' hread
    rw [hjoined.split_trim hrest, trim_gap hgap'] at hread
    obtain ⟨-, rfl, rfl⟩ := Prod.mk.inj (Option.some.inj hread) |>.imp id Prod.mk.inj
    exact kept_trim hkept

/-- A legible text is sound between its ends once it is complete. -/
theorem Legible.sound_trim (h : Legible s)
    (hsplit : split (trim isSpace s) = some (key, op, value)) : Sound (trim isSpace s) where
  plain := h.plain.trim
  head := (bare_trim isSpace s).head
  read := ⟨key, op, value, hsplit, h.kept key op value hsplit⟩

theorem not_space_of_mem_op (op : Op) :
    ∀ c ∈ op.text, ¬ (isSpace c = true ∨ isScriptSpace c = true) := by
  cases op <;> exact List.all_iff_forall_prop.mp (by decide)

theorem joined_reformat (h : Sound s) (hsplit : split s = some (key, op, value)) :
    Joined (reformat (key, op, value)).toList key [' '] op (' ' :: formatValue op value) := by
  obtain ⟨gap, gap', hjoined, -⟩ := joined_of_split h.plain h.head hsplit
  have hkey : trim isScriptSpace key = key := by
    rw [trim_script (h.plain.subset hjoined.key_subset), trim_eq_self hjoined.bare]
  have hvalue : '\n' ∉ value := fun hmem => hjoined.rest_line (List.mem_append_right gap' hmem)
  have hline : '\n' ∉ ' ' :: formatValue op value := by
    intro hmem
    rcases List.mem_cons.mp hmem with hblank | hmem
    · exact absurd hblank (by decide)
    · exact newline_not_mem_formatValue hvalue hmem
  refine { hjoined.toPlainKey with
    text := ?_, gap_space := List.forall_mem_singleton.mpr rfl, end_mark := ?_, tilde := ?_,
    rest_line := hline }
  · rw [reformat, toList_formatMatcher, String.toList_ofList, String.toList_ofList, hkey]
  · exact fun _ => ⟨by simp, by simp⟩
  · exact fun _ => by simp

/-- Written anew, a sound matcher is sound and asks the server for the same. -/
theorem Sound.reformat {s : String} (h : Sound s.toList)
    (hsplit : split s.toList = some (key, op, value)) :
    Sound (reformat (key, op, value)).toList ∧
      written (ScriptMatcher.reformat (key, op, value)) = written s := by
  obtain ⟨gap, gap', hjoined, hgap', hstart⟩ := joined_of_split h.plain h.head hsplit
  have hnew := joined_reformat h hsplit
  have hkept := h.kept hsplit
  refine ⟨⟨?_, ?_, key, op, formatValue op value, ?_, .inl (formatValue_formatValue op value)⟩, ?_⟩
  · intro c hc hspace
    rw [hnew.text] at hc
    simp only [List.mem_append, List.mem_cons, List.not_mem_nil, or_false] at hc
    rcases hc with hkey | rfl | hop | rfl | hvalue
    · exact h.plain c (hjoined.key_subset hkey) hspace
    · exact .inl rfl
    · exact absurd hspace (not_space_of_mem_op op c hop)
    · exact .inl rfl
    · rcases mem_formatValue hvalue with rfl | rfl | hvalue
      · exact absurd hspace (by decide)
      · exact absurd hspace (by decide)
      · exact h.plain c (hjoined.rest_subset (List.mem_append_right gap' hvalue)) hspace
  · intro c hc
    rw [hnew.text, List.head?_append_of_ne_nil _ hnew.ne_nil] at hc
    exact hnew.bare.head c hc
  · rw [hnew.split, List.dropWhile_cons_of_pos (by decide),
      dropWhile_eq_self_of_head (head_formatValue hstart)]
  · rw [hnew.written, hjoined.written, unquote_kept hkept,
      unquoteMatcherValue_congr (trim_gap hgap' value)]

end Sound

end Grex.ScriptMatcher
