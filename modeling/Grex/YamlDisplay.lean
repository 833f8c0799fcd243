import Grex.Lines
import Mathlib.Data.List.TakeWhile
import Mathlib.Data.Nat.GCD.Basic

/-!
How a configuration is prepared for display. Tabs become spaces up to the next even
column, and where the indentations have a large even unit in common they are divided so
that the unit becomes two. The unit is the greatest common divisor over the lines that
are neither blank nor comments, and every line that is not blank is divided.
-/

namespace Grex.YamlDisplay

open Lines

abbrev Bytes := List UInt8

def newline : UInt8 := 0x0A

def tab : UInt8 := 0x09

def space : UInt8 := 0x20

def hashSign : UInt8 := 0x23

/-! ### Runes -/

/-- What a `range` loop over a string meets, `skip` bytes from here: a byte that begins no
valid encoding is met alone, as U+FFFD. -/
def runesFrom : ℕ → Bytes → List Char
  | _, [] => []
  | skip + 1, _ :: s => runesFrom skip s
  | 0, b :: s =>
      match (b :: s).toByteArray.utf8DecodeChar? 0 with
      | some r => r :: runesFrom (r.utf8Size - 1) s
      | none => '\uFFFD' :: runesFrom 0 s

/-- The bytes of `WriteRune`. -/
def writeRune (r : Char) : Bytes := String.utf8EncodeChar r

/-- Every byte of a longer encoding is at least 0x80. -/
theorem toNat_of_mem_writeRune {r : Char} {b : UInt8} (hb : b ∈ writeRune r) :
    (writeRune r = [b] ∧ r.toNat = b.toNat) ∨ 128 ≤ b.toNat := by
  have hlow : r.val.toNat = r.toNat := rfl
  unfold writeRune String.utf8EncodeChar at hb ⊢
  simp only [hlow] at hb ⊢
  split_ifs at hb ⊢ with h1 h2 h3
  · left
    rw [List.mem_singleton.mp hb, UInt8.toNat_ofNat']
    exact ⟨rfl, by omega⟩
  · right
    simp only [List.mem_cons, List.not_mem_nil, or_false] at hb
    rcases hb with rfl | rfl <;> rw [UInt8.toNat_ofNat'] <;> omega
  · right
    simp only [List.mem_cons, List.not_mem_nil, or_false] at hb
    rcases hb with rfl | rfl | rfl <;> rw [UInt8.toNat_ofNat'] <;> omega
  · right
    simp only [List.mem_cons, List.not_mem_nil, or_false] at hb
    rcases hb with rfl | rfl | rfl | rfl <;> rw [UInt8.toNat_ofNat'] <;> omega

/-- A byte below 0x80 is written for the character of its code only. -/
theorem eq_of_mem_writeRune {r c : Char} {b : UInt8} (hcode : c.toNat = b.toNat)
    (hlow : b.toNat < 128) (hb : b ∈ writeRune r) : r = c := by
  rcases toNat_of_mem_writeRune hb with ⟨-, hr⟩ | hhigh
  · exact Char.toNat_inj.mp (hr.trans hcode.symm)
  · omega

/-- A character written with one byte is met only where the text has that byte. -/
theorem mem_of_mem_runesFrom {c : Char} {b : UInt8} (hc : writeRune c = [b]) (hne : c ≠ '\uFFFD')
    {skip : ℕ} {s : Bytes} (h : c ∈ runesFrom skip s) : b ∈ s := by
  induction s generalizing skip with
  | nil =>
    cases skip <;> cases h
  | cons a s ih =>
    cases skip with
    | succ skip => exact List.mem_cons_of_mem a (ih h)
    | zero =>
      simp only [runesFrom] at h
      split at h
      · rename_i r hr
        rcases List.mem_cons.mp h with rfl | htail
        · obtain ⟨l, hl⟩ := ByteArray.exists_of_utf8DecodeChar?_eq_some hr
          have hbytes := congrArg (fun bytes => bytes.data.toList) hl
          simp only [ByteArray.data_append, Array.toList_append, List.toList_data_toByteArray,
            show String.utf8EncodeChar c = [b] from hc, List.singleton_append] at hbytes
          rw [(List.cons.inj hbytes).1]
          exact List.mem_cons_self
        · exact List.mem_cons_of_mem a (ih htail)
      · rcases List.mem_cons.mp h with rfl | htail
        · exact absurd rfl hne
        · exact List.mem_cons_of_mem a (ih htail)

/-! ### The display -/

/-- The loop over the runes of a line, from a column on: tab stops are two columns apart. -/
def expandRunes (col : ℕ) : List Char → Bytes
  | [] => []
  | r :: rs =>
      if r = '\t' then
        List.replicate (2 - col % 2) space ++ expandRunes (col + (2 - col % 2)) rs
      else writeRune r ++ expandRunes (col + 1) rs

def expandTabs (line : Bytes) : Bytes :=
  if tab ∈ line then expandRunes 0 (runesFrom 0 line) else line

/-- `strings.TrimLeft(line, " ")`. -/
def trimLeft (line : Bytes) : Bytes := line.dropWhile fun b => b = space

/-- The number of leading spaces. -/
def indent (line : Bytes) : ℕ := line.length - (trimLeft line).length

/-- Its arguments are lengths, so the sign needs no correction. -/
def gcd (a b : ℕ) : ℕ :=
  if b = 0 then a else gcd b (a % b)
termination_by b
decreasing_by exact Nat.mod_lt a (by omega)

/-- One round of the loop that looks for the unit. -/
def unitStep (unit : ℕ) (line : Bytes) : ℕ :=
  if trimLeft line = [] ∨ (trimLeft line).head? = some hashSign then unit
  else if indent line = 0 then unit
  else if unit = 0 then indent line
  else gcd unit (indent line)

def indentUnit (lines : List Bytes) : ℕ := lines.foldl unitStep 0

def rescale (scale : ℕ) (line : Bytes) : Bytes :=
  if trimLeft line = [] then line
  else if indent line = 0 then line
  else List.replicate (indent line / scale) space ++ trimLeft line

/-- Only a larger unit is collapsed, and only an even one. -/
def collapse (lines : List Bytes) : List Bytes :=
  let unit := indentUnit lines
  if 4 ≤ unit ∧ unit % 2 = 0 then lines.map (rescale (unit / 2)) else lines

def yamlDisplay (s : Bytes) : Bytes :=
  if s = [] then s else unlines newline (collapse ((lines newline s).map expandTabs))

/-! ### Tabs -/

theorem notMem_expandRunes (col : ℕ) (rs : List Char) : tab ∉ expandRunes col rs := by
  induction rs generalizing col with
  | nil => exact List.not_mem_nil
  | cons r rs ih =>
    unfold expandRunes
    split_ifs with hr
    · rw [List.mem_append, not_or]
      refine ⟨fun h => ?_, ih _⟩
      exact absurd (List.eq_of_mem_replicate h) (by decide)
    · rw [List.mem_append, not_or]
      exact ⟨fun h => hr (eq_of_mem_writeRune rfl (by decide) h), ih _⟩

theorem notMem_expandTabs (line : Bytes) : tab ∉ expandTabs line := by
  unfold expandTabs
  split_ifs with h
  · exact notMem_expandRunes 0 _
  · exact h

theorem expandTabs_of_notMem {line : Bytes} (h : tab ∉ line) : expandTabs line = line := if_neg h

/-- The runes of a line that are neither tabs nor spaces. -/
def inked (rs : List Char) : List Char := rs.filter fun r => r ≠ '\t' ∧ r ≠ ' '

/-- Between the spaces the runes are written as they are met. -/
theorem filter_expandRunes (col : ℕ) (rs : List Char) :
    (expandRunes col rs).filter (· ≠ space) = (inked rs).flatMap writeRune := by
  induction rs generalizing col with
  | nil => rfl
  | cons r rs ih =>
    unfold expandRunes
    split_ifs with htab
    · have hblank : (List.replicate (2 - col % 2) space).filter (· ≠ space) = [] := by
        simp
      have hskip : inked (r :: rs) = inked rs := by simp [inked, htab]
      rw [List.filter_append, hblank, ih, hskip, List.nil_append]
    · rw [List.filter_append, ih]
      by_cases hspace : r = ' '
      · have hblank : (writeRune r).filter (· ≠ space) = [] := by
          rw [hspace]
          decide
        have hskip : inked (r :: rs) = inked rs := by simp [inked, hspace]
        rw [hblank, hskip, List.nil_append]
      · have hall : (writeRune r).filter (· ≠ space) = writeRune r := by
          refine List.filter_eq_self.mpr fun b hb => decide_eq_true ?_
          rintro rfl
          exact hspace (eq_of_mem_writeRune rfl (by decide) hb)
        have hkeep : inked (r :: rs) = r :: inked rs := by simp [inked, htab, hspace]
        rw [hall, hkeep, List.flatMap_cons]

/-- What the expansion keeps of a line: all of it where it has no tab, and else the runes
that are neither tabs nor spaces, in their order. -/
def Keeps (line expanded : Bytes) : Prop :=
  if tab ∈ line then
    expanded.filter (· ≠ space) = (inked (runesFrom 0 line)).flatMap writeRune
  else expanded = line

theorem keeps_expandTabs (line : Bytes) : Keeps line (expandTabs line) := by
  unfold Keeps expandTabs
  split_ifs
  · exact filter_expandRunes 0 _
  · rfl

theorem newline_of_mem_expandRunes {col : ℕ} {rs : List Char} (h : newline ∈ expandRunes col rs) :
    '\n' ∈ rs := by
  induction rs generalizing col with
  | nil => cases h
  | cons r rs ih =>
    unfold expandRunes at h
    split_ifs at h with hr
    · rcases List.mem_append.mp h with h | h
      · exact absurd (List.eq_of_mem_replicate h) (by decide)
      · exact List.mem_cons_of_mem r (ih h)
    · rcases List.mem_append.mp h with h | h
      · rw [eq_of_mem_writeRune (c := '\n') rfl (by decide) h]
        exact List.mem_cons_self
      · exact List.mem_cons_of_mem r (ih h)

theorem newline_notMem_expandTabs {line : Bytes} (h : newline ∉ line) :
    newline ∉ expandTabs line := by
  unfold expandTabs
  split_ifs with htab
  · intro hmem
    exact h (mem_of_mem_runesFrom rfl (by decide) (newline_of_mem_expandRunes hmem))
  · exact h

/-! ### Indentation -/

theorem line_eq (line : Bytes) : List.replicate (indent line) space ++ trimLeft line = line := by
  have hsplit : line.takeWhile (fun b => b = space) ++ trimLeft line = line :=
    List.takeWhile_append_dropWhile
  have hlength : indent line = (line.takeWhile fun b => b = space).length := by
    have hsum := congrArg List.length hsplit
    rw [List.length_append] at hsum
    unfold indent
    omega
  have hspaces : line.takeWhile (fun b => b = space) = List.replicate (indent line) space := by
    rw [hlength]
    refine List.eq_replicate_of_mem fun b hb => ?_
    have hspace := List.mem_takeWhile_imp hb
    exact of_decide_eq_true hspace
  rw [← hspaces]
  exact hsplit

theorem head_trimLeft (line : Bytes) : (trimLeft line).head? ≠ some space := by
  intro h
  have hhead := List.head?_dropWhile_not (fun b => decide (b = space)) line
  unfold trimLeft at h
  rw [h] at hhead
  simp at hhead

theorem trimLeft_pad (n : ℕ) {text : Bytes} (h : text.head? ≠ some space) :
    trimLeft (List.replicate n space ++ text) = text := by
  unfold trimLeft
  rw [List.dropWhile_append_of_pos fun b hb => decide_eq_true (List.eq_of_mem_replicate hb)]
  cases text with
  | nil => rfl
  | cons b text =>
    have hb : b ≠ space := fun hb => h (congrArg some hb)
    simp [hb]

theorem indent_pad (n : ℕ) {text : Bytes} (h : text.head? ≠ some space) :
    indent (List.replicate n space ++ text) = n := by
  unfold indent
  rw [trimLeft_pad n h, List.length_append, List.length_replicate]
  omega

/-- The line is neither blank nor a comment. -/
structure Counts (line : Bytes) : Prop where
  text : trimLeft line ≠ []
  noComment : (trimLeft line).head? ≠ some hashSign

theorem rescale_eq {line : Bytes} (h : trimLeft line ≠ []) (scale : ℕ) :
    rescale scale line = List.replicate (indent line / scale) space ++ trimLeft line := by
  unfold rescale
  rw [if_neg h]
  split_ifs with hzero
  · have hline := line_eq line
    rw [hzero] at hline ⊢
    rw [Nat.zero_div]
    exact hline.symm
  · rfl

theorem trimLeft_rescale (scale : ℕ) (line : Bytes) :
    trimLeft (rescale scale line) = trimLeft line := by
  by_cases h : trimLeft line = []
  · unfold rescale
    rw [if_pos h]
  · rw [rescale_eq h, trimLeft_pad _ (head_trimLeft line)]

theorem indent_rescale {line : Bytes} (h : trimLeft line ≠ []) (scale : ℕ) :
    indent (rescale scale line) = indent line / scale := by
  rw [rescale_eq h, indent_pad _ (head_trimLeft line)]

theorem counts_rescale_iff {scale : ℕ} {line : Bytes} :
    Counts (rescale scale line) ↔ Counts line := by
  constructor
  · intro h
    exact ⟨trimLeft_rescale scale line ▸ h.text, trimLeft_rescale scale line ▸ h.noComment⟩
  · intro h
    exact ⟨(trimLeft_rescale scale line).symm ▸ h.text,
      (trimLeft_rescale scale line).symm ▸ h.noComment⟩

theorem mem_rescale {scale : ℕ} {line : Bytes} {b : UInt8} (h : b ∈ rescale scale line) :
    b = space ∨ b ∈ line := by
  unfold rescale at h
  split_ifs at h with hblank hzero
  · exact Or.inr h
  · exact Or.inr h
  · rcases List.mem_append.mp h with h | h
    · exact Or.inl (List.eq_of_mem_replicate h)
    · exact Or.inr ((List.dropWhile_sublist _).mem h)

/-! ### The unit -/

theorem gcd_eq (a b : ℕ) : gcd a b = Nat.gcd a b := by
  induction a, b using gcd.induct with
  | case1 a => rw [gcd, if_pos rfl, Nat.gcd_zero_right]
  | case2 a b hb ih =>
    rw [gcd, if_neg hb, ih, Nat.gcd_comm a b, Nat.gcd_rec b a, Nat.gcd_comm]

theorem dvd_unitStep_iff {d unit : ℕ} {line : Bytes} :
    d ∣ unitStep unit line ↔ d ∣ unit ∧ (Counts line → d ∣ indent line) := by
  unfold unitStep
  split_ifs with hskip hzero hfirst
  · have hnot : ¬ Counts line := fun h => hskip.elim h.text h.noComment
    simp [hnot]
  · simp [hzero]
  · have hcounts : Counts line := ⟨fun h => hskip (Or.inl h), fun h => hskip (Or.inr h)⟩
    simp [hfirst, hcounts]
  · have hcounts : Counts line := ⟨fun h => hskip (Or.inl h), fun h => hskip (Or.inr h)⟩
    rw [gcd_eq, Nat.dvd_gcd_iff]
    simp [hcounts]

/-- The unit is the greatest common divisor of the indentations that count. -/
theorem dvd_indentUnit_iff {d : ℕ} {ls : List Bytes} :
    d ∣ indentUnit ls ↔ ∀ line ∈ ls, Counts line → d ∣ indent line := by
  have hfold : ∀ unit, d ∣ ls.foldl unitStep unit ↔
      d ∣ unit ∧ ∀ line ∈ ls, Counts line → d ∣ indent line := by
    induction ls with
    | nil => simp
    | cons line ls ih =>
      intro unit
      rw [List.foldl_cons, ih, dvd_unitStep_iff, List.forall_mem_cons, and_assoc]
  unfold indentUnit
  rw [hfold 0]
  simp

section Collapsed

variable {ls : List Bytes} (heven : indentUnit ls % 2 = 0)
include heven

/-- Dividing by half the unit leaves no remainder. -/
theorem indent_rescale_mul {line : Bytes} (hline : line ∈ ls) (hcounts : Counts line) :
    indent (rescale (indentUnit ls / 2) line) * (indentUnit ls / 2) = indent line := by
  have hunit : indentUnit ls ∣ indent line :=
    dvd_indentUnit_iff.mp (dvd_refl (indentUnit ls)) line hline hcounts
  have hhalf : indentUnit ls / 2 ∣ indentUnit ls := ⟨2, by omega⟩
  rw [indent_rescale hcounts.text, Nat.div_mul_cancel (hhalf.trans hunit)]

/-- After the division the unit is at most two. -/
theorem indentUnit_rescale (hfour : 4 ≤ indentUnit ls) :
    indentUnit (ls.map (rescale (indentUnit ls / 2))) ∣ 2 := by
  have hall : indentUnit (ls.map (rescale (indentUnit ls / 2))) * (indentUnit ls / 2) ∣
      indentUnit ls := by
    rw [dvd_indentUnit_iff]
    intro line hline hcounts
    rw [← indent_rescale_mul heven hline hcounts]
    apply Nat.mul_dvd_mul_right
    exact dvd_indentUnit_iff.mp (dvd_refl _) _ (List.mem_map_of_mem hline)
      (counts_rescale_iff.mpr hcounts)
  have hdouble : indentUnit ls = 2 * (indentUnit ls / 2) := by omega
  have hcancel : indentUnit (ls.map (rescale (indentUnit ls / 2))) * (indentUnit ls / 2) ∣
      2 * (indentUnit ls / 2) := hdouble ▸ hall
  exact Nat.dvd_of_mul_dvd_mul_right (by omega) hcancel

end Collapsed

theorem collapse_collapse (ls : List Bytes) : collapse (collapse ls) = collapse ls := by
  by_cases hunit : 4 ≤ indentUnit ls ∧ indentUnit ls % 2 = 0
  · have hcollapse : collapse ls = ls.map (rescale (indentUnit ls / 2)) := if_pos hunit
    have htwo := Nat.le_of_dvd (by omega) (indentUnit_rescale hunit.2 hunit.1)
    rw [hcollapse]
    exact if_neg (by omega)
  · have hcollapse : collapse ls = ls := if_neg hunit
    rw [hcollapse, hcollapse]

/-- The second half rewrites each line, and keeps its text and the order of the
indentations that count. -/
theorem exists_collapse (ls : List Bytes) : ∃ f : Bytes → Bytes, collapse ls = ls.map f ∧
    (∀ line, trimLeft (f line) = trimLeft line) ∧
    (∀ line b, b ∈ f line → b = space ∨ b ∈ line) ∧
    ∀ a ∈ ls, ∀ b ∈ ls, Counts a → Counts b →
      (indent (f a) < indent (f b) ↔ indent a < indent b) := by
  by_cases hunit : 4 ≤ indentUnit ls ∧ indentUnit ls % 2 = 0
  · refine ⟨rescale (indentUnit ls / 2), if_pos hunit, trimLeft_rescale _,
      fun _ _ => mem_rescale, fun a ha b hb hcounts hcounts' => ?_⟩
    rw [← indent_rescale_mul hunit.2 ha hcounts,
      ← indent_rescale_mul hunit.2 hb hcounts']
    exact (Nat.mul_lt_mul_right (by omega)).symm
  · refine ⟨id, ?_, fun _ => rfl, fun _ _ h => Or.inr h, fun _ _ _ _ _ _ => Iff.rfl⟩
    rw [List.map_id]
    exact if_neg hunit

/-! ### The displayed text -/

theorem yamlDisplay_eq (s : Bytes) :
    yamlDisplay s = unlines newline (collapse ((lines newline s).map expandTabs)) := by
  unfold yamlDisplay
  split_ifs with hempty
  · rw [hempty]
    rfl
  · rfl

theorem mem_collapse_expanded {s line : Bytes}
    (h : line ∈ collapse ((lines newline s).map expandTabs)) : newline ∉ line ∧ tab ∉ line := by
  obtain ⟨f, hcollapse, -, hbytes, -⟩ := exists_collapse ((lines newline s).map expandTabs)
  rw [hcollapse, List.map_map] at h
  obtain ⟨source, hsource, rfl⟩ := List.mem_map.mp h
  constructor
  · intro hmem
    rcases hbytes _ _ hmem with heq | hmem
    · exact absurd heq (by decide)
    · exact newline_notMem_expandTabs (notMem_of_mem_lines hsource) hmem
  · intro hmem
    rcases hbytes _ _ hmem with heq | hmem
    · exact absurd heq (by decide)
    · exact notMem_expandTabs source hmem

theorem lines_yamlDisplay (s : Bytes) :
    lines newline (yamlDisplay s) = collapse ((lines newline s).map expandTabs) := by
  rw [yamlDisplay_eq]
  refine lines_unlines (fun line hline => (mem_collapse_expanded hline).1) ?_
  obtain ⟨f, hcollapse, -⟩ := exists_collapse ((lines newline s).map expandTabs)
  rw [hcollapse]
  simpa using lines_ne_nil newline s

theorem yamlDisplay_yamlDisplay (s : Bytes) : yamlDisplay (yamlDisplay s) = yamlDisplay s := by
  rw [yamlDisplay_eq (yamlDisplay s), lines_yamlDisplay]
  have hexpanded : (collapse ((lines newline s).map expandTabs)).map expandTabs =
      collapse ((lines newline s).map expandTabs) := by
    conv_rhs => rw [← List.map_id (collapse ((lines newline s).map expandTabs))]
    refine List.map_congr_left fun line hline => ?_
    exact expandTabs_of_notMem (mem_collapse_expanded hline).2
  rw [hexpanded, collapse_collapse, yamlDisplay_eq s]

theorem tab_notMem_yamlDisplay (s : Bytes) : tab ∉ yamlDisplay s := by
  rw [yamlDisplay_eq]
  intro h
  rcases mem_unlines h with heq | ⟨line, hline, hmem⟩
  · exact absurd heq (by decide)
  · exact (mem_collapse_expanded hline).2 hmem

/-- The display is idempotent and only re-indents: the text has as many lines as before
and no tab, the expansion of the tabs keeps what is not blank, and against the text with
its tabs expanded every line keeps what follows its leading spaces, and lines that are
neither blank nor comments keep the order and the equality of their indentations. -/
theorem yamlDisplay_only_reindents (s : Bytes) :
    yamlDisplay (yamlDisplay s) = yamlDisplay s ∧
      (lines newline (yamlDisplay s)).length = (lines newline s).length ∧
      tab ∉ yamlDisplay s ∧
      (∀ line ∈ lines newline s, Keeps line (expandTabs line)) ∧
      ∀ p ∈ ((lines newline s).map expandTabs).zip (lines newline (yamlDisplay s)),
        trimLeft p.2 = trimLeft p.1 ∧
        ∀ q ∈ ((lines newline s).map expandTabs).zip (lines newline (yamlDisplay s)),
          Counts p.1 → Counts q.1 →
            (indent p.2 < indent q.2 ↔ indent p.1 < indent q.1) ∧
            (indent p.2 = indent q.2 ↔ indent p.1 = indent q.1) := by
  obtain ⟨f, hcollapse, htext, -, horder⟩ := exists_collapse ((lines newline s).map expandTabs)
  have hlines : lines newline (yamlDisplay s) = (lines newline s).map (f ∘ expandTabs) := by
    rw [lines_yamlDisplay, hcollapse, List.map_map]
  rw [hlines]
  refine ⟨yamlDisplay_yamlDisplay s, List.length_map .., tab_notMem_yamlDisplay s,
    fun line _ => keeps_expandTabs line, ?_⟩
  rw [List.zip_map']
  intro p hp
  obtain ⟨line, hline, rfl⟩ := List.mem_map.mp hp
  refine ⟨htext _, fun q hq hcounts hcounts' => ?_⟩
  obtain ⟨line', hline', rfl⟩ := List.mem_map.mp hq
  have ha := List.mem_map_of_mem (f := expandTabs) hline
  have hb := List.mem_map_of_mem (f := expandTabs) hline'
  have hlt := horder _ ha _ hb hcounts hcounts'
  have hgt := horder _ hb _ ha hcounts' hcounts
  refine ⟨hlt, ?_⟩
  dsimp only [Function.comp_apply]
  omega

end Grex.YamlDisplay
