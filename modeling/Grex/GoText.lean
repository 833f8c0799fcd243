import Mathlib.Data.Bool.AllAny
import Mathlib.Data.List.DropRight
import Mathlib.Data.List.TakeWhile
import Mathlib.Data.String.Basic

/-!
The parts of Go's text packages that query parameters go through. Texts are
valid UTF-8, so a text is its list of characters.
-/

namespace Grex.GoText

/-! ### Trimming -/

section Trim

variable {α : Type*} {p : α → Bool}

/-- Drop the runs of `p` at both ends. -/
def trim (p : α → Bool) (l : List α) : List α := (l.dropWhile p).rdropWhile p

/-- No `p` stands at either end. -/
structure Bare (p : α → Bool) (l : List α) : Prop where
  head : ∀ x, l.head? = some x → p x = false
  last : ∀ x, l.getLast? = some x → p x = false

theorem bare_nil : Bare p [] where
  head x h := by cases h
  last x h := by cases h

theorem bare_of_ends {l : List α} (hhead : l.head?.any p = false)
    (hlast : l.getLast?.any p = false) : Bare p l where
  head x hx := by rwa [hx] at hhead
  last x hx := by rwa [hx] at hlast

theorem Bare.reverse {l : List α} (h : Bare p l) : Bare p l.reverse where
  head x hx := h.last x (by rwa [List.head?_reverse] at hx)
  last x hx := h.head x (by rwa [List.getLast?_reverse] at hx)

/-- The ends of a text decide, whatever stands between them. -/
theorem bare_append {l l' : List α} (hhead : ∀ x, l.head? = some x → p x = false) (hne : l ≠ [])
    (mid : List α) (hl' : Bare p l') (hne' : l' ≠ []) : Bare p (l ++ (mid ++ l')) where
  head x hx := by
    rw [List.head?_append_of_ne_nil _ hne] at hx
    exact hhead x hx
  last x hx := by
    rw [← List.append_assoc, List.getLast?_append_of_ne_nil _ hne'] at hx
    exact hl'.last x hx

theorem Bare.append {l l' : List α} (hl : Bare p l) (hne : l ≠ []) (mid : List α)
    (hl' : Bare p l') (hne' : l' ≠ []) : Bare p (l ++ (mid ++ l')) :=
  bare_append hl.head hne mid hl' hne'

theorem dropWhile_eq_self_of_head {l : List α} (h : ∀ x, l.head? = some x → p x = false) :
    l.dropWhile p = l := by
  cases l with
  | nil => rfl
  | cons x l => rw [List.dropWhile_cons, h x rfl]; rfl

theorem dropWhile_append_of_all {l l' : List α} (h : ∀ x ∈ l, p x = true) :
    (l ++ l').dropWhile p = l'.dropWhile p := by
  rw [List.dropWhile_append, List.dropWhile_eq_nil_iff.mpr h]
  rfl

theorem head_dropWhile {l : List α} (x : α) (h : (l.dropWhile p).head? = some x) :
    p x = false := by
  have hhead := List.head?_dropWhile_not p l
  rw [h] at hhead
  exact hhead

theorem trim_eq_self {l : List α} (h : Bare p l) : trim p l = l := by
  unfold trim List.rdropWhile
  rw [dropWhile_eq_self_of_head h.head, dropWhile_eq_self_of_head h.reverse.head,
    List.reverse_reverse]

/-- What trimming drops. -/
theorem exists_trim (p : α → Bool) (l : List α) :
    ∃ a b, l = a ++ (trim p l ++ b) ∧ (∀ x ∈ a, p x = true) ∧ ∀ x ∈ b, p x = true := by
  refine ⟨l.takeWhile p, (l.dropWhile p).rtakeWhile p, ?_, ?_, ?_⟩
  · unfold trim
    rw [List.rdropWhile_append_rtakeWhile, List.takeWhile_append_dropWhile]
  · intro x hx
    exact List.mem_takeWhile_imp hx
  · intro x hx
    exact List.mem_rtakeWhile_imp hx

theorem bare_trim (p : α → Bool) (l : List α) : Bare p (trim p l) where
  head x hx := by
    obtain ⟨l', hl'⟩ : trim p l <+: l.dropWhile p := List.rdropWhile_prefix p _
    apply head_dropWhile (l := l)
    rw [← hl', List.head?_append, hx]
    rfl
  last x hx := by
    unfold trim List.rdropWhile at hx
    rw [List.getLast?_reverse] at hx
    exact head_dropWhile x hx

/-- Trimming finds what stands between two runs of `p`. -/
theorem trim_append {a l b : List α} (ha : ∀ x ∈ a, p x = true) (hl : Bare p l)
    (hb : ∀ x ∈ b, p x = true) : trim p (a ++ (l ++ b)) = l := by
  unfold trim List.rdropWhile
  rw [dropWhile_append_of_all ha]
  cases l with
  | nil =>
    rw [List.nil_append, List.dropWhile_eq_nil_iff.mpr hb]
    rfl
  | cons x l =>
    rw [dropWhile_eq_self_of_head (l := x :: l ++ b) (fun y hy => hl.head y hy), List.reverse_append,
      dropWhile_append_of_all (fun y hy => hb y (List.mem_reverse.mp hy)),
      dropWhile_eq_self_of_head hl.reverse.head, List.reverse_reverse]

theorem trim_pad {a b : List α} (ha : ∀ x ∈ a, p x = true) (l : List α)
    (hb : ∀ x ∈ b, p x = true) : trim p (a ++ (l ++ b)) = trim p l := by
  obtain ⟨a', b', hl, ha', hb'⟩ := exists_trim p l
  have hsplit : a ++ (l ++ b) = (a ++ a') ++ (trim p l ++ (b' ++ b)) := by
    conv_lhs => rw [hl]
    simp only [List.append_assoc]
  rw [hsplit]
  refine trim_append ?_ (bare_trim p l) ?_
  · intro x hx
    exact (List.mem_append.mp hx).elim (ha x) (ha' x)
  · intro x hx
    exact (List.mem_append.mp hx).elim (hb' x) (hb x)

theorem trim_eq_self_iff {l : List α} : trim p l = l ↔ Bare p l := by
  constructor
  · intro h
    rw [← h]
    exact bare_trim p l
  · exact trim_eq_self

@[simp] theorem trim_trim (l : List α) : trim p (trim p l) = trim p l :=
  trim_eq_self (bare_trim p l)

theorem trim_eq_nil_iff {l : List α} : trim p l = [] ↔ ∀ x ∈ l, p x = true := by
  obtain ⟨a, b, hl, ha, hb⟩ := exists_trim p l
  constructor
  · intro hnil x hx
    rw [hl, hnil, List.nil_append] at hx
    exact (List.mem_append.mp hx).elim (ha x) (hb x)
  · intro hall
    have hempty := trim_append (p := p) (a := l) (l := []) (b := []) hall bare_nil (by simp)
    rwa [List.append_nil, List.append_nil] at hempty

theorem mem_of_mem_trim {l : List α} {x : α} (hx : x ∈ trim p l) : x ∈ l := by
  obtain ⟨a, b, hl, -⟩ := exists_trim p l
  rw [hl]
  exact List.mem_append_right a (List.mem_append_left b hx)

/-- A first character that stays is the first one of what is left. -/
theorem head?_trim {l : List α} {x : α} (hhead : l.head? = some x) (hx : p x = false) :
    (trim p l).head? = some x := by
  obtain ⟨a, b, hl, ha, hb⟩ := exists_trim p l
  rw [hl] at hhead
  cases a with
  | cons y a =>
    obtain rfl : y = x := Option.some.inj hhead
    exact absurd (ha y List.mem_cons_self) (by simp [hx])
  | nil =>
    cases htrim : trim p l with
    | nil =>
      rw [htrim] at hhead
      exact absurd (hb x (List.mem_of_head? hhead)) (by simp [hx])
    | cons y t =>
      rw [htrim] at hhead
      exact hhead

theorem trim_congr {q : α → Bool} {l : List α} (h : ∀ x ∈ l, p x = q x) : trim p l = trim q l := by
  obtain ⟨a, b, hl, ha, hb⟩ := exists_trim q l
  have hin : ∀ x, x ∈ a ∨ x ∈ trim q l ∨ x ∈ b → p x = q x := by
    intro x hx
    apply h
    rw [hl]
    simpa using hx
  have hbare : Bare p (trim q l) :=
    { head := fun x hx => (hin x (.inr (.inl (List.mem_of_mem_head? hx)))).trans
        ((bare_trim q l).head x hx)
      last := fun x hx => (hin x (.inr (.inl (List.mem_of_getLast? hx)))).trans
        ((bare_trim q l).last x hx) }
  conv_lhs => rw [hl]
  refine trim_append (fun x hx => ?_) hbare (fun x hx => ?_)
  · exact (hin x (.inl hx)).trans (ha x hx)
  · exact (hin x (.inr (.inr hx))).trans (hb x hx)

/-- After a part with bare ends only the end of the rest is trimmed. -/
theorem trim_append_of_bare {l : List α} (hl : Bare p l) (hne : l ≠ []) (r : List α) :
    ∃ t b, r = t ++ b ∧ (∀ x ∈ b, p x = true) ∧ trim p (l ++ r) = l ++ t ∧
      trim p t = trim p r := by
  obtain ⟨a, b, hr, ha, hb⟩ := exists_trim p r
  by_cases hnil : trim p r = []
  · refine ⟨[], r, rfl, trim_eq_nil_iff.mp hnil, ?_, by rw [hnil]; rfl⟩
    have hpad := trim_append (a := []) (by simp) hl (trim_eq_nil_iff.mp hnil)
    rw [List.append_nil]
    exact hpad
  · refine ⟨a ++ trim p r, b, by rw [List.append_assoc]; exact hr, hb, ?_, ?_⟩
    · have hbare := hl.append hne a (bare_trim p r) hnil
      have hpad := trim_append (a := []) (by simp) hbare hb
      conv_lhs => rw [hr]
      rw [← hpad]
      simp only [List.nil_append, List.append_assoc]
    · have hpad := trim_append (b := []) ha (bare_trim p r) (by simp)
      rwa [List.append_nil] at hpad

/-- Dropping part of a run first changes nothing. -/
theorem trim_dropWhile {q : α → Bool} (hq : ∀ x, q x = true → p x = true) (l : List α) :
    trim p (l.dropWhile q) = trim p l := by
  have hpad := trim_pad (p := p) (a := l.takeWhile q) (b := [])
    (fun x hx => hq x (List.mem_takeWhile_imp hx)) (l.dropWhile q) (by simp)
  rwa [List.append_nil, List.takeWhile_append_dropWhile, eq_comm] at hpad

end Trim

/-- `unicode.IsSpace`. -/
def isSpace (c : Char) : Bool :=
  [('\t', '\r'), (' ', ' '), ('\u0085', '\u0085'), ('\u00a0', '\u00a0'), ('\u1680', '\u1680'),
    ('\u2000', '\u200a'), ('\u2028', '\u2029'), ('\u202f', '\u202f'), ('\u205f', '\u205f'),
    ('\u3000', '\u3000')].any fun r => decide (r.1 ≤ c ∧ c ≤ r.2)

def trimSpace (s : String) : String := .ofList (trim isSpace s.toList)

@[simp] theorem toList_trimSpace (s : String) : (trimSpace s).toList = trim isSpace s.toList :=
  String.toList_ofList

@[simp] theorem trimSpace_trimSpace (s : String) : trimSpace (trimSpace s) = trimSpace s := by
  unfold trimSpace
  rw [String.toList_ofList, trim_trim]

theorem trimSpace_eq_self_iff (s : String) : trimSpace s = s ↔ Bare isSpace s.toList := by
  rw [← trim_eq_self_iff, ← String.toList_inj, toList_trimSpace]

theorem trimSpace_ne_of_mem {s : String} {c : Char} (hmem : c ∈ s.toList)
    (hc : isSpace c = false) : trimSpace s ≠ "" := by
  intro hblank
  have hnil : trim isSpace s.toList = [] := by
    rw [← toList_trimSpace, hblank]
    rfl
  rw [trim_eq_nil_iff.mp hnil c hmem] at hc
  cases hc

/-! ### Numbers and truth values -/

/-- `strconv.ParseBool`. -/
def parseBool (s : String) : Option Bool :=
  if s ∈ ["1", "t", "T", "TRUE", "true", "True"] then some true
  else if s ∈ ["0", "f", "F", "FALSE", "false", "False"] then some false
  else none

/-- The value of a text of decimal digits. -/
def digitsValue (ds : List Char) : Option ℕ :=
  if ds ≠ [] ∧ ds.all Char.isDigit then some (Nat.ofDigitChars 10 ds 0) else none

/-- `strconv.Atoi`, on 64 bits. -/
def atoi (s : String) : Option ℤ :=
  match s.toList with
  | '-' :: ds => (digitsValue ds).bind fun n => if n ≤ 2 ^ 63 then some (-n) else none
  | '+' :: ds => (digitsValue ds).bind fun n => if n < 2 ^ 63 then some n else none
  | ds => (digitsValue ds).bind fun n => if n < 2 ^ 63 then some n else none

theorem isDigit_of_mem {n : ℕ} {d : Char} (hd : d ∈ Nat.toDigits 10 n) : d.isDigit = true :=
  Nat.isDigit_of_mem_toDigits (by decide) (by decide) hd

theorem digitsValue_toDigits (n : ℕ) : digitsValue (Nat.toDigits 10 n) = some n := by
  unfold digitsValue
  rw [if_pos ⟨Nat.toDigits_ne_nil, List.all_eq_true.mpr fun d hd => isDigit_of_mem hd⟩,
    Nat.ofDigitChars_toDigits (by decide) (by decide)]

/-- A number within range is read back from its decimal text. -/
theorem atoi_repr {n : ℕ} (hn : n < 2 ^ 63) : atoi n.repr = some (n : ℤ) := by
  have hvalue := digitsValue_toDigits n
  have hsign : ∀ c ds, Nat.toDigits 10 n = c :: ds → c.isDigit = true := by
    intro c ds hds
    exact isDigit_of_mem (n := n) (by rw [hds]; exact List.mem_cons_self)
  unfold atoi
  rw [Nat.repr_eq_ofList_toDigits, String.toList_ofList]
  split
  next ds hds => exact absurd (hsign _ ds hds) (by decide)
  next ds hds => exact absurd (hsign _ ds hds) (by decide)
  next => rw [hvalue, Option.bind_some, if_pos hn]

end Grex.GoText
