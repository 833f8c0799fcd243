import Mathlib.Data.Char
import Mathlib.Data.List.Basic
import Mathlib.Logic.Relation

/-!
Regular expressions in the manner of RE2. A tree relates the cursors of a text,
each the part already read and the part still to read; what can follow a cursor
is also listed, in the order in which a backtracking search would find it, so
that the leftmost and then first match and its groups can be computed.
-/

namespace Grex.Regex

/-- A class of characters, as ranges with both ends included. -/
structure CharSet where
  negated : Bool
  ranges : List (Char × Char)
  deriving DecidableEq

namespace CharSet

def mem (s : CharSet) (c : Char) : Bool :=
  (s.ranges.any fun r => decide (r.1 ≤ c ∧ c ≤ r.2)) != s.negated

def single (c : Char) : CharSet := ⟨false, [(c, c)]⟩

/-- Any character but a newline. -/
def dot : CharSet := ⟨true, [('\n', '\n')]⟩

def digit : CharSet := ⟨false, [('0', '9')]⟩

def space : CharSet := ⟨false, [('\t', '\n'), ('\x0c', '\r'), (' ', ' ')]⟩

def word : CharSet := ⟨false, [('0', '9'), ('A', 'Z'), ('_', '_'), ('a', 'z')]⟩

/-- The class `\s` of a script in the browser, which has all of Unicode's white space. -/
def scriptSpace : CharSet :=
  ⟨false, [('\t', '\r'), (' ', ' '), ('\u00a0', '\u00a0'), ('\u1680', '\u1680'),
    ('\u2000', '\u200a'), ('\u2028', '\u2029'), ('\u202f', '\u202f'), ('\u205f', '\u205f'),
    ('\u3000', '\u3000'), ('\ufeff', '\ufeff')]⟩

def compl (s : CharSet) : CharSet := ⟨!s.negated, s.ranges⟩

@[simp] theorem mem_single (c d : Char) : (single c).mem d = decide (d = c) := by
  rw [Bool.eq_iff_iff]
  simp only [mem, single, List.any_cons, List.any_nil, Bool.or_false, Bool.bne_false,
    decide_eq_true_eq]
  constructor
  · intro h
    exact le_antisymm h.2 h.1
  · rintro rfl
    exact ⟨le_refl _, le_refl _⟩

@[simp] theorem mem_dot (c : Char) : dot.mem c = !decide (c = '\n') := by
  have hsame := mem_single '\n' c
  unfold mem single at hsame
  unfold mem dot
  rw [Bool.bne_false] at hsame
  rw [hsame, Bool.bne_true]

end CharSet

/-- The conditions on a position that read nothing. -/
inductive Look
  | beginText
  | endText
  | beginLine
  | endLine
  | wordBoundary
  | noWordBoundary
  deriving DecidableEq

def isWord : Option Char → Bool
  | none => false
  | some c => CharSet.word.mem c

/-- Whether the condition holds between two characters, none at the ends of the
text. -/
def Look.holds (before after : Option Char) : Look → Bool
  | beginText => before.isNone
  | endText => after.isNone
  | beginLine => before.isNone || before == some '\n'
  | endLine => after.isNone || after == some '\n'
  | wordBoundary => isWord before != isWord after
  | noWordBoundary => isWord before == isWord after

inductive Node
  | empty
  | look (l : Look)
  | chr (s : CharSet)
  | cat (r r' : Node)
  | alt (r r' : Node)
  | star (greedy : Bool) (r : Node)
  | group (i : ℕ) (r : Node)
  deriving DecidableEq

/-- A place in a text; what was read is kept backwards. -/
@[ext] structure Cursor where
  before : List Char
  rest : List Char
  deriving DecidableEq

namespace Cursor

def text (c : Cursor) : List Char := c.before.reverse ++ c.rest

def start (v : List Char) : Cursor := ⟨[], v⟩

def stop (v : List Char) : Cursor := ⟨v.reverse, []⟩

theorem eq_start {c : Cursor} (h : c.before = []) : c = start c.text := by
  cases c
  cases h
  rfl

theorem eq_stop {c : Cursor} (h : c.rest = []) : c = stop c.text := by
  cases c
  cases h
  simp [stop, text]

end Cursor

/-- The cursors a tree leads to. -/
def Reads : Node → Cursor → Cursor → Prop
  | .empty => fun c d => c = d
  | .look l => fun c d => c = d ∧ l.holds c.before.head? c.rest.head? = true
  | .chr s => fun c d => ∃ a, s.mem a = true ∧ c.rest = a :: d.rest ∧ d.before = a :: c.before
  | .cat r r' => fun c d => ∃ m, Reads r c m ∧ Reads r' m d
  | .alt r r' => fun c d => Reads r c d ∨ Reads r' c d
  | .star _ r => Relation.ReflTransGen (Reads r)
  | .group _ r => Reads r

/-- What is kept by standing still, by moving on and by reading one character is kept by
reading any tree. -/
theorem rel_of_reads {R : Cursor → Cursor → Prop} (hrefl : ∀ c, R c c)
    (htrans : ∀ {c m d}, R c m → R m d → R c d)
    (hchr : ∀ {c d : Cursor} {a : Char}, c.rest = a :: d.rest → d.before = a :: c.before → R c d)
    {r : Node} {c d : Cursor} (h : Reads r c d) : R c d := by
  induction r generalizing c d with
  | empty =>
    obtain rfl : c = d := h
    exact hrefl c
  | look l =>
    obtain rfl : c = d := h.1
    exact hrefl c
  | chr s =>
    obtain ⟨a, -, hrest, hbefore⟩ := h
    exact hchr hrest hbefore
  | cat r r' ih ih' =>
    obtain ⟨m, hm, hd⟩ := h
    exact htrans (ih hm) (ih' hd)
  | alt r r' ih ih' =>
    rcases h with h | h
    · exact ih h
    · exact ih' h
  | star greedy r ih =>
    induction h with
    | refl => exact hrefl c
    | tail _ hstep ih' => exact htrans ih' (ih hstep)
  | group i r ih => exact ih h

/-- Reading moves through one text. -/
theorem text_of_reads {r : Node} {c d : Cursor} (h : Reads r c d) : d.text = c.text := by
  refine rel_of_reads (R := fun c d => d.text = c.text) (fun _ => rfl)
    (fun hm hd => hd.trans hm) (fun hrest hbefore => ?_) h
  unfold Cursor.text
  rw [hrest, hbefore, List.reverse_cons, List.append_assoc]
  rfl

theorem length_of_reads {r : Node} {c d : Cursor} (h : Reads r c d) :
    d.rest.length ≤ c.rest.length := by
  refine rel_of_reads (R := fun c d => d.rest.length ≤ c.rest.length) (fun _ => le_refl _)
    (fun hm hd => le_trans hd hm) (fun hrest _ => ?_) h
  rw [hrest, List.length_cons]
  omega

/-- A cursor is known from its text and from how much is left. -/
theorem Cursor.eq_of_text {c d : Cursor} (htext : d.text = c.text)
    (hlength : d.rest.length = c.rest.length) : d = c := by
  obtain ⟨hbefore, hrest⟩ := List.append_inj' htext hlength
  exact Cursor.ext (List.reverse_injective hbefore) hrest

/-! ### The search -/

/-- A cursor with the groups read so far, the newest first. -/
structure State extends Cursor where
  groups : List (ℕ × List Char)
  deriving DecidableEq

/-- Repeat a body that moves on, as often as the text allows. -/
def iterate (greedy : Bool) (body : State → List State) : ℕ → State → List State
  | 0, s => [s]
  | n + 1, s =>
      let more := (body s).flatMap fun t =>
        if t.rest.length < s.rest.length then iterate greedy body n t else []
      if greedy then more ++ [s] else s :: more

/-- Everything a tree can lead to, in order of preference. -/
def outcomes : Node → State → List State
  | .empty => fun s => [s]
  | .look l => fun s => if l.holds s.before.head? s.rest.head? then [s] else []
  | .chr t => fun s =>
      match s.rest with
      | [] => []
      | a :: rest => if t.mem a then [{ s with before := a :: s.before, rest := rest }] else []
  | .cat r r' => fun s => (outcomes r s).flatMap (outcomes r')
  | .alt r r' => fun s => outcomes r s ++ outcomes r' s
  | .star greedy r => fun s => iterate greedy (outcomes r) s.rest.length s
  | .group i r => fun s => (outcomes r s).map fun t =>
      { t with groups := (i, s.rest.take (s.rest.length - t.rest.length)) :: t.groups }

theorem outcomes_cat (r r' : Node) (s : State) :
    outcomes (.cat r r') s = (outcomes r s).flatMap (outcomes r') := rfl

theorem outcomes_alt (r r' : Node) (s : State) :
    outcomes (.alt r r') s = outcomes r s ++ outcomes r' s := rfl

theorem outcomes_group (i : ℕ) (r : Node) (s : State) :
    outcomes (.group i r) s = (outcomes r s).map fun t =>
      { t with groups := (i, s.rest.take (s.rest.length - t.rest.length)) :: t.groups } := rfl

theorem mem_iterate {greedy : Bool} {body : State → List State} {n : ℕ} {s t : State} :
    t ∈ iterate greedy body (n + 1) s ↔ t = s ∨ ∃ u ∈ body s,
      u.rest.length < s.rest.length ∧ t ∈ iterate greedy body n u := by
  have hmore : (t ∈ (body s).flatMap fun u =>
      if u.rest.length < s.rest.length then iterate greedy body n u else []) ↔
      ∃ u ∈ body s, u.rest.length < s.rest.length ∧ t ∈ iterate greedy body n u := by
    simp
  cases greedy <;> simp [iterate, hmore, or_comm]

theorem reads_of_mem_iterate {greedy : Bool} {r : Node}
    (hbody : ∀ s t, t ∈ outcomes r s → Reads r s.toCursor t.toCursor) {n : ℕ} {s t : State}
    (ht : t ∈ iterate greedy (outcomes r) n s) :
    Relation.ReflTransGen (Reads r) s.toCursor t.toCursor := by
  induction n generalizing s with
  | zero =>
    rw [List.mem_singleton.mp ht]
  | succ n ih =>
    rcases mem_iterate.mp ht with rfl | ⟨u, hu, -, htail⟩
    · exact Relation.ReflTransGen.refl
    · exact Relation.ReflTransGen.head (hbody s u hu) (ih htail)

theorem reads_of_mem_outcomes {r : Node} {s t : State} (ht : t ∈ outcomes r s) :
    Reads r s.toCursor t.toCursor := by
  induction r generalizing s t with
  | empty => rw [List.mem_singleton.mp ht]; rfl
  | look l =>
    simp only [outcomes] at ht
    split at ht
    next hholds =>
      rw [List.mem_singleton.mp ht]
      exact ⟨rfl, hholds⟩
    next => cases ht
  | chr set =>
    simp only [outcomes] at ht
    split at ht
    next => cases ht
    next a rest hrest =>
      split at ht
      next hmem =>
        rw [List.mem_singleton.mp ht]
        exact ⟨a, hmem, hrest, rfl⟩
      next => cases ht
  | cat r r' ih ih' =>
    obtain ⟨u, hu, ht⟩ := List.mem_flatMap.mp ht
    exact ⟨u.toCursor, ih hu, ih' ht⟩
  | alt r r' ih ih' =>
    rcases List.mem_append.mp ht with ht | ht
    · exact Or.inl (ih ht)
    · exact Or.inr (ih' ht)
  | star greedy r ih => exact reads_of_mem_iterate (fun s t => ih) ht
  | group i r ih =>
    obtain ⟨u, hu, rfl⟩ := List.mem_map.mp ht
    have hread := ih hu
    exact hread

theorem mem_iterate_of_reads {greedy : Bool} {r : Node}
    (hbody : ∀ s d, Reads r s.toCursor d → ∃ t ∈ outcomes r s, t.toCursor = d) {c d : Cursor}
    (hd : Relation.ReflTransGen (Reads r) c d) (s : State) (hs : s.toCursor = c) (n : ℕ)
    (hn : s.rest.length ≤ n) : ∃ t ∈ iterate greedy (outcomes r) n s, t.toCursor = d := by
  induction hd using Relation.ReflTransGen.head_induction_on generalizing s n with
  | refl =>
    refine ⟨s, ?_, hs⟩
    cases n with
    | zero => exact List.mem_singleton.mpr rfl
    | succ n => exact mem_iterate.mpr (Or.inl rfl)
  | head hstep hrest ih =>
    rename_i c m
    subst hs
    have hlength := length_of_reads hstep
    by_cases hmoves : m.rest.length < s.rest.length
    · obtain ⟨k, rfl⟩ : ∃ k, n = k + 1 := ⟨n - 1, by omega⟩
      obtain ⟨u, hu, hum⟩ := hbody s m hstep
      subst hum
      obtain ⟨t, ht, htd⟩ := ih u rfl k (by omega)
      exact ⟨t, mem_iterate.mpr (Or.inr ⟨u, hu, hmoves, ht⟩), htd⟩
    · -- A pass that reads nothing can be left out.
      have hsame : m = s.toCursor := Cursor.eq_of_text (text_of_reads hstep) (by omega)
      exact ih s hsame.symm n hn

theorem mem_outcomes_of_reads {r : Node} {s : State} {d : Cursor} (h : Reads r s.toCursor d) :
    ∃ t ∈ outcomes r s, t.toCursor = d := by
  induction r generalizing s d with
  | empty => exact ⟨s, List.mem_singleton.mpr rfl, h⟩
  | look l =>
    refine ⟨s, ?_, h.1⟩
    simp only [outcomes]
    rw [if_pos h.2]
    exact List.mem_singleton.mpr rfl
  | chr set =>
    obtain ⟨a, hmem, hrest, hbefore⟩ := h
    refine ⟨{ s with before := a :: s.before, rest := d.rest }, ?_, Cursor.ext hbefore.symm rfl⟩
    simp only [outcomes]
    rw [hrest]
    simp [hmem]
  | cat r r' ih ih' =>
    obtain ⟨m, hm, hd⟩ := h
    obtain ⟨u, hu, rfl⟩ := ih hm
    obtain ⟨t, ht, htd⟩ := ih' hd
    exact ⟨t, List.mem_flatMap.mpr ⟨u, hu, ht⟩, htd⟩
  | alt r r' ih ih' =>
    rcases h with h | h
    · obtain ⟨t, ht, htd⟩ := ih h
      exact ⟨t, List.mem_append_left _ ht, htd⟩
    · obtain ⟨t, ht, htd⟩ := ih' h
      exact ⟨t, List.mem_append_right _ ht, htd⟩
  | star greedy r ih => exact mem_iterate_of_reads (fun s d => ih) h s rfl _ (le_refl _)
  | group i r ih =>
    obtain ⟨t, ht, htd⟩ := ih h
    exact ⟨_, List.mem_map_of_mem ht, htd⟩

instance (r : Node) (c d : Cursor) : Decidable (Reads r c d) :=
  decidable_of_iff (∃ t ∈ outcomes r ⟨c, []⟩, t.toCursor = d) <| by
    constructor
    · rintro ⟨t, ht, rfl⟩
      exact reads_of_mem_outcomes ht
    · intro h
      exact mem_outcomes_of_reads (s := ⟨c, []⟩) h

/-- The tree reads the text from its beginning to its end. -/
def Whole (r : Node) (v : List Char) : Prop := Reads r (.start v) (.stop v)

instance (r : Node) (v : List Char) : Decidable (Whole r v) :=
  inferInstanceAs (Decidable (Reads r (.start v) (.stop v)))

theorem whole_of_reads {r : Node} {c d : Cursor} (h : Reads r c d) (hbefore : c.before = [])
    (hrest : d.rest = []) : Whole r c.text := by
  have htext := text_of_reads h
  rw [Cursor.eq_start hbefore, Cursor.eq_stop hrest, htext] at h
  exact h

/-- The cursors of the text from `c` on. -/
def startsFrom (before : List Char) : List Char → List Cursor
  | [] => [⟨before, []⟩]
  | a :: rest => ⟨before, a :: rest⟩ :: startsFrom (a :: before) rest

theorem mem_startsFrom {before rest : List Char} {c : Cursor} :
    c ∈ startsFrom before rest ↔
      c.text = before.reverse ++ rest ∧ c.rest.length ≤ rest.length := by
  induction rest generalizing before with
  | nil =>
    rw [startsFrom, List.mem_singleton]
    constructor
    · rintro rfl
      exact ⟨rfl, le_refl _⟩
    · intro h
      exact Cursor.eq_of_text h.1 (by simpa using h.2)
  | cons a rest ih =>
    rw [startsFrom, List.mem_cons, ih, List.reverse_cons, List.append_assoc, List.singleton_append,
      List.length_cons]
    constructor
    · rintro (rfl | h)
      · exact ⟨rfl, le_refl _⟩
      · exact ⟨h.1, by omega⟩
    · intro h
      by_cases hlength : c.rest.length = rest.length + 1
      · exact Or.inl (Cursor.eq_of_text h.1 hlength)
      · exact Or.inr ⟨h.1, by omega⟩

/-- The leftmost match, and among those the preferred one. -/
def find (r : Node) (v : List Char) : Option State :=
  (startsFrom [] v).findSome? fun c => (outcomes r ⟨c, []⟩).head?

def State.group (s : State) (i : ℕ) : List Char := (s.groups.lookup i).getD []

/-- Whether the text has a match anywhere. -/
def matchString (r : Node) (v : List Char) : Bool := (find r v).isSome

theorem matchString_iff (r : Node) (v : List Char) :
    matchString r v = true ↔ ∃ c d, c.text = v ∧ Reads r c d := by
  unfold matchString find
  rw [List.findSome?_isSome_iff]
  constructor
  · rintro ⟨c, hc, hsome⟩
    obtain ⟨t, ht⟩ := Option.isSome_iff_exists.mp hsome
    have hmem : t ∈ outcomes r ⟨c, []⟩ := List.mem_of_head? ht
    exact ⟨c, t.toCursor, (mem_startsFrom.mp hc).1, reads_of_mem_outcomes hmem⟩
  · rintro ⟨c, d, rfl, hd⟩
    refine ⟨c, mem_startsFrom.mpr ⟨rfl, by simp [Cursor.text]⟩, ?_⟩
    obtain ⟨t, ht, -⟩ := mem_outcomes_of_reads (s := ⟨c, []⟩) hd
    rw [List.isSome_head?]
    exact List.ne_nil_of_mem ht

/-! ### Anchors -/

/-- Every alternative starts with the anchor of the beginning. -/
def Node.opens : Node → Bool
  | .look l => decide (l = .beginText)
  | .cat r _ => r.opens
  | .alt r r' => r.opens && r'.opens
  | .group _ r => r.opens
  | _ => false

/-- Every alternative stops with the anchor of the end. -/
def Node.closes : Node → Bool
  | .look l => decide (l = .endText)
  | .cat _ r' => r'.closes
  | .alt r r' => r.closes && r'.closes
  | .group _ r => r.closes
  | _ => false

theorem before_of_opens {r : Node} {c d : Cursor} (h : Reads r c d) (hopens : r.opens = true) :
    c.before = [] := by
  induction r generalizing c d with
  | look l =>
    obtain rfl := of_decide_eq_true hopens
    simpa [Look.holds] using h.2
  | cat r r' ih ih' =>
    obtain ⟨m, hm, -⟩ := h
    exact ih hm hopens
  | alt r r' ih ih' =>
    obtain ⟨hleft, hright⟩ := Bool.and_eq_true_iff.mp hopens
    rcases h with h | h
    · exact ih h hleft
    · exact ih' h hright
  | group i r ih => exact ih h hopens
  | _ => cases hopens

theorem rest_of_closes {r : Node} {c d : Cursor} (h : Reads r c d) (hcloses : r.closes = true) :
    d.rest = [] := by
  induction r generalizing c d with
  | look l =>
    obtain rfl := of_decide_eq_true hcloses
    obtain ⟨rfl, hholds⟩ := h
    simpa [Look.holds] using hholds
  | cat r r' ih ih' =>
    obtain ⟨m, -, hm⟩ := h
    exact ih' hm hcloses
  | alt r r' ih ih' =>
    obtain ⟨hleft, hright⟩ := Bool.and_eq_true_iff.mp hcloses
    rcases h with h | h
    · exact ih h hleft
    · exact ih' h hright
  | group i r ih => exact ih h hcloses
  | _ => cases hcloses

/-! ### Repeating one character class -/

/-- The state one character further. -/
def State.read (s : State) (a : Char) (rest : List Char) : State :=
  { s with before := a :: s.before, rest := rest }

/-- The state past a whole run of the class. -/
def State.skip (s : State) (t : CharSet) : State :=
  { s with before := (s.rest.takeWhile t.mem).reverse ++ s.before, rest := s.rest.dropWhile t.mem }

theorem State.skip_read {s : State} {t : CharSet} {a : Char} {rest : List Char}
    (hrest : s.rest = a :: rest) (hmem : t.mem a = true) : (s.read a rest).skip t = s.skip t := by
  simp [State.skip, State.read, hrest, hmem]

theorem State.skip_of_not_mem {s : State} {t : CharSet}
    (hrest : ∀ a rest, s.rest = a :: rest → t.mem a = false) : s.skip t = s := by
  obtain ⟨⟨before, rest⟩, groups⟩ := s
  cases rest with
  | nil => rfl
  | cons a rest => simp [State.skip, hrest a rest rfl]

theorem outcomes_chr {t : CharSet} {s : State} {a : Char} {rest : List Char}
    (hrest : s.rest = a :: rest) :
    outcomes (.chr t) s = if t.mem a then [s.read a rest] else [] := by
  simp only [outcomes]
  rw [hrest]
  rfl

theorem outcomes_star_of_mem {greedy : Bool} {t : CharSet} {s : State} {a : Char}
    {rest : List Char} (hrest : s.rest = a :: rest) (hmem : t.mem a = true) :
    outcomes (.star greedy (.chr t)) s =
      if greedy then outcomes (.star greedy (.chr t)) (s.read a rest) ++ [s]
      else s :: outcomes (.star greedy (.chr t)) (s.read a rest) := by
  have hbody := outcomes_chr (t := t) hrest
  rw [if_pos hmem] at hbody
  have hlength : s.rest.length = rest.length + 1 := by rw [hrest, List.length_cons]
  change iterate greedy (outcomes (.chr t)) s.rest.length s = _
  have hmoves : (s.read a rest).rest.length < s.rest.length := by
    rw [hlength]
    exact Nat.lt_succ_self _
  rw [hlength, iterate, hbody, List.flatMap_singleton]
  simp only [if_pos hmoves]
  rfl

theorem outcomes_star_of_not_mem {greedy : Bool} {t : CharSet} {s : State}
    (hrest : ∀ a rest, s.rest = a :: rest → t.mem a = false) :
    outcomes (.star greedy (.chr t)) s = [s] := by
  change iterate greedy (outcomes (.chr t)) s.rest.length s = _
  cases hcase : s.rest with
  | nil => rfl
  | cons a rest =>
    have hbody := outcomes_chr (t := t) hcase
    rw [hrest a rest hcase] at hbody
    rw [List.length_cons, iterate, hbody]
    cases greedy <;> rfl

/-- A greedy run gives nothing back when what follows it can as well start one
character later. -/
theorem head?_star_greedy {t : CharSet} {next : State → List State}
    (hnext : ∀ s a rest, s.rest = a :: rest → t.mem a = true → next s ≠ [] →
      next (s.read a rest) ≠ []) (s : State) :
    ((outcomes (.star true (.chr t)) s).flatMap next).head? = (next (s.skip t)).head? ∧
      (next s ≠ [] → next (s.skip t) ≠ []) := by
  obtain ⟨rest, hrest⟩ : ∃ rest, s.rest = rest := ⟨_, rfl⟩
  induction rest generalizing s with
  | nil =>
    have hnone : ∀ a rest, s.rest = a :: rest → t.mem a = false := by
      intro a rest h
      rw [hrest] at h
      cases h
    rw [outcomes_star_of_not_mem hnone, State.skip_of_not_mem hnone, List.flatMap_singleton]
    exact ⟨rfl, id⟩
  | cons a rest ih =>
    by_cases hmem : t.mem a = true
    · obtain ⟨hhead, hlater⟩ := ih (s.read a rest) rfl
      rw [State.skip_read hrest hmem] at hhead hlater
      refine ⟨?_, fun h => hlater (hnext s a rest hrest hmem h)⟩
      rw [outcomes_star_of_mem hrest hmem, if_pos rfl, List.flatMap_append, List.head?_append, hhead,
        List.flatMap_singleton]
      by_cases hnil : next s = []
      · simp [hnil]
      · have hsome := hlater (hnext s a rest hrest hmem hnil)
        obtain ⟨u, us, hus⟩ := List.exists_cons_of_ne_nil hsome
        simp [hus]
    · have hnone : ∀ b tail, s.rest = b :: tail → t.mem b = false := by
        intro b tail h
        rw [hrest] at h
        cases h
        exact Bool.eq_false_iff.mpr hmem
      rw [outcomes_star_of_not_mem hnone, State.skip_of_not_mem hnone, List.flatMap_singleton]
      exact ⟨rfl, id⟩

/-! ### Literal words -/

/-- The tree of a word without operators. -/
def literal : List Char → Node
  | [] => .empty
  | [a] => .chr (.single a)
  | a :: b :: w => .cat (.chr (.single a)) (literal (b :: w))

/-- The state past the first `n` characters. -/
def State.advance (s : State) (n : ℕ) : State :=
  { s with before := (s.rest.take n).reverse ++ s.before, rest := s.rest.drop n }

theorem outcomes_single (a : Char) (s : State) :
    outcomes (.chr (.single a)) s = if [a].isPrefixOf s.rest then [s.advance 1] else [] := by
  obtain ⟨⟨before, rest⟩, groups⟩ := s
  cases rest with
  | nil => rfl
  | cons b rest =>
    rw [outcomes_chr rfl]
    by_cases hab : a = b
    · simp [hab, State.read, State.advance]
    · simp [hab, Ne.symm hab]

theorem outcomes_literal {w : List Char} (hw : w ≠ []) (s : State) :
    outcomes (literal w) s = if w.isPrefixOf s.rest then [s.advance w.length] else [] := by
  obtain ⟨⟨before, rest⟩, groups⟩ := s
  induction w generalizing before rest with
  | nil => exact absurd rfl hw
  | cons a w ih =>
    cases w with
    | nil => exact outcomes_single a _
    | cons b w =>
      rw [literal, outcomes_cat, outcomes_single]
      cases rest with
      | nil => rfl
      | cons c rest =>
        by_cases hac : a = c
        · have htail := ih (List.cons_ne_nil b w) (c :: before) rest
          simp [State.advance, hac] at htail ⊢
          simp [htail]
        · simp [List.isPrefixOf, hac]

/-- A tree that starts at the beginning of the text is tried there only. -/
theorem find_beginText (r : Node) (v : List Char) :
    find (.cat (.look .beginText) r) v = (outcomes r ⟨.start v, []⟩).head? := by
  have hlater : ∀ rest a before, ((startsFrom (a :: before) rest).findSome? fun c =>
      (outcomes (.cat (.look .beginText) r) ⟨c, []⟩).head?) = none := by
    intro rest
    induction rest with
    | nil => intro a before; rfl
    | cons b rest ih =>
      intro a before
      rw [startsFrom, List.findSome?_cons]
      exact ih b (a :: before)
  unfold find
  cases v with
  | nil => simp [startsFrom, outcomes, Look.holds, Cursor.start]
  | cons a rest =>
    rw [startsFrom, List.findSome?_cons, hlater]
    simp only [outcomes, Look.holds, List.head?_nil, Option.isNone_none, if_true,
      List.flatMap_singleton, Cursor.start]
    cases (outcomes r ⟨⟨[], a :: rest⟩, []⟩) <;> rfl

/-! ### Other classes -/

/-- The same tree over other classes of characters. -/
def Node.mapSets (f : CharSet → CharSet) : Node → Node
  | .empty => .empty
  | .look l => .look l
  | .chr t => .chr (f t)
  | .cat r r' => .cat (r.mapSets f) (r'.mapSets f)
  | .alt r r' => .alt (r.mapSets f) (r'.mapSets f)
  | .star greedy r => .star greedy (r.mapSets f)
  | .group i r => .group i (r.mapSets f)

/-- The classes hold the same characters of the text. -/
def SameOn (f : CharSet → CharSet) (v : List Char) : Prop := ∀ a ∈ v, ∀ t, (f t).mem a = t.mem a

theorem rest_subset_of_mem_outcomes {r : Node} {s t : State} (ht : t ∈ outcomes r s) :
    t.rest ⊆ s.rest := by
  refine rel_of_reads (R := fun c d => d.rest ⊆ c.rest) (fun c => List.Subset.refl c.rest)
    (fun hm hd => List.Subset.trans hd hm) (fun hrest _ => ?_) (reads_of_mem_outcomes ht)
  rw [hrest]
  exact List.subset_cons_self _ _

theorem iterate_congr {greedy : Bool} {body body' : State → List State} {P : State → Prop}
    (hbody : ∀ s, P s → body s = body' s) (hkeep : ∀ s, P s → ∀ t ∈ body' s, P t) (n : ℕ)
    {s : State} (hs : P s) : iterate greedy body n s = iterate greedy body' n s := by
  induction n generalizing s with
  | zero => rfl
  | succ n ih =>
    have hmore : ((body s).flatMap fun t =>
        if t.rest.length < s.rest.length then iterate greedy body n t else []) =
        (body' s).flatMap fun t =>
          if t.rest.length < s.rest.length then iterate greedy body' n t else [] := by
      rw [hbody s hs]
      refine List.flatMap_congr fun t ht => ?_
      rw [ih (hkeep s hs t ht)]
    simp only [iterate, hmore]

/-- A tree leads to the same places over classes that are the same on what is left. -/
theorem outcomes_mapSets {f : CharSet → CharSet} (r : Node) {s : State} (h : SameOn f s.rest) :
    outcomes (r.mapSets f) s = outcomes r s := by
  have hafter : ∀ (r : Node) {s t : State}, SameOn f s.rest → t ∈ outcomes r s →
      SameOn f t.rest :=
    fun r s t hs ht a ha => hs a (rest_subset_of_mem_outcomes ht ha)
  induction r generalizing s with
  | empty => rfl
  | look l => rfl
  | chr t =>
    simp only [Node.mapSets, outcomes]
    cases hrest : s.rest with
    | nil => rfl
    | cons a rest =>
      have hsame := h a (by rw [hrest]; exact List.mem_cons_self) t
      simp only [hsame]
  | cat r r' ih ih' =>
    rw [Node.mapSets, outcomes_cat, outcomes_cat, ih h]
    exact List.flatMap_congr fun t ht => ih' (hafter r h ht)
  | alt r r' ih ih' =>
    rw [Node.mapSets, outcomes_alt, outcomes_alt, ih h, ih' h]
  | star greedy r ih =>
    exact iterate_congr (P := fun s => SameOn f s.rest) (fun s hs => ih hs)
      (fun s hs t ht => hafter r hs ht) _ h
  | group i r ih =>
    rw [Node.mapSets, outcomes_group, outcomes_group, ih h]

theorem find_beginText_mapSets {f : CharSet → CharSet} (r : Node) {v : List Char}
    (h : SameOn f v) : find (.cat (.look .beginText) (r.mapSets f)) v =
      find (.cat (.look .beginText) r) v := by
  rw [find_beginText, find_beginText, outcomes_mapSets r h]

end Grex.Regex
