import Mathlib.Data.List.TakeWhile

/-!
Patterns over any alphabet, matched by backtracking from the start of a text. A
pattern lists the ways to split a text into what it reads and what it leaves, in
the order a backtracking search tries them, and the search takes the first way
that lets the rest of the expression match. A round of a repetition that reads
nothing is given up.
-/

namespace Grex.Backtrack

variable {α β : Type*}

inductive Pattern (α : Type*)
  | empty
  | one (p : α → Bool)
  | seq (r r' : Pattern α)
  | alt (r r' : Pattern α)
  | star (greedy : Bool) (r : Pattern α)
  /-- the end of the text -/
  | stop

/-- Go on after a split, keeping what has been read. -/
def andThen (next : List α → List (List α × List α)) (p : List α × List α) :
    List (List α × List α) :=
  (next p.2).map fun q => (p.1 ++ q.1, q.2)

/-- Repeat a body that moves on, as often as the text allows. -/
def rounds (greedy : Bool) (body : List α → List (List α × List α)) :
    ℕ → List α → List (List α × List α)
  | 0, s => [([], s)]
  | n + 1, s =>
      let more := (body s).flatMap fun p =>
        if p.2.length < s.length then andThen (rounds greedy body n) p else []
      if greedy then more ++ [([], s)] else ([], s) :: more

namespace Pattern

/-- What the pattern reads and leaves, in order of preference. -/
def splits : Pattern α → List α → List (List α × List α)
  | .empty => fun s => [([], s)]
  | .one p => fun s =>
      match s with
      | [] => []
      | a :: rest => if p a then [([a], rest)] else []
  | .seq r r' => fun s => (r.splits s).flatMap (andThen r'.splits)
  | .alt r r' => fun s => r.splits s ++ r'.splits s
  | .star greedy r => fun s => rounds greedy r.splits s.length s
  | .stop => fun s => if s.isEmpty then [([], s)] else []

/-- Whether the pattern matches at the start of the text. -/
def test (r : Pattern α) (s : List α) : Bool := !(r.splits s).isEmpty

/-- What the preferred match at the start of the text reads. -/
def exec (r : Pattern α) (s : List α) : Option (List α) := (r.splits s).head?.map Prod.fst

/-- The patterns one after the other. -/
def cat (rs : List (Pattern α)) : Pattern α := rs.foldr .seq .empty

/-- The text itself. -/
def text [DecidableEq α] (s : List α) : Pattern α :=
  cat (s.map fun a => .one fun b => decide (b = a))

/-- One of the patterns, the earlier the better. -/
def choice (rs : List (Pattern α)) : Pattern α := rs.foldr .alt (.one fun _ => false)

/-- At least once, and as often as possible. -/
def plus (r : Pattern α) : Pattern α := .seq r (.star true r)

/-- Preferably once. -/
def opt (r : Pattern α) : Pattern α := .alt r .empty

end Pattern

open Pattern

/-! ### What is read and what is left make up the text -/

theorem append_of_mem_andThen {next : List α → List (List α × List α)}
    (hnext : ∀ s, ∀ q ∈ next s, q.1 ++ q.2 = s) {p q : List α × List α}
    (hq : q ∈ andThen next p) : q.1 ++ q.2 = p.1 ++ p.2 := by
  obtain ⟨q', hq', rfl⟩ := List.mem_map.mp hq
  rw [List.append_assoc, hnext p.2 q' hq']

theorem append_of_mem_rounds {greedy : Bool} {body : List α → List (List α × List α)}
    (hbody : ∀ s, ∀ p ∈ body s, p.1 ++ p.2 = s) (n : ℕ) :
    ∀ s, ∀ p ∈ rounds greedy body n s, p.1 ++ p.2 = s := by
  induction n with
  | zero =>
    intro s p hp
    rw [List.mem_singleton.mp hp]
    rfl
  | succ n ih =>
    intro s p hp
    have hmore : p ∈ (body s).flatMap (fun p => if p.2.length < s.length then
        andThen (rounds greedy body n) p else []) ∨ p = ([], s) := by
      cases greedy with
      | true => simpa [rounds] using hp
      | false => simpa [rounds, or_comm] using hp
    rcases hmore with hmore | rfl
    · obtain ⟨first, hfirst, hrest⟩ := List.mem_flatMap.mp hmore
      split_ifs at hrest with hmoved
      · rw [append_of_mem_andThen ih hrest, hbody s first hfirst]
      · cases hrest
    · rfl

theorem append_of_mem_splits (r : Pattern α) :
    ∀ s, ∀ p ∈ r.splits s, p.1 ++ p.2 = s := by
  induction r with
  | empty =>
    intro s p hp
    rw [List.mem_singleton.mp hp]
    rfl
  | one c =>
    intro s p hp
    cases s with
    | nil => cases hp
    | cons a rest =>
      simp only [splits] at hp
      split_ifs at hp with ha
      · rw [List.mem_singleton.mp hp]
        rfl
      · cases hp
  | seq r r' ih ih' =>
    intro s p hp
    obtain ⟨first, hfirst, hrest⟩ := List.mem_flatMap.mp hp
    rw [append_of_mem_andThen ih' hrest, ih s first hfirst]
  | alt r r' ih ih' =>
    intro s p hp
    rcases List.mem_append.mp hp with h | h
    · exact ih s p h
    · exact ih' s p h
  | star greedy r ih => exact fun s => append_of_mem_rounds ih s.length s
  | stop =>
    intro s p hp
    simp only [splits] at hp
    split_ifs at hp with hs
    · rw [List.mem_singleton.mp hp]
      rfl
    · cases hp

/-- A search succeeds first through one of its ways to begin. -/
theorem exists_of_head?_flatMap {l : List α} {f : α → List β} {b : β}
    (h : (l.flatMap f).head? = some b) : ∃ a ∈ l, (f a).head? = some b := by
  rw [List.head?_flatMap] at h
  exact List.exists_of_findSome?_eq_some h

/-! ### Greedy runs of one class -/

/-- A run of units of one class, as long as possible. -/
def run (p : α → Bool) : Pattern α := .star true (.one p)

variable {p : α → Bool}

theorem splits_run_cons (a : α) (s : List α) : (run p).splits (a :: s) =
    (if p a then ((run p).splits s).map fun q => (a :: q.1, q.2) else []) ++ [([], a :: s)] := by
  simp only [run, splits, rounds, List.length_cons, if_true]
  split_ifs with ha
  · simp [andThen]
  · simp

/-- A run first takes all it can. -/
theorem splits_run_eq (s : List α) :
    ∃ shorter, (run p).splits s = (s.takeWhile p, s.dropWhile p) :: shorter := by
  induction s with
  | nil => exact ⟨[], rfl⟩
  | cons a s ih =>
    obtain ⟨shorter, hs⟩ := ih
    rw [splits_run_cons]
    by_cases ha : p a = true
    · rw [if_pos ha, hs, List.takeWhile_cons_of_pos ha, List.dropWhile_cons_of_pos ha]
      exact ⟨shorter.map (fun q => (a :: q.1, q.2)) ++ [([], a :: s)], rfl⟩
    · rw [if_neg ha, List.takeWhile_cons_of_neg ha, List.dropWhile_cons_of_neg ha]
      exact ⟨[], rfl⟩

/-- A run reads units of its class and leaves at least what is past them. -/
theorem mem_splits_run {s : List α} {q : List α × List α} (hq : q ∈ (run p).splits s) :
    (∀ a ∈ q.1, p a = true) ∧ s.dropWhile p <:+ q.2 := by
  induction s generalizing q with
  | nil =>
    rw [List.mem_singleton.mp hq]
    exact ⟨by simp, List.suffix_refl []⟩
  | cons a s ih =>
    rw [splits_run_cons, List.mem_append, List.mem_singleton] at hq
    rcases hq with hq | rfl
    · split_ifs at hq with ha
      · obtain ⟨q', hq', rfl⟩ := List.mem_map.mp hq
        obtain ⟨hread, hleft⟩ := ih hq'
        rw [List.dropWhile_cons_of_pos ha]
        exact ⟨List.forall_mem_cons.mpr ⟨ha, hread⟩, hleft⟩
      · cases hq
    · exact ⟨by simp, List.dropWhile_suffix p⟩

/-- A run up to the end of a text reads all of it, and exists exactly if all of
it is of its class. -/
theorem mem_run_to_end {s : List α} {f : List α → β} {b : β} :
    b ∈ ((run p).splits s).flatMap (fun q => if q.2.isEmpty then [f q.1] else []) ↔
      (∀ a ∈ s, p a = true) ∧ b = f s := by
  rw [List.mem_flatMap]
  constructor
  · rintro ⟨q, hq, hb⟩
    split_ifs at hb with hend
    · have hread := (mem_splits_run hq).1
      have hsame := append_of_mem_splits _ s q hq
      rw [List.isEmpty_iff.mp hend, List.append_nil] at hsame
      exact ⟨hsame ▸ hread, hsame ▸ List.mem_singleton.mp hb⟩
    · cases hb
  · rintro ⟨hall, rfl⟩
    obtain ⟨shorter, hs⟩ := splits_run_eq (p := p) s
    rw [List.dropWhile_eq_nil_iff.mpr hall, List.takeWhile_eq_self_iff.mpr hall] at hs
    refine ⟨(s, []), ?_, by simp⟩
    rw [hs]
    exact List.mem_cons_self

/-- A run gives nothing back to what follows unless that could not match
otherwise. -/
theorem head?_run_flatMap {s : List α} {next : List α × List α → List β} {b : β}
    (hnext : ∀ q ∈ (run p).splits s, next q ≠ [] → next (s.takeWhile p, s.dropWhile p) ≠ [])
    (h : (((run p).splits s).flatMap next).head? = some b) :
    (next (s.takeWhile p, s.dropWhile p)).head? = some b := by
  obtain ⟨q, hq, hb⟩ := List.mem_flatMap.mp (List.mem_of_mem_head? h)
  have hfirst := hnext q hq (List.ne_nil_of_mem hb)
  obtain ⟨shorter, hs⟩ := splits_run_eq (p := p) s
  obtain ⟨b', others, hcons⟩ := List.exists_cons_of_ne_nil hfirst
  rw [hs, List.flatMap_cons, hcons] at h
  rw [hcons]
  exact h

theorem exec_run (s : List α) : (run p).exec s = some (s.takeWhile p) := by
  obtain ⟨shorter, hs⟩ := splits_run_eq (p := p) s
  rw [exec, hs]
  rfl

end Grex.Backtrack
