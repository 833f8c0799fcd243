import Mathlib.Data.List.Basic

/-!
Texts as lists of lines. A text is split at every separator and joined with one between
any two lines, so it always has at least one line. A rewriting of each line for itself
keeps the lines apart as long as it writes no separator.
-/

namespace Grex.Lines

variable {α : Type*}

def unlines (sep : α) (ls : List (List α)) : List α := [sep].intercalate ls

variable {sep : α} {s : List α} {ls : List (List α)} {f : List α → List α}

theorem unlines_cons {l : List α} (hne : ls ≠ []) :
    unlines sep (l :: ls) = l ++ sep :: unlines sep ls := by
  unfold unlines
  rw [List.intercalate_cons_of_ne_nil hne, List.append_assoc]
  rfl

theorem mem_unlines {a : α} (h : a ∈ unlines sep ls) : a = sep ∨ ∃ l ∈ ls, a ∈ l := by
  induction ls with
  | nil => cases h
  | cons l ls ih =>
    by_cases hne : ls = []
    · subst hne
      have hsingle : unlines sep [l] = l := List.intercalate_singleton
      rw [hsingle] at h
      exact Or.inr ⟨l, List.mem_singleton.mpr rfl, h⟩
    · rw [unlines_cons hne, List.mem_append, List.mem_cons] at h
      rcases h with h | h | h
      · exact Or.inr ⟨l, List.mem_cons_self, h⟩
      · exact Or.inl h
      · rcases ih h with hsep | ⟨l', hl', ha⟩
        · exact Or.inl hsep
        · exact Or.inr ⟨l', List.mem_cons_of_mem l hl', ha⟩

variable [DecidableEq α]

def lines (sep : α) (s : List α) : List (List α) := s.splitOn sep

/-- Rewrite every line for itself. -/
def mapLines (sep : α) (f : List α → List α) (s : List α) : List α :=
  unlines sep ((lines sep s).map f)

theorem lines_ne_nil (sep : α) (s : List α) : lines sep s ≠ [] := List.splitOn_ne_nil sep s

theorem unlines_lines (sep : α) (s : List α) : unlines sep (lines sep s) = s :=
  List.intercalate_splitOn sep

theorem lines_unlines (hls : ∀ l ∈ ls, sep ∉ l) (hne : ls ≠ []) : lines sep (unlines sep ls) = ls :=
  List.splitOn_intercalate sep hls hne

theorem lines_cons (a : α) (s : List α) : lines sep (a :: s) =
    if a = sep then [] :: lines sep s else (lines sep s).modifyHead (List.cons a) := by
  unfold lines
  rw [List.splitOn_cons_eq_if_modifyHead]
  simp only [beq_iff_eq]

/-- A line that is followed by a separator. -/
theorem lines_append_cons {l : List α} (h : sep ∉ l) (s : List α) :
    lines sep (l ++ sep :: s) = l :: lines sep s := by
  induction l with
  | nil => rw [List.nil_append, lines_cons, if_pos rfl]
  | cons a l ih =>
    rw [List.mem_cons, not_or] at h
    rw [List.cons_append, lines_cons, if_neg (Ne.symm h.1), ih h.2]
    rfl

theorem length_lines (sep : α) (s : List α) : (lines sep s).length = s.count sep + 1 := by
  induction s with
  | nil => rfl
  | cons a s ih =>
    rw [lines_cons, List.count_cons]
    split_ifs with ha hbeq
    all_goals simp_all

theorem notMem_of_mem_lines {l : List α} (h : l ∈ lines sep s) : sep ∉ l := by
  induction s generalizing l with
  | nil =>
    rw [List.mem_singleton.mp h]
    exact List.not_mem_nil
  | cons a s ih =>
    rw [lines_cons] at h
    split_ifs at h with ha
    · rcases List.mem_cons.mp h with rfl | htail
      · exact List.not_mem_nil
      · exact ih htail
    · obtain ⟨first, rest, hsplit⟩ := List.exists_cons_of_ne_nil (lines_ne_nil sep s)
      rw [hsplit] at h ih
      rcases List.mem_cons.mp h with rfl | htail
      · rw [List.mem_cons, not_or]
        exact ⟨fun heq => ha heq.symm, ih List.mem_cons_self⟩
      · exact ih (List.mem_cons_of_mem first htail)

theorem lines_mapLines (hf : ∀ l ∈ lines sep s, sep ∉ f l) :
    lines sep (mapLines sep f s) = (lines sep s).map f := by
  refine lines_unlines (fun l hl => ?_) (by simpa using lines_ne_nil sep s)
  obtain ⟨l', hl', rfl⟩ := List.mem_map.mp hl
  exact hf l' hl'

/-- A rewriting changes nothing exactly if it changes no line. -/
theorem mapLines_eq_self_iff (hf : ∀ l ∈ lines sep s, sep ∉ f l) :
    mapLines sep f s = s ↔ ∀ l ∈ lines sep s, f l = l := by
  constructor
  · intro h
    have hmap := lines_mapLines hf
    rw [h] at hmap
    have hself := List.map_eq_map_iff.mp (hmap.symm.trans (List.map_id _).symm)
    exact hself
  · intro h
    have hmap : (lines sep s).map f = lines sep s := by
      conv_rhs => rw [← List.map_id (lines sep s)]
      exact List.map_congr_left h
    unfold mapLines
    rw [hmap, unlines_lines]

end Grex.Lines
