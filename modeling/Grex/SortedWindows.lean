import Mathlib.Data.Finset.Sort
import Mathlib.Data.List.Sort
import Mathlib.Order.Defs.LinearOrder

/-!
Windows of a list sorted by a key. A list in strictly ascending order is determined
by its members, so sorting does not depend on the order the entries came in where
their keys are distinct.
-/

namespace Grex.SortedWindows

variable {α β : Type*} [LinearOrder β]

/-- Sort by a key, equal keys in the order they came in. -/
def sortBy (key : α → β) (l : List α) : List α := l.mergeSort fun a b => decide (key a ≤ key b)

/-- The entries of a set, collected in any order and then sorted. -/
def sorted (s : Finset β) : List β := s.sort (· ≤ ·)

/-- `l[i:j]`, where the indices are in range. -/
def slice (l : List α) (i j : ℕ) : Option (List α) :=
  if i ≤ j ∧ j ≤ l.length then some ((l.drop i).take (j - i)) else none

/-- What a sort by comparison promises: the same entries, none in front of a smaller
one. Entries that compare equal may come in any order. -/
structure Sorts (cmp : α → α → Ordering) (sort : List α → List α) : Prop where
  perm : ∀ l, (sort l).Perm l
  pairwise : ∀ l, (sort l).Pairwise fun a b => cmp a b ≠ .gt

/-- Strictly ascending keys. -/
def Ascending (key : α → β) (l : List α) : Prop := l.Pairwise fun a b => key a < key b

variable {key : α → β}

theorem perm_sortBy (key : α → β) (l : List α) : (sortBy key l).Perm l := List.mergeSort_perm l _

@[simp] theorem length_sortBy (key : α → β) (l : List α) : (sortBy key l).length = l.length :=
  (perm_sortBy key l).length_eq

@[simp] theorem mem_sortBy {l : List α} {a : α} : a ∈ sortBy key l ↔ a ∈ l :=
  (perm_sortBy key l).mem_iff

@[simp] theorem mem_sorted {s : Finset β} {b : β} : b ∈ sorted s ↔ b ∈ s := Finset.mem_sort _

theorem pairwise_sortBy (key : α → β) (l : List α) :
    (sortBy key l).Pairwise fun a b => key a ≤ key b := by
  have hsorted : (sortBy key l).Pairwise fun a b => decide (key a ≤ key b) = true := by
    refine List.pairwise_mergeSort (fun a b c hab hbc => ?_) (fun a b => ?_) l
    · exact decide_eq_true ((of_decide_eq_true hab).trans (of_decide_eq_true hbc))
    · simpa using le_total (key a) (key b)
  exact hsorted.imp of_decide_eq_true

theorem ascending_sortBy {l : List α} (h : (l.map key).Nodup) : Ascending key (sortBy key l) := by
  have hnodup : ((sortBy key l).map key).Nodup := ((perm_sortBy key l).map key).nodup_iff.mpr h
  have hne := List.pairwise_map.mp hnodup
  exact (pairwise_sortBy key l).imp₂ (fun a b hle hne => lt_of_le_of_ne hle hne) hne

/-- Two ascending lists with the same members are equal. -/
theorem Ascending.eq_of_mem_iff {l l' : List α} (h : Ascending key l) (h' : Ascending key l')
    (hmem : ∀ a, a ∈ l ↔ a ∈ l') : l = l' := by
  have hnodup : ∀ l : List α, Ascending key l → l.Nodup := by
    intro l h
    refine List.Pairwise.imp ?_ h
    rintro a b hlt rfl
    exact lt_irrefl _ hlt
  have hperm : l.Perm l' := (List.perm_ext_iff_of_nodup (hnodup l h) (hnodup l' h')).mpr hmem
  exact hperm.eq_of_pairwise (fun a b _ _ hab hba => absurd hab (lt_asymm hba)) h h'

/-- Where every key of one part is at most every key of the other, the parts are
sorted on their own. -/
theorem sortBy_of_split {l low high : List α} (hl : (l.map key).Nodup)
    (hperm : (low ++ high).Perm l) (hle : ∀ a ∈ low, ∀ b ∈ high, key a ≤ key b) :
    sortBy key l = sortBy key low ++ sortBy key high := by
  have hnodup : ((low ++ high).map key).Nodup := (hperm.map key).nodup_iff.mpr hl
  rw [List.map_append, List.nodup_append] at hnodup
  obtain ⟨hlow, hhigh, hdisjoint⟩ := hnodup
  apply (ascending_sortBy hl).eq_of_mem_iff
  · apply List.pairwise_append.mpr
    refine ⟨ascending_sortBy hlow, ascending_sortBy hhigh, fun a ha b hb => ?_⟩
    have ha' := mem_sortBy.mp ha
    have hb' := mem_sortBy.mp hb
    exact lt_of_le_of_ne (hle a ha' b hb')
      (hdisjoint _ (List.mem_map_of_mem ha') _ (List.mem_map_of_mem hb'))
  · intro a
    rw [mem_sortBy, List.mem_append, mem_sortBy, mem_sortBy, ← List.mem_append]
    exact hperm.symm.mem_iff

/-- Two sorted arrangements of the same entries have the same keys, place by place. -/
theorem map_key_eq_of_perm {l l' : List α} (hperm : l.Perm l')
    (h : l.Pairwise fun a b => key a ≤ key b) (h' : l'.Pairwise fun a b => key a ≤ key b) :
    l.map key = l'.map key :=
  (hperm.map key).eq_of_pairwise (fun _ _ _ _ => le_antisymm) (List.pairwise_map.mpr h)
    (List.pairwise_map.mpr h')

omit [LinearOrder β] in
/-- Entries with distinct keys are told apart by them. -/
theorem eq_of_map_key_eq {l : List α} (hl : (l.map key).Nodup) {u v : List α}
    (hu : ∀ a ∈ u, a ∈ l) (hv : ∀ a ∈ v, a ∈ l) (huv : u.map key = v.map key) : u = v := by
  apply List.ext_getElem (by simpa using congrArg List.length huv)
  intro i hi hi'
  have hkey : key u[i] = key v[i] := by
    have hget := List.getElem_of_eq huv (i := i) (by simpa using hi)
    simpa using hget
  exact List.inj_on_of_nodup_map hl (hu _ (List.getElem_mem hi)) (hv _ (List.getElem_mem hi')) hkey

section Comparison

variable {cmp : α → α → Ordering}

end Comparison

theorem slice_eq_some {l : List α} {i j : ℕ} (hij : i ≤ j) (hj : j ≤ l.length) :
    slice l i j = some ((l.drop i).take (j - i)) := if_pos ⟨hij, hj⟩

/-- A window whose ends are moved into range is the window itself. -/
theorem clamped_window (l : List α) (offset width : ℕ) :
    (l.drop (min offset l.length)).take
        (min (min offset l.length + width) l.length - min offset l.length) =
      (l.drop offset).take width := by
  rcases le_total offset l.length with hle | hle
  · have hwidth : min (offset + width) l.length - offset = min width (l.drop offset).length := by
      rw [List.length_drop]
      omega
    rw [min_eq_left hle, hwidth, ← List.take_eq_take_min]
  · rw [min_eq_right hle, List.drop_length, List.drop_eq_nil_of_le hle, List.take_nil, List.take_nil]

/-- Consecutive windows make up the list they are taken from. -/
theorem flatMap_windows (l : List α) (width n : ℕ) :
    ((List.range n).flatMap fun i => (l.drop (i * width)).take width) = l.take (n * width) := by
  induction n with
  | zero => simp
  | succ n ih =>
    rw [List.range_succ, List.flatMap_append, ih, List.flatMap_singleton, Nat.succ_mul,
      List.take_add]

end Grex.SortedWindows
