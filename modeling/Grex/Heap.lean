import Mathlib.Order.Lattice
import Mathlib.Data.Nat.Basic

/-!
Binary heaps stored in level order, after Go's `container/heap`: sifting swaps
entries along one path of the tree. A sift starts from an array that is ordered
except around one index, and each swap moves that index one level.
-/

namespace Grex.Heap

variable {α β : Type*} [LinearOrder β] (key : α → β)

/-- The index above `j` in the tree; the root is its own parent. -/
def parent (j : ℕ) : ℕ := (j - 1) / 2

theorem parent_le (j : ℕ) : parent j ≤ j := by
  unfold parent
  omega

theorem parent_lt {j : ℕ} (hj : parent j ≠ j) : parent j < j := by
  have hle := parent_le j
  omega

/-- The smaller of the children that start at `j`, the left one on a tie. -/
def smallerChild (h : Array α) (j : ℕ) (hj : j < h.size) : ℕ :=
  if hright : j + 1 < h.size then
    if key h[j + 1] < key h[j] then j + 1 else j
  else j

theorem smallerChild_lt (h : Array α) (j : ℕ) (hj : j < h.size) :
    smallerChild key h j hj < h.size := by
  unfold smallerChild
  split
  · split <;> omega
  · exact hj

theorem smallerChild_cases (h : Array α) (j : ℕ) (hj : j < h.size) :
    smallerChild key h j hj = j ∨ smallerChild key h j hj = j + 1 := by
  unfold smallerChild
  split
  · split
    · exact Or.inr rfl
    · exact Or.inl rfl
  · exact Or.inl rfl

def up (h : Array α) (j : ℕ) (hj : j < h.size) : Array α :=
  have hparent : parent j < h.size := Nat.lt_of_le_of_lt (parent_le j) hj
  if hstop : parent j = j ∨ ¬ key h[j] < key h[parent j] then h
  else up (h.swap (parent j) j) (parent j) (by rwa [Array.size_swap])
termination_by j
decreasing_by exact parent_lt fun heq => hstop (Or.inl heq)

/-- The array, and the index where the sifted entry stopped. -/
def down (h : Array α) (i : ℕ) (hi : i < h.size) : Array α × ℕ :=
  if hleft : 2 * i + 1 < h.size then
    have hchild := smallerChild_lt key h (2 * i + 1) hleft
    if key h[smallerChild key h (2 * i + 1) hleft] < key h[i] then
      down (h.swap i (smallerChild key h (2 * i + 1) hleft))
        (smallerChild key h (2 * i + 1) hleft) (by rwa [Array.size_swap])
    else (h, i)
  else (h, i)
termination_by h.size - i
decreasing_by
  have hcases := smallerChild_cases key h (2 * i + 1) hleft
  rw [Array.size_swap]
  omega

/-- The heap with one more entry. -/
def push (h : Array α) (x : α) : Array α := up key (h.push x) h.size (by simp)

theorem perm_up (h : Array α) (j : ℕ) (hj : j < h.size) : (up key h j hj).Perm h := by
  fun_induction up key h j hj with
  | case1 h j hj hparent hstop => exact Array.Perm.refl h
  | case2 h j hj hparent hstop ih => exact ih.trans (Array.swap_perm _ _)

theorem perm_down (h : Array α) (i : ℕ) (hi : i < h.size) : (down key h i hi).1.Perm h := by
  fun_induction down key h i hi with
  | case1 h i hi hleft hchild hless ih => exact ih.trans (Array.swap_perm _ _)
  | case2 h i hi hleft hchild hless => exact Array.Perm.refl h
  | case3 h i hi hleft => exact Array.Perm.refl h

/-- Put the entry at `i` where it belongs after its value has changed. -/
def fix (h : Array α) (i : ℕ) (hi : i < h.size) : Array α :=
  if i < (down key h i hi).2 then (down key h i hi).1
  else up key (down key h i hi).1 i (by rwa [(perm_down key h i hi).size_eq])

/-! ### Order -/

/-- No entry is smaller than the one above it. -/
def Ordered (h : Array α) : Prop :=
  ∀ i x y, 0 < i → h[i]? = some x → h[parent i]? = some y → key y ≤ key x

/-- Only the entry at `j` may be smaller than the one above it, and what is
below `j` is no smaller than what is above it. -/
structure UpOrdered (h : Array α) (j : ℕ) : Prop where
  pairs : ∀ i x y, 0 < i → i ≠ j → h[i]? = some x → h[parent i]? = some y → key y ≤ key x
  across : ∀ i x y, 0 < i → 0 < j → parent i = j → h[i]? = some x → h[parent j]? = some y →
    key y ≤ key x

/-- Only the entry at `i` may be larger than one below it, and what is below
`i` is no smaller than what is above it. -/
structure DownOrdered (h : Array α) (i : ℕ) : Prop where
  pairs : ∀ c x y, 0 < c → parent c ≠ i → h[c]? = some x → h[parent c]? = some y → key y ≤ key x
  across : ∀ c x y, 0 < c → 0 < i → parent c = i → h[c]? = some x → h[parent i]? = some y →
    key y ≤ key x

variable {key}

theorem getElem?_swap_of_ne {h : Array α} {i j k : ℕ} (hi : i < h.size) (hj : j < h.size)
    (hki : k ≠ i) (hkj : k ≠ j) : (h.swap i j)[k]? = h[k]? := by
  rw [Array.getElem?_swap, if_neg (Ne.symm hkj), if_neg (Ne.symm hki)]

theorem getElem?_swap_left {h : Array α} {i j : ℕ} (hi : i < h.size) (hj : j < h.size)
    (hne : i ≠ j) : (h.swap i j)[i]? = some h[j] := by
  rw [Array.getElem?_swap, if_neg (Ne.symm hne), if_pos rfl]

theorem getElem?_swap_right {h : Array α} {i j : ℕ} (hi : i < h.size) (hj : j < h.size) :
    (h.swap i j)[j]? = some h[i] := by
  rw [Array.getElem?_swap, if_pos rfl]

theorem UpOrdered.swap {h : Array α} {j : ℕ} (hj : j < h.size) (hparent : parent j < h.size)
    (hup : UpOrdered key h j) (hne : parent j ≠ j) (hless : key h[j] < key h[parent j]) :
    UpOrdered key (h.swap (parent j) j) (parent j) := by
  have hlt : parent j < j := parent_lt hne
  have hat : h[j]? = some h[j] := Array.getElem?_eq_getElem hj
  have habove : h[parent j]? = some h[parent j] := Array.getElem?_eq_getElem hparent
  constructor
  · intro i x y hi hij hx hy
    by_cases hi_eq : i = j
    · subst hi_eq
      rw [getElem?_swap_right hparent hj, Option.some.injEq] at hx
      rw [getElem?_swap_left hparent hj hne, Option.some.injEq] at hy
      rw [← hx, ← hy]
      exact hless.le
    · rw [getElem?_swap_of_ne hparent hj hij hi_eq] at hx
      by_cases hbelow : parent i = j
      · rw [hbelow, getElem?_swap_right hparent hj, Option.some.injEq] at hy
        rw [← hy]
        exact hup.across i x _ hi (by omega) hbelow hx habove
      · by_cases hsibling : parent i = parent j
        · rw [hsibling, getElem?_swap_left hparent hj hne, Option.some.injEq] at hy
          rw [← hy]
          have hpair := hup.pairs i x _ hi hi_eq hx (by rwa [hsibling])
          exact hless.le.trans hpair
        · rw [getElem?_swap_of_ne hparent hj hsibling hbelow] at hy
          exact hup.pairs i x y hi hi_eq hx hy
  · intro i x y hi hpos hbelow hx hy
    have hroot : parent (parent j) < parent j := by
      apply parent_lt
      unfold parent at hpos ⊢
      omega
    rw [getElem?_swap_of_ne hparent hj (by omega) (by omega)] at hy
    have hold := hup.pairs (parent j) _ y hpos hne habove hy
    by_cases hi_eq : i = j
    · subst hi_eq
      rw [getElem?_swap_right hparent hj, Option.some.injEq] at hx
      rwa [← hx]
    · have hi_ne : i ≠ parent j := by
        intro heq
        rw [heq] at hbelow
        omega
      rw [getElem?_swap_of_ne hparent hj hi_ne hi_eq] at hx
      exact hold.trans (hup.pairs i x _ hi hi_eq hx (by rwa [hbelow]))

theorem UpOrdered.stop {h : Array α} {j : ℕ} (hj : j < h.size) (hparent : parent j < h.size)
    (hup : UpOrdered key h j) (hstop : parent j = j ∨ ¬ key h[j] < key h[parent j]) :
    Ordered key h := by
  intro i x y hi hx hy
  by_cases hi_eq : i = j
  · subst hi_eq
    rw [Array.getElem?_eq_getElem hj, Option.some.injEq] at hx
    rw [Array.getElem?_eq_getElem hparent, Option.some.injEq] at hy
    rw [← hx, ← hy]
    rcases hstop with hroot | hle
    · unfold parent at hroot
      omega
    · exact not_lt.mp hle
  · exact hup.pairs i x y hi hi_eq hx hy

theorem ordered_up {h : Array α} {j : ℕ} (hj : j < h.size) (hup : UpOrdered key h j) :
    Ordered key (up key h j hj) := by
  fun_induction up key h j hj with
  | case1 h j hj hparent hstop => exact hup.stop hj hparent hstop
  | case2 h j hj hparent hstop ih =>
    obtain ⟨hne, hless⟩ := not_or.mp hstop
    exact ih (hup.swap hj hparent hne (not_not.mp hless))

theorem ordered_push {h : Array α} (hh : Ordered key h) (x : α) : Ordered key (push key h x) := by
  apply ordered_up
  constructor
  · intro i y z hi hne hy hz
    rw [Array.getElem?_push, if_neg hne] at hy
    have hbound := (Array.getElem?_eq_some_iff.mp hy).1
    have hle := parent_le i
    rw [Array.getElem?_push, if_neg (by omega)] at hz
    exact hh i y z hi hy hz
  · intro i y z hi hpos hbelow hy hz
    have hbound := (Array.getElem?_eq_some_iff.mp hy).1
    rw [Array.size_push] at hbound
    unfold parent at hbelow
    omega

theorem perm_push (h : Array α) (x : α) : (push key h x).toList.Perm (x :: h.toList) := by
  have hperm := (perm_up key (h.push x) h.size (by simp)).toList
  rw [Array.toList_push] at hperm
  exact hperm.trans (List.perm_append_singleton x h.toList)

/-- The chosen child is no larger than either child. -/
theorem smallerChild_le {h : Array α} {i : ℕ} (hleft : 2 * i + 1 < h.size)
    (hchild : smallerChild key h (2 * i + 1) hleft < h.size) {c : ℕ} {x : α} (hc : 0 < c)
    (hbelow : parent c = i) (hx : h[c]? = some x) :
    key h[smallerChild key h (2 * i + 1) hleft] ≤ key x := by
  obtain ⟨hbound, rfl⟩ := Array.getElem?_eq_some_iff.mp hx
  have hcases : c = 2 * i + 1 ∨ c = 2 * i + 1 + 1 := by
    unfold parent at hbelow
    omega
  unfold smallerChild at hchild ⊢
  rcases hcases with rfl | rfl
  · split
    · split
      next hless => exact hless.le
      next => exact le_refl _
    · exact le_refl _
  · rw [dif_pos hbound] at hchild
    simp only [dif_pos hbound]
    split
    next => exact le_refl _
    next hless => exact not_lt.mp hless

theorem DownOrdered.stop {h : Array α} {i : ℕ} (hi : i < h.size) (hdown : DownOrdered key h i)
    (hstop : ∀ c x, 0 < c → parent c = i → h[c]? = some x → key h[i] ≤ key x) :
    Ordered key h := by
  intro c x y hc hx hy
  by_cases hbelow : parent c = i
  · rw [hbelow, Array.getElem?_eq_getElem hi, Option.some.injEq] at hy
    rw [← hy]
    exact hstop c x hc hbelow hx
  · exact hdown.pairs c x y hc hbelow hx hy

theorem DownOrdered.swap {h : Array α} {i j : ℕ} (hi : i < h.size) (hj : j < h.size)
    (hpos : 0 < j) (hparent : parent j = i) (hdown : DownOrdered key h i)
    (hless : key h[j] < key h[i])
    (hsmallest : ∀ c x, 0 < c → parent c = i → h[c]? = some x → key h[j] ≤ key x) :
    DownOrdered key (h.swap i j) j := by
  have hij : i < j := by
    unfold parent at hparent
    omega
  constructor
  · intro c x y hc hne hx hy
    by_cases hci : c = i
    · subst hci
      have habove := parent_le c
      have hself : parent c ≠ c := by
        unfold parent
        omega
      rw [getElem?_swap_left hi hj hij.ne, Option.some.injEq] at hx
      rw [getElem?_swap_of_ne hi hj hself (by omega)] at hy
      rw [← hx]
      exact hdown.across j _ y hpos hc hparent (Array.getElem?_eq_getElem hj) hy
    · by_cases hbelow : parent c = i
      · rw [hbelow, getElem?_swap_left hi hj hij.ne, Option.some.injEq] at hy
        rw [← hy]
        by_cases hcj : c = j
        · rw [hcj, getElem?_swap_right hi hj, Option.some.injEq] at hx
          rw [← hx]
          exact hless.le
        · rw [getElem?_swap_of_ne hi hj hci hcj] at hx
          exact hsmallest c x hc hbelow hx
      · have hcj : c ≠ j := fun heq => hbelow (heq ▸ hparent)
        rw [getElem?_swap_of_ne hi hj hci hcj] at hx
        rw [getElem?_swap_of_ne hi hj hbelow hne] at hy
        exact hdown.pairs c x y hc hbelow hx hy
  · intro c x y hc _ hbelow hx hy
    have hcj : j < c := by
      unfold parent at hbelow
      omega
    rw [getElem?_swap_of_ne hi hj (by omega) (by omega)] at hx
    rw [hparent, getElem?_swap_left hi hj hij.ne, Option.some.injEq] at hy
    rw [← hy]
    have habove : h[parent c]? = some h[j] := by
      rw [hbelow]
      exact Array.getElem?_eq_getElem hj
    exact hdown.pairs c x _ hc (by omega) hx habove

theorem ordered_down {h : Array α} {i : ℕ} (hi : i < h.size) (hdown : DownOrdered key h i) :
    Ordered key (down key h i hi).1 := by
  fun_induction down key h i hi with
  | case1 h i hi hleft hchild hless ih =>
    have hcases := smallerChild_cases key h (2 * i + 1) hleft
    have hparent : parent (smallerChild key h (2 * i + 1) hleft) = i := by
      unfold parent
      omega
    refine ih (hdown.swap hi hchild (by omega) hparent hless ?_)
    intro c x hc hbelow hx
    exact smallerChild_le hleft hchild hc hbelow hx
  | case2 h i hi hleft hchild hless =>
    apply hdown.stop hi
    intro c x hc hbelow hx
    exact (not_lt.mp hless).trans (smallerChild_le hleft hchild hc hbelow hx)
  | case3 h i hi hleft =>
    apply hdown.stop hi
    intro c x hc hbelow hx
    have hbound := (Array.getElem?_eq_some_iff.mp hx).1
    unfold parent at hbelow
    omega

/-- Sifting the root up does nothing. -/
theorem up_zero (h : Array α) (hpos : 0 < h.size) : up key h 0 hpos = h := by
  unfold up
  exact dif_pos (Or.inl rfl)

theorem fix_zero (h : Array α) (hpos : 0 < h.size) : fix key h 0 hpos = (down key h 0 hpos).1 := by
  unfold fix
  split
  · rfl
  · exact up_zero _ _

/-- The root of a heap can be replaced by any entry. -/
theorem ordered_fix_root {h : Array α} (hh : Ordered key h) (hpos : 0 < h.size) (x : α) :
    Ordered key (fix key (h.set 0 x) 0 (by simpa using hpos)) := by
  rw [fix_zero]
  apply ordered_down
  constructor
  · intro c y z hc hne hy hz
    rw [Array.getElem?_set, if_neg (by omega)] at hy
    rw [Array.getElem?_set, if_neg (Ne.symm hne)] at hz
    exact hh c y z hc hy hz
  · intro c y z hc hroot
    exact absurd hroot (lt_irrefl 0)

theorem perm_fix_root (h : Array α) (hpos : 0 < h.size) (x : α) :
    (h[0] :: (fix key (h.set 0 x) 0 (by simpa using hpos)).toList).Perm (x :: h.toList) := by
  obtain ⟨l⟩ := h
  rw [fix_zero]
  have hperm := (perm_down key (Array.set ⟨l⟩ 0 x hpos) 0 (by simpa using hpos)).toList
  cases l with
  | nil => exact absurd hpos (lt_irrefl 0)
  | cons y l =>
    refine (hperm.cons _).trans ?_
    exact List.Perm.swap x y l

/-- No entry of a heap is smaller than its root. -/
theorem root_le {h : Array α} (hh : Ordered key h) (hpos : 0 < h.size) {x : α} (hx : x ∈ h) :
    key h[0] ≤ key x := by
  have hall : ∀ (i : ℕ) x, h[i]? = some x → key h[0] ≤ key x := by
    intro i
    induction i using Nat.strongRecOn with
    | ind i ih =>
      intro x hx
      rcases Nat.eq_zero_or_pos i with rfl | hi
      · rw [Array.getElem?_eq_getElem hpos, Option.some.injEq] at hx
        rw [hx]
      · have hbound := (Array.getElem?_eq_some_iff.mp hx).1
        have hlt : parent i < i := by
          unfold parent
          omega
        have habove : h[parent i]? = some h[parent i] := Array.getElem?_eq_getElem (by omega)
        exact (ih (parent i) hlt _ habove).trans (hh i x _ hi hx habove)
  obtain ⟨i, hi, rfl⟩ := Array.mem_iff_getElem.mp hx
  exact hall i _ (Array.getElem?_eq_getElem hi)

end Grex.Heap
