import Grex.Heap

/-!
A heap that keeps the entries with the largest keys. Once it is full its root, the
smallest key kept, gives way to any larger one.
-/

namespace Grex.Heap

variable {α β : Type*} [LinearOrder β] (key : α → β)

/-- Offer one entry to a heap of at most `bound`; there has to be a root to compare
with once it is full. -/
def offer (bound : ℕ) (h : Array α) (x : α) : Option (Array α) :=
  if h.size < bound then some (push key h x)
  else if hpos : 0 < h.size then
    if key h[0] < key x then some (fix key (h.set 0 x) 0 (by simpa using hpos)) else some h
  else none

/-- Of the entries seen, those with the largest keys are kept. -/
structure Keeps (bound : ℕ) (seen : List α) (h : Array α) : Prop where
  ordered : Ordered key h
  size : h.size = min bound seen.length
  dropped : ∃ dropped, (h.toList ++ dropped).Perm seen ∧
    ∀ x ∈ h.toList, ∀ y ∈ dropped, key y ≤ key x

variable {key} {bound : ℕ}

theorem keeps_nil (key : α → β) (bound : ℕ) : Keeps key bound [] #[] where
  ordered := by
    intro j x y _ hx
    simp at hx
  size := by simp
  dropped := ⟨[], List.Perm.refl _, by simp⟩

theorem Keeps.push {seen : List α} {h : Array α} (hh : Keeps key bound seen h)
    (hsize : h.size < bound) (x : α) : Keeps key bound (seen ++ [x]) (push key h x) := by
  obtain ⟨dropped, hperm, -⟩ := hh.dropped
  have hlength := hperm.length_eq
  have hkept := hh.size
  rw [List.length_append, Array.length_toList] at hlength
  -- Nothing has been dropped before the heap is full.
  obtain rfl : dropped = [] := List.eq_nil_of_length_eq_zero (by omega)
  rw [List.append_nil] at hperm
  have hnew : (Heap.push key h x).toList.Perm (seen ++ [x]) :=
    (perm_push h x).trans ((hperm.cons x).trans (List.perm_append_singleton x seen).symm)
  refine ⟨ordered_push hh.ordered x, ?_, [], by rwa [List.append_nil], by simp⟩
  have hsame := hnew.length_eq
  rw [Array.length_toList, List.length_append, List.length_singleton] at hsame
  rw [hsame, List.length_append, List.length_singleton]
  omega

/-- A larger key takes the place of the root, which is the next to be dropped. -/
theorem Keeps.replace {seen : List α} {h : Array α} (hh : Keeps key bound seen h)
    (hfull : bound ≤ h.size) (hpos : 0 < h.size) {x : α} (hx : key h[0] < key x) :
    Keeps key bound (seen ++ [x]) (fix key (h.set 0 x) 0 (by simpa using hpos)) := by
  obtain ⟨dropped, hperm, hle⟩ := hh.dropped
  have hordered := ordered_fix_root hh.ordered hpos x
  have hroot : (h[0] :: (fix key (h.set 0 x) 0 (by simpa using hpos)).toList).Perm (x :: h.toList) :=
    perm_fix_root h hpos x
  generalize fix key (h.set 0 x) 0 _ = h' at hordered hroot ⊢
  have hlength := hroot.length_eq
  simp only [List.length_cons, Array.length_toList] at hlength
  have hkept := hh.size
  refine ⟨hordered, ?_, h[0] :: dropped, ?_, fun y hy z hz => ?_⟩
  · rw [List.length_append, List.length_singleton]
    omega
  · calc List.Perm (h'.toList ++ h[0] :: dropped) (h[0] :: h'.toList ++ dropped) := List.perm_middle
      List.Perm _ (x :: h.toList ++ dropped) := hroot.append_right dropped
      List.Perm _ (x :: seen) := hperm.cons x
      List.Perm _ (seen ++ [x]) := (List.perm_append_singleton x seen).symm
  · have hlow : ∀ y ∈ h'.toList, key h[0] ≤ key y := by
      intro y hy
      rcases List.mem_cons.mp (hroot.subset (List.mem_cons_of_mem _ hy)) with rfl | hmem
      · exact hx.le
      · exact root_le hh.ordered hpos (Array.mem_toList_iff.mp hmem)
    rcases List.mem_cons.mp hz with rfl | hz
    · exact hlow y hy
    · exact (hle h[0] (Array.mem_toList_iff.mpr (Array.getElem_mem hpos)) z hz).trans (hlow y hy)

/-- A smaller key is dropped at once. -/
theorem Keeps.skip {seen : List α} {h : Array α} (hh : Keeps key bound seen h)
    (hfull : bound ≤ h.size) (hpos : 0 < h.size) {x : α} (hx : ¬ key h[0] < key x) :
    Keeps key bound (seen ++ [x]) h := by
  obtain ⟨dropped, hperm, hle⟩ := hh.dropped
  have hkept := hh.size
  refine ⟨hh.ordered, ?_, dropped ++ [x], ?_, fun y hy z hz => ?_⟩
  · rw [List.length_append, List.length_singleton]
    omega
  · rw [← List.append_assoc]
    exact hperm.append_right [x]
  · rcases List.mem_append.mp hz with hz | hz
    · exact hle y hy z hz
    · rw [List.mem_singleton.mp hz]
      exact (not_lt.mp hx).trans (root_le hh.ordered hpos (Array.mem_toList_iff.mp hy))

theorem Keeps.offer {seen : List α} {h : Array α} (hh : Keeps key bound seen h)
    (hbound : 0 < bound) (x : α) :
    ∃ h', offer key bound h x = some h' ∧ Keeps key bound (seen ++ [x]) h' := by
  unfold Heap.offer
  by_cases hsize : h.size < bound
  · rw [if_pos hsize]
    exact ⟨_, rfl, hh.push hsize x⟩
  · have hfull : bound ≤ h.size := not_lt.mp hsize
    have hpos : 0 < h.size := by omega
    rw [if_neg hsize, dif_pos hpos]
    by_cases hx : key h[0] < key x
    · rw [if_pos hx]
      exact ⟨_, rfl, hh.replace hfull hpos hx⟩
    · rw [if_neg hx]
      exact ⟨h, rfl, hh.skip hfull hpos hx⟩

/-- Offering a whole list never fails, and keeps its largest keys. -/
theorem foldlM_offer {seen : List α} {h : Array α} (hh : Keeps key bound seen h)
    (hbound : 0 < bound) (l : List α) :
    ∃ h', l.foldlM (offer key bound) h = some h' ∧ Keeps key bound (seen ++ l) h' := by
  induction l generalizing seen h with
  | nil => exact ⟨h, rfl, by rwa [List.append_nil]⟩
  | cons x l ih =>
    obtain ⟨h₁, hoffer, hkeeps⟩ := hh.offer hbound x
    obtain ⟨h', hrun, hkeeps'⟩ := ih hkeeps
    refine ⟨h', ?_, by rwa [List.append_assoc] at hkeeps'⟩
    rw [List.foldlM_cons, hoffer]
    exact hrun

end Grex.Heap
