import Mathlib.Data.List.Forall2

/-!
A listing reads its keys in turn and fails with the first read that fails. What
it returns is, position by position, what the single reads return.
-/

namespace Grex.Scans

variable {α β γ : Type*} {f : α → Option β} {l : List α} {ys : List β}

theorem mapM_eq_some_iff :
    l.mapM f = some ys ↔ List.Forall₂ (fun x y => f x = some y) l ys := by
  induction l generalizing ys with
  | nil =>
    rw [List.forall₂_nil_left_iff]
    exact Option.some_inj.trans eq_comm
  | cons x l ih =>
    rw [List.mapM_cons]
    constructor
    · intro h
      obtain ⟨y, hy, hrest⟩ := Option.bind_eq_some_iff.mp h
      obtain ⟨rest, htail, hcons⟩ := Option.bind_eq_some_iff.mp hrest
      obtain rfl := Option.some.inj hcons
      exact List.Forall₂.cons hy (ih.mp htail)
    · intro h
      obtain ⟨y, rest, hy, htail, rfl⟩ := List.forall₂_cons_left_iff.mp h
      simp only [hy, ih.mpr htail, Option.bind_eq_bind, Option.bind_some, Option.pure_def]

/-- A listing whose single reads all succeed succeeds. -/
theorem exists_mapM (h : ∀ x ∈ l, ∃ y, f x = some y) : ∃ ys, l.mapM f = some ys := by
  induction l with
  | nil => exact ⟨[], rfl⟩
  | cons x l ih =>
    obtain ⟨y, hy⟩ := h x List.mem_cons_self
    obtain ⟨rest, hrest⟩ := ih fun z hz => h z (List.mem_cons_of_mem x hz)
    exact ⟨y :: rest, mapM_eq_some_iff.mpr (.cons hy (mapM_eq_some_iff.mp hrest))⟩

theorem mem_of_mapM (h : l.mapM f = some ys) {x : α} (hx : x ∈ l) : ∃ y ∈ ys, f x = some y := by
  have hreads := mapM_eq_some_iff.mp h
  clear h
  induction hreads with
  | nil => cases hx
  | cons hy _ ih =>
    rcases List.mem_cons.mp hx with rfl | hx
    · exact ⟨_, List.mem_cons_self, hy⟩
    · obtain ⟨y, hmem, hread⟩ := ih hx
      exact ⟨y, List.mem_cons_of_mem _ hmem, hread⟩

/-- Where every entry tells the key it was read at, the entries tell the keys in order. -/
theorem map_of_mapM {g : β → α} (hfg : ∀ x y, f x = some y → g y = x)
    (h : l.mapM f = some ys) : ys.map g = l := by
  have hreads := mapM_eq_some_iff.mp h
  clear h
  induction hreads with
  | nil => rfl
  | cons hy _ ih => rw [List.map_cons, hfg _ _ hy, ih]

theorem mapM_map (f : α → Option β) (g : β → γ) (l : List α) :
    (l.mapM fun x => (f x).map g) = (l.mapM f).map (List.map g) := by
  induction l with
  | nil => rfl
  | cons x l ih =>
    rw [List.mapM_cons, List.mapM_cons, ih]
    cases f x with
    | none => rfl
    | some y => cases l.mapM f <;> rfl

end Grex.Scans
