import Mathlib.Order.Lattice
import Mathlib.Order.MinMax
import Mathlib.Data.List.Perm.Basic

/-!
Registers whose writes are guarded by a stamp: a write older than the stored
stamp changes nothing, a newer one determines what is seen. When no two writes
carry the same stamp and none carries the stored one, the newest write decides
the outcome whatever the order of arrival. How ties are treated is left to the
register, so a strict and a lenient guard are both instances.
-/

namespace Grex.LastWriter

/-- `view` is the part of the state the writes decide, and `fresh` what a
write puts there. -/
structure Register (S W T V : Type*) [LinearOrder T] where
  stamp : S → T
  key : W → T
  put : S → W → S
  view : S → V
  fresh : W → V
  stamp_put : ∀ s w, stamp (put s w) = max (stamp s) (key w)
  view_of_older : ∀ s w, key w < stamp s → view (put s w) = view s
  view_of_newer : ∀ s w, stamp s < key w → view (put s w) = fresh w

variable {S W T V : Type*} [LinearOrder T] (R : Register S W T V)

def writeAll (s : S) (ws : List W) : S := ws.foldl R.put s

/-- No two writes tie with each other or with the stored stamp. -/
structure Untied (s : S) (ws : List W) : Prop where
  nodup : (ws.map R.key).Nodup
  ne_stamp : ∀ w ∈ ws, R.key w ≠ R.stamp s

theorem Untied.tail {s : S} {w : W} {ws : List W} (h : Untied R s (w :: ws)) :
    Untied R (R.put s w) ws where
  nodup := (List.nodup_cons.mp h.nodup).2
  ne_stamp v hv := by
    have hstamp : R.key v ≠ R.stamp s := h.ne_stamp v (List.mem_cons_of_mem w hv)
    have hkey : R.key v ≠ R.key w := by
      intro heq
      have hmem : R.key w ∈ ws.map R.key := heq ▸ List.mem_map_of_mem hv
      exact (List.nodup_cons.mp h.nodup).1 hmem
    rw [R.stamp_put]
    rcases max_choice (R.stamp s) (R.key w) with hmax | hmax
    · rw [hmax]
      exact hstamp
    · rw [hmax]
      exact hkey

theorem Untied.perm {s : S} {ws ws' : List W} (h : Untied R s ws) (hp : ws.Perm ws') :
    Untied R s ws' where
  nodup := (hp.map R.key).nodup_iff.mp h.nodup
  ne_stamp w hw := h.ne_stamp w (hp.mem_iff.mpr hw)

/-- Writes that are all older leave what is seen unchanged. -/
theorem view_writeAll_of_older (s : S) (ws : List W)
    (hold : ∀ w ∈ ws, R.key w < R.stamp s) : R.view (writeAll R s ws) = R.view s := by
  induction ws generalizing s with
  | nil => rfl
  | cons w ws ih =>
    have hw : R.key w < R.stamp s := hold w List.mem_cons_self
    have hput : R.stamp (R.put s w) = R.stamp s := by
      rw [R.stamp_put]
      exact max_eq_left hw.le
    have htail := ih (R.put s w) fun v hv => by
      rw [hput]
      exact hold v (List.mem_cons_of_mem w hv)
    exact htail.trans (R.view_of_older s w hw)

/-- The newest write decides, once it is newer than the stored stamp. -/
theorem view_writeAll_of_newest (s : S) (ws : List W) (huntied : Untied R s ws)
    (w : W) (hw : w ∈ ws) (hmax : ∀ v ∈ ws, R.key v ≤ R.key w)
    (hnew : R.stamp s < R.key w) : R.view (writeAll R s ws) = R.fresh w := by
  induction ws generalizing s with
  | nil => simp at hw
  | cons u ws ih =>
    have hu : R.key u ≤ R.key w := hmax u List.mem_cons_self
    rcases List.mem_cons.mp hw with rfl | htail
    · have hstamp : R.stamp (R.put s w) = R.key w := by
        rw [R.stamp_put]
        exact max_eq_right hnew.le
      have hrest := view_writeAll_of_older R (R.put s w) ws fun v hv => by
        have hne : R.key v ≠ R.stamp (R.put s w) := huntied.tail.ne_stamp v hv
        rw [hstamp] at hne ⊢
        exact lt_of_le_of_ne (hmax v (List.mem_cons_of_mem w hv)) hne
      exact hrest.trans (R.view_of_newer s w hnew)
    · have hnew' : R.stamp (R.put s u) < R.key w := by
        have hne : R.key w ≠ R.stamp (R.put s u) := huntied.tail.ne_stamp w htail
        refine lt_of_le_of_ne ?_ (Ne.symm hne)
        rw [R.stamp_put]
        exact max_le hnew.le hu
      exact ih (R.put s u) huntied.tail htail
        (fun v hv => hmax v (List.mem_cons_of_mem u hv)) hnew'

/-- A list of writes is empty or has a newest one. -/
theorem exists_newest (ws : List W) (hne : ws ≠ []) :
    ∃ w ∈ ws, ∀ v ∈ ws, R.key v ≤ R.key w := by
  induction ws with
  | nil => exact absurd rfl hne
  | cons u ws ih =>
    by_cases hws : ws = []
    · subst hws
      exact ⟨u, List.mem_cons_self, by simp⟩
    · obtain ⟨w, hw, hmax⟩ := ih hws
      rcases le_total (R.key w) (R.key u) with hle | hle
      · refine ⟨u, List.mem_cons_self, fun v hv => ?_⟩
        rcases List.mem_cons.mp hv with rfl | hv'
        · exact le_refl _
        · exact (hmax v hv').trans hle
      · refine ⟨w, List.mem_cons_of_mem u hw, fun v hv => ?_⟩
        rcases List.mem_cons.mp hv with rfl | hv'
        · exact hle
        · exact hmax v hv'

/-- The outcome the newest write determines: its own contents when it is newer
than the stored stamp, and what was stored otherwise. -/
def Decided (s : S) (ws : List W) (v : V) : Prop :=
  (∃ w ∈ ws, (∀ u ∈ ws, R.key u ≤ R.key w) ∧ R.stamp s < R.key w ∧ v = R.fresh w) ∨
    ((∀ w ∈ ws, R.key w ≤ R.stamp s) ∧ v = R.view s)

theorem decided_writeAll (s : S) (ws : List W) (huntied : Untied R s ws) :
    Decided R s ws (R.view (writeAll R s ws)) := by
  by_cases hold : ∀ w ∈ ws, R.key w ≤ R.stamp s
  · refine Or.inr ⟨hold, view_writeAll_of_older R s ws fun w hw => ?_⟩
    exact lt_of_le_of_ne (hold w hw) (huntied.ne_stamp w hw)
  · have hne : ws ≠ [] := by
      intro hnil
      subst hnil
      simp at hold
    obtain ⟨w, hw, hmax⟩ := exists_newest R ws hne
    have hnew : R.stamp s < R.key w := by
      by_contra hle
      apply hold
      intro v hv
      exact (hmax v hv).trans (not_lt.mp hle)
    exact Or.inl ⟨w, hw, hmax, hnew, view_writeAll_of_newest R s ws huntied w hw hmax hnew⟩

/-- Every order of arrival gives the same outcome. -/
theorem view_writeAll_perm (s : S) (ws ws' : List W) (huntied : Untied R s ws)
    (hp : ws.Perm ws') : R.view (writeAll R s ws) = R.view (writeAll R s ws') := by
  have huntied' : Untied R s ws' := huntied.perm R hp
  rcases decided_writeAll R s ws huntied with ⟨w, hw, hmax, hnew, heq⟩ | ⟨hold, heq⟩
  · have hmax' : ∀ v ∈ ws', R.key v ≤ R.key w := fun v hv => hmax v (hp.mem_iff.mpr hv)
    rw [heq, view_writeAll_of_newest R s ws' huntied' w (hp.mem_iff.mp hw) hmax' hnew]
  · have hold' : ∀ w ∈ ws', R.key w < R.stamp s := by
      intro w hw
      exact lt_of_le_of_ne (hold w (hp.mem_iff.mpr hw)) (huntied'.ne_stamp w hw)
    rw [heq, view_writeAll_of_older R s ws' hold']

end Grex.LastWriter
