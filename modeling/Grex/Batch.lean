import Mathlib.Data.List.Basic
import Mathlib.Data.List.Nodup
import Mathlib.Data.Option.Basic

/-!
Statements sent to a transactional store in batches. The statements of one
batch run in order inside one transaction, so a failing statement undoes the
whole batch; yet the results of the statements before it have already been read
as successes. A statement sent alone is a batch of one. Statements on different
slots of the store, whose success does not depend on one another, are described
slot by slot whatever the division into batches.
-/

namespace Grex.Batch

variable {A S K V : Type*}

/-- Run the statements in order; the first failure stops them all. -/
def runAll (stmt : A → S → Option S) : List A → S → Option S
  | [], s => some s
  | a :: as, s => (stmt a s).bind (runAll stmt as)

/-- The store after one batch: all of it, or nothing. -/
def send (stmt : A → S → Option S) (as : List A) (s : S) : S := (runAll stmt as s).getD s

/-- The statements whose results are read without an error. -/
def acknowledged (stmt : A → S → Option S) : List A → S → List A
  | [], _ => []
  | a :: as, s =>
      match stmt a s with
      | none => []
      | some t => a :: acknowledged stmt as t

def sendAll (stmt : A → S → Option S) (batches : List (List A)) (s : S) : S :=
  batches.foldl (fun s as => send stmt as s) s

/-- What every statement of a batch keeps, the batch keeps. -/
theorem send_invariant {stmt : A → S → Option S} (P : S → Prop) (as : List A)
    (hstmt : ∀ a ∈ as, ∀ s t, stmt a s = some t → P s → P t) (s : S) (hs : P s) :
    P (send stmt as s) := by
  have hrun : ∀ t, runAll stmt as s = some t → P t := by
    induction as generalizing s with
    | nil =>
      intro t hst
      obtain rfl : s = t := Option.some.inj hst
      exact hs
    | cons a as ih =>
      intro t hst
      obtain ⟨u, ha, htail⟩ := Option.bind_eq_some_iff.mp hst
      have hu : P u := hstmt a List.mem_cons_self s u ha hs
      exact ih (fun b hb => hstmt b (List.mem_cons_of_mem a hb)) u hu t htail
  unfold send
  cases hst : runAll stmt as s with
  | none => exact hs
  | some t => exact hrun t hst

/-- Each statement rewrites the slot of its own key, and no statement decides
whether another one succeeds. -/
structure Independent (stmt : A → S → Option S) (key : A → K) (slot : S → K → V)
    (put : A → V → V) : Prop where
  slot_self : ∀ a s t, stmt a s = some t → slot t (key a) = put a (slot s (key a))
  slot_other : ∀ a s t k, stmt a s = some t → k ≠ key a → slot t k = slot s k
  isSome_stmt : ∀ a b s t, stmt b s = some t → (stmt a t).isSome = (stmt a s).isSome

section Independent

variable {stmt : A → S → Option S} {key : A → K} {slot : S → K → V} {put : A → V → V}
variable (h : Independent stmt key slot put)

include h

theorem isSome_runAll_of_ok (as : List A) (s t : S) (hrun : runAll stmt as s = some t) (a : A) :
    (stmt a t).isSome = (stmt a s).isSome := by
  induction as generalizing s with
  | nil =>
    obtain rfl : s = t := Option.some.inj hrun
    rfl
  | cons b as ih =>
    obtain ⟨u, hb, htail⟩ := Option.bind_eq_some_iff.mp hrun
    rw [ih u htail, h.isSome_stmt a b s u hb]

/-- A batch commits exactly when each of its statements would succeed alone. -/
theorem isSome_runAll (as : List A) (s : S) :
    (runAll stmt as s).isSome ↔ ∀ a ∈ as, (stmt a s).isSome := by
  induction as generalizing s with
  | nil => simp [runAll]
  | cons b as ih =>
    cases hb : stmt b s with
    | none => simp [runAll, hb]
    | some u =>
      have hsame : ∀ a, (stmt a u).isSome = (stmt a s).isSome :=
        fun a => h.isSome_stmt a b s u hb
      simp only [runAll, hb, Option.bind_some, ih u, List.mem_cons, forall_eq_or_imp,
        Option.isSome_some, true_and, hsame]

theorem isSome_send (as : List A) (s : S) (a : A) :
    (stmt a (send stmt as s)).isSome = (stmt a s).isSome := by
  unfold send
  cases hrun : runAll stmt as s with
  | none => rfl
  | some t => exact isSome_runAll_of_ok h as s t hrun a

theorem acknowledged_eq_takeWhile (as : List A) (s : S) :
    acknowledged stmt as s = as.takeWhile fun a => (stmt a s).isSome := by
  induction as generalizing s with
  | nil => rfl
  | cons b as ih =>
    cases hb : stmt b s with
    | none => simp [acknowledged, hb]
    | some u =>
      have hsame : (fun a => (stmt a u).isSome) = fun a => (stmt a s).isSome :=
        funext fun a => h.isSome_stmt a b s u hb
      simp [acknowledged, hb, ih u, hsame]

theorem slot_runAll_other (as : List A) (s t : S) (hrun : runAll stmt as s = some t) (k : K)
    (hk : k ∉ as.map key) : slot t k = slot s k := by
  induction as generalizing s with
  | nil =>
    obtain rfl : s = t := Option.some.inj hrun
    rfl
  | cons b as ih =>
    obtain ⟨u, hb, htail⟩ := Option.bind_eq_some_iff.mp hrun
    have hkb : k ≠ key b := fun heq => hk (heq ▸ List.mem_map_of_mem List.mem_cons_self)
    have hkas : k ∉ as.map key := fun hmem => hk (List.mem_cons_of_mem _ hmem)
    rw [ih u htail hkas, h.slot_other b s u k hb hkb]

theorem slot_runAll_self (as : List A) (hnodup : (as.map key).Nodup) (s t : S)
    (hrun : runAll stmt as s = some t) (a : A) (ha : a ∈ as) :
    slot t (key a) = put a (slot s (key a)) := by
  induction as generalizing s with
  | nil => simp at ha
  | cons b as ih =>
    obtain ⟨u, hb, htail⟩ := Option.bind_eq_some_iff.mp hrun
    obtain ⟨hfresh, hrest⟩ := List.nodup_cons.mp hnodup
    rcases List.mem_cons.mp ha with rfl | hmem
    · rw [slot_runAll_other h as u t htail _ hfresh, h.slot_self a s u hb]
    · have hne : key a ≠ key b := fun heq => hfresh (heq ▸ List.mem_map_of_mem hmem)
      rw [ih hrest u htail hmem, h.slot_other b s u _ hb hne]

theorem slot_send_other (as : List A) (s : S) (k : K) (hk : k ∉ as.map key) :
    slot (send stmt as s) k = slot s k := by
  unfold send
  cases hrun : runAll stmt as s with
  | none => rfl
  | some t => exact slot_runAll_other h as s t hrun k hk

theorem slot_send_self (as : List A) (hnodup : (as.map key).Nodup) (s : S) (a : A)
    (ha : a ∈ as) :
    slot (send stmt as s) (key a) =
      if ∀ b ∈ as, (stmt b s).isSome then put a (slot s (key a)) else slot s (key a) := by
  have hcommits := isSome_runAll h as s
  unfold send
  cases hrun : runAll stmt as s with
  | none =>
    rw [hrun] at hcommits
    have hnot : ¬ ∀ b ∈ as, (stmt b s).isSome := fun hall => Bool.noConfusion (hcommits.mpr hall)
    rw [if_neg hnot]
    rfl
  | some t =>
    rw [hrun] at hcommits
    have hall : ∀ b ∈ as, (stmt b s).isSome := hcommits.mp rfl
    rw [if_pos hall]
    exact slot_runAll_self h as hnodup s t hrun a ha

theorem slot_sendAll_other (batches : List (List A)) (s : S) (k : K)
    (hk : k ∉ batches.flatten.map key) : slot (sendAll stmt batches s) k = slot s k := by
  induction batches generalizing s with
  | nil => rfl
  | cons as batches ih =>
    rw [List.flatten_cons, List.map_append, List.mem_append, not_or] at hk
    exact (ih (send stmt as s) hk.2).trans (slot_send_other h as s k hk.1)

/-- Batches of statements on distinct slots: a slot is rewritten when its own
batch commits, whatever the other batches do. -/
theorem slot_sendAll_self (batches : List (List A)) (hnodup : (batches.flatten.map key).Nodup)
    (s : S) (as : List A) (has : as ∈ batches) (a : A) (ha : a ∈ as) :
    slot (sendAll stmt batches s) (key a) =
      if ∀ b ∈ as, (stmt b s).isSome then put a (slot s (key a)) else slot s (key a) := by
  induction batches generalizing s with
  | nil => simp at has
  | cons cs batches ih =>
    rw [List.flatten_cons, List.map_append] at hnodup
    obtain ⟨hcs, hrest, hdisjoint⟩ := List.nodup_append.mp hnodup
    change slot (sendAll stmt batches (send stmt cs s)) (key a) = _
    rcases List.mem_cons.mp has with rfl | hmem
    · have hlater : key a ∉ batches.flatten.map key :=
        fun hk => hdisjoint _ (List.mem_map_of_mem ha) _ hk rfl
      rw [slot_sendAll_other h batches _ _ hlater, slot_send_self h as hcs s a ha]
    · have hearlier : key a ∉ cs.map key := fun hk =>
        hdisjoint _ hk _ (List.mem_map_of_mem (List.mem_flatten_of_mem hmem ha)) rfl
      rw [ih hrest (send stmt cs s) hmem]
      simp only [isSome_send h cs s, slot_send_other h cs s _ hearlier]

end Independent

end Grex.Batch
