import Mathlib.Data.Finset.Card
import Mathlib.Logic.Function.Basic

/-!
Finite partial maps with a computable lookup and a computable key set. They
model a hash map or a table with a primary key: a single slot is overwritten
or cleared, or every entry is rewritten at once by a pointwise rule. Two maps
with the same lookups are equal, so iteration order is never part of a value;
an iteration is a list that enumerates the key set.
-/

namespace Grex

/-- The key set is determined by the lookup, and is kept only for iteration. -/
structure FinMap (κ α : Type*) where
  find : κ → Option α
  keys : Finset κ
  mem_keys : ∀ k, k ∈ keys ↔ (find k).isSome

namespace FinMap

variable {κ α β : Type*}

@[ext] theorem ext {m m' : FinMap κ α} (h : ∀ k, m.find k = m'.find k) : m = m' := by
  obtain ⟨find, keys, hkeys⟩ := m
  obtain ⟨find', keys', hkeys'⟩ := m'
  obtain rfl : find = find' := funext h
  have hsame : keys = keys' := by
    apply Finset.ext
    intro k
    rw [hkeys k, hkeys' k]
  subst hsame
  rfl

theorem mem_keys_iff (m : FinMap κ α) (k : κ) :
    k ∈ m.keys ↔ ∃ v, m.find k = some v := by
  rw [m.mem_keys, Option.isSome_iff_exists]

theorem forall_keys_iff {m : FinMap κ α} {P : κ → Prop} {q : α → Bool} :
    (∀ k ∈ m.keys, P k ∧ (m.find k).all q = true) ↔
      ∀ k v, m.find k = some v → P k ∧ q v = true := by
  constructor
  · intro h k v hkv
    have hk := h k ((m.mem_keys_iff k).mpr ⟨v, hkv⟩)
    rwa [hkv, Option.all_some] at hk
  · intro h k hk
    obtain ⟨v, hkv⟩ := (m.mem_keys_iff k).mp hk
    rw [hkv, Option.all_some]
    exact h k v hkv

theorem find_eq_none (m : FinMap κ α) (k : κ) :
    m.find k = none ↔ k ∉ m.keys := by
  rw [m.mem_keys, Option.not_isSome_iff_eq_none]

instance : EmptyCollection (FinMap κ α) where
  emptyCollection := ⟨fun _ => none, ∅, by simp⟩

instance : Inhabited (FinMap κ α) := ⟨∅⟩

@[simp] theorem find_empty (k : κ) : (∅ : FinMap κ α).find k = none := rfl

@[simp] theorem keys_empty : (∅ : FinMap κ α).keys = ∅ := rfl

/-- Rewrite every entry by a rule that may also drop it. -/
def filterMap (m : FinMap κ α) (f : κ → α → Option β) : FinMap κ β where
  find k := (m.find k).bind (f k)
  keys := m.keys.filter fun k => ((m.find k).bind (f k)).isSome
  mem_keys k := by
    simp only [Finset.mem_filter, m.mem_keys, and_iff_right_iff_imp]
    intro h
    cases hk : m.find k with
    | none => simp [hk] at h
    | some v => rfl

@[simp] theorem find_filterMap (m : FinMap κ α) (f : κ → α → Option β) (k : κ) :
    (m.filterMap f).find k = (m.find k).bind (f k) := rfl

/-- The number of entries. -/
def size (m : FinMap κ α) : ℕ := m.keys.card

@[simp] theorem size_empty : (∅ : FinMap κ α).size = 0 := rfl

theorem size_eq_zero {m : FinMap κ α} : m.size = 0 ↔ m = ∅ := by
  unfold size
  rw [Finset.card_eq_zero]
  constructor
  · intro h
    ext1 k
    exact (m.find_eq_none k).mpr (h ▸ Finset.notMem_empty k)
  · rintro rfl
    rfl

variable [DecidableEq κ]

instance [DecidableEq α] : DecidableEq (FinMap κ α) := fun m m' =>
  decidable_of_iff (m.keys = m'.keys ∧ ∀ k ∈ m.keys, m.find k = m'.find k) <| by
    constructor
    · intro h
      obtain ⟨hkeys, hfind⟩ := h
      ext1 k
      by_cases hk : k ∈ m.keys
      · exact hfind k hk
      · have hk' : k ∉ m'.keys := by rwa [← hkeys]
        rw [(m.find_eq_none k).mpr hk, (m'.find_eq_none k).mpr hk']
    · rintro rfl
      exact ⟨rfl, fun _ _ => rfl⟩

/-- Overwrite one slot; `none` clears it. -/
def set (m : FinMap κ α) (k : κ) (slot : Option α) : FinMap κ α where
  find := Function.update m.find k slot
  keys := if slot.isSome then insert k m.keys else m.keys.erase k
  mem_keys j := by
    by_cases hj : j = k
    · subst j
      cases slot <;> simp
    · cases slot <;> simp [hj, m.mem_keys j]

abbrev insert (m : FinMap κ α) (k : κ) (v : α) : FinMap κ α := m.set k (some v)

abbrev erase (m : FinMap κ α) (k : κ) : FinMap κ α := m.set k none

theorem find_set (m : FinMap κ α) (k j : κ) (slot : Option α) :
    (m.set k slot).find j = if j = k then slot else m.find j := by
  simp only [set, Function.update_apply]

@[simp] theorem find_set_self (m : FinMap κ α) (k : κ) (slot : Option α) :
    (m.set k slot).find k = slot := by
  simp [find_set]

theorem find_set_of_ne (m : FinMap κ α) {k j : κ} (slot : Option α) (h : j ≠ k) :
    (m.set k slot).find j = m.find j := by
  simp [find_set, h]

/-- An iteration visits every key exactly once, in an order of its own. -/
structure Enumerates (l : List κ) (keys : Finset κ) : Prop where
  nodup : l.Nodup
  mem_iff : ∀ k, k ∈ l ↔ k ∈ keys

instance (l : List κ) (keys : Finset κ) : Decidable (Enumerates l keys) :=
  decidable_of_iff (l.Nodup ∧ l.toFinset = keys) <| by
    constructor
    · intro h
      obtain ⟨hnodup, rfl⟩ := h
      exact ⟨hnodup, fun k => List.mem_toFinset.symm⟩
    · intro h
      obtain ⟨hnodup, hmem⟩ := h
      exact ⟨hnodup, Finset.ext fun k => List.mem_toFinset.trans (hmem k)⟩

end FinMap

end Grex
