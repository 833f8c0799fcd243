import Grex.BoundedHeap

/-!
Go slices: views of arrays that a program allocates and shares. A program runs over
the arrays allocated so far, and none is an index out of range. What a program does
to a slice of its own is stated as the list that slice shows, with every array that
was there before left as it was.
-/

namespace Grex.GoSlices

variable {α : Type} {β : Type*} [LinearOrder β] (key : α → β)

/-- The arrays allocated so far, by address. -/
abbrev Memory (α : Type) := List (List α)

/-- A program over the arrays; the zero slice is Go's nil. -/
abbrev Program (α : Type) := StateT (Memory α) Option

structure Slice where
  array : ℕ := 0
  offset : ℕ := 0
  length : ℕ := 0
  capacity : ℕ := 0
  deriving DecidableEq

/-- What a slice shows of its array. -/
def entries (m : Memory α) (s : Slice) : List α :=
  (((m[s.array]?).getD []).drop s.offset).take s.length

/-- The arrays with a run of entries replaced. -/
def store (m : Memory α) (array offset : ℕ) (l : List α) : Memory α :=
  let arr := (m[array]?).getD []
  m.set array (arr.take offset ++ l ++ arr.drop (offset + l.length))

/-! ### Operations -/

def alloc (arr : List α) (length : ℕ) : Program α Slice := fun m =>
  some ({ array := m.length, length := length, capacity := arr.length }, m ++ [arr])

/-- `slices.Clone`. -/
def clone (s : Slice) : Program α Slice := fun m => alloc (entries m s) s.length m

/-- `make` with a length and a capacity; the entries are zero values. -/
def make (zero : α) (length capacity : ℕ) : Program α Slice :=
  alloc (List.replicate capacity zero) length

/-- `s[i]`. -/
def index (s : Slice) (i : ℕ) : Program α α := fun m => (entries m s)[i]?.map fun x => (x, m)

/-- `s[i] = x`. -/
def assign (s : Slice) (i : ℕ) (x : α) : Program α Unit := fun m =>
  if i < s.length then some ((), store m s.array (s.offset + i) [x]) else none

/-- `append` of one entry; a slice at its capacity moves to an array of its own. -/
def append (s : Slice) (x : α) : Program α Slice := fun m =>
  if s.length < s.capacity then
    some ({ s with length := s.length + 1 }, store m s.array (s.offset + s.length) [x])
  else alloc (entries m s ++ [x]) (s.length + 1) m

/-- `s[i:j]`, which may reach past the length, up to the capacity. -/
def subslice (s : Slice) (i j : ℕ) : Program α Slice :=
  if i ≤ j ∧ j ≤ s.capacity then
    pure { s with offset := s.offset + i, length := j - i, capacity := s.capacity - i }
  else failure

/-- Rearrange the entries a slice shows, in place. -/
def rearrange (s : Slice) (f : List α → List α) : Program α Unit := fun m =>
  some ((), store m s.array s.offset (f (entries m s)))

/-- Sift the last entry up to its place. -/
def siftLast (l : List α) : List α :=
  if hl : l.length - 1 < l.toArray.size then (Heap.up key l.toArray (l.length - 1) hl).toList else l

/-- `heap.Push`. -/
def heapPush (h : Slice) (x : α) : Program α Slice := do
  let h ← append h x
  rearrange h (siftLast key)
  return h

/-- Put the entry at `i` where it belongs. -/
def fixAt (i : ℕ) (l : List α) : List α :=
  if hi : i < l.toArray.size then (Heap.fix key l.toArray i hi).toList else l

/-- `heap.Fix`. -/
def heapFix (h : Slice) (i : ℕ) : Program α Unit := rearrange h (fixAt key i)

/-! ### Slices of one's own -/

/-- The slice shows the list. -/
structure Shows (m : Memory α) (s : Slice) (l : List α) : Prop where
  entries : entries m s = l
  length : s.length = l.length

/-- The memory is `m` and one more array, which the slice shows from its start. -/
structure Fresh (m : Memory α) (s : Slice) (l : List α) (m' : Memory α) : Prop where
  array : s.array = m.length
  offset : s.offset = 0
  length : s.length = l.length
  holds : ∃ rest, m' = m ++ [l ++ rest] ∧ s.capacity = (l ++ rest).length

variable {m m' : Memory α} {s : Slice} {l : List α}

theorem run_bind_of_run {γ δ : Type} {x : Program α γ} {c : γ} (hx : x.run m = some (c, m'))
    (f : γ → Program α δ) : (x >>= f).run m = (f c).run m' := by
  rw [StateT.run_bind, hx]
  rfl

theorem Fresh.shows (h : Fresh m s l m') : Shows m' s l := by
  obtain ⟨rest, rfl, -⟩ := h.holds
  refine ⟨?_, h.length⟩
  unfold GoSlices.entries
  simp [h.array, h.offset, h.length]

theorem Fresh.length_le_capacity (h : Fresh m s l m') : l.length ≤ s.capacity := by
  obtain ⟨rest, -, hcap⟩ := h.holds
  rw [hcap, List.length_append]
  omega

/-- The arrays that were there before are as they were. -/
theorem Fresh.older (h : Fresh m s l m') : m <+: m' := by
  obtain ⟨rest, rfl, -⟩ := h.holds
  exact List.prefix_append _ _

/-- A slice that showed something shows it still, next to one more array. -/
theorem Fresh.shows_older (h : Fresh m s l m') {t : Slice} {old : List α} (ht : Shows m t old) :
    Shows m' t old := by
  obtain ⟨rest, rfl, -⟩ := h.holds
  refine ⟨?_, ht.length⟩
  have hold := ht.entries
  unfold GoSlices.entries at hold ⊢
  by_cases hlt : t.array < m.length
  · rwa [List.getElem?_append_left hlt]
  · rw [List.getElem?_eq_none (not_lt.mp hlt), Option.getD_none, List.drop_nil, List.take_nil] at hold
    rw [ht.length, ← hold, List.length_nil, List.take_zero]

theorem fresh_clone (ht : Shows m s l) :
    ∃ s' m', (clone s).run m = some (s', m') ∧ Fresh m s' l m' := by
  refine ⟨_, _, rfl, rfl, rfl, ht.length, [], ?_, ?_⟩
  · rw [List.append_nil, ht.entries]
  · rw [List.append_nil, ht.entries]

theorem fresh_make (m : Memory α) (zero : α) (capacity : ℕ) :
    ∃ s m', (make zero 0 capacity).run m = some (s, m') ∧ Fresh m s [] m' ∧
      s.capacity = capacity :=
  ⟨_, _, rfl, ⟨rfl, rfl, rfl, _, rfl, rfl⟩, List.length_replicate⟩

theorem run_index (ht : Shows m s l) {i : ℕ} (hi : i < l.length) :
    (index s i).run m = some (l[i], m) := by
  show (entries m s)[i]?.map _ = _
  rw [ht.entries, List.getElem?_eq_getElem hi, Option.map_some]

/-- A write into the last array replaces entries there and nothing else. -/
theorem store_last (m : Memory α) (before new old after : List α)
    (hlen : new.length = old.length) :
    store (m ++ [before ++ old ++ after]) m.length before.length new =
      m ++ [before ++ new ++ after] := by
  unfold store
  have hdrop : (before ++ old ++ after).drop (before.length + new.length) = after := by
    rw [hlen, ← List.length_append, List.drop_left]
  have htake : (before ++ old ++ after).take before.length = before := by
    rw [List.append_assoc, List.take_left]
  rw [List.getElem?_concat_length, Option.getD_some, List.set_append_right _ _ le_rfl, Nat.sub_self,
    List.set_cons_zero, hdrop, htake]

theorem Fresh.rearrange (h : Fresh m s l m') (f : List α → List α) (hf : (f l).length = l.length) :
    ∃ m'', (GoSlices.rearrange s f).run m' = some ((), m'') ∧ Fresh m s (f l) m'' := by
  have hshows := h.shows.entries
  obtain ⟨rest, rfl, hcap⟩ := h.holds
  have hstore := store_last m [] (f l) l rest hf
  refine ⟨m ++ [f l ++ rest], ?_, h.array, h.offset, by rw [h.length, hf], rest, rfl, ?_⟩
  · show some ((), store _ s.array s.offset (f (entries _ s))) = _
    rw [hshows, h.array, h.offset]
    exact congrArg (fun m => some ((), m)) hstore
  · rw [hcap, List.length_append, List.length_append, hf]

theorem Fresh.assign (h : Fresh m s l m') {i : ℕ} (hi : i < l.length) (x : α) :
    ∃ m'', (GoSlices.assign s i x).run m' = some ((), m'') ∧ Fresh m s (l.set i x) m'' := by
  obtain ⟨rest, rfl, hcap⟩ := h.holds
  have hsplit : l = l.take i ++ [l[i]] ++ l.drop (i + 1) := by
    rw [List.append_assoc, List.singleton_append, List.getElem_cons_drop, List.take_append_drop]
  have hset : l.set i x = l.take i ++ [x] ++ l.drop (i + 1) := by
    rw [List.set_eq_take_append_cons_drop, if_pos hi, List.append_assoc, List.singleton_append]
  have hstore := store_last m (l.take i) [x] [l[i]] (l.drop (i + 1) ++ rest) rfl
  rw [List.length_take_of_le hi.le, ← List.append_assoc, ← hsplit, ← List.append_assoc, ← hset]
    at hstore
  refine ⟨m ++ [l.set i x ++ rest], ?_, h.array, h.offset, by rw [h.length, List.length_set], rest,
    rfl, ?_⟩
  · show (if i < s.length then _ else _) = _
    rw [if_pos (h.length ▸ hi), h.array, h.offset, Nat.zero_add, hstore]
  · rw [hcap, List.length_append, List.length_append, List.length_set]

theorem Fresh.append (h : Fresh m s l m') (hcap : l.length < s.capacity) (x : α) :
    ∃ s' m'', (GoSlices.append s x).run m' = some (s', m'') ∧ Fresh m s' (l ++ [x]) m'' ∧
      s'.capacity = s.capacity := by
  obtain ⟨rest, rfl, hcapacity⟩ := h.holds
  cases rest with
  | nil =>
    rw [List.append_nil] at hcapacity
    omega
  | cons y rest =>
    have hstore := store_last m l [x] [y] rest rfl
    rw [List.append_assoc, List.singleton_append] at hstore
    refine ⟨{ s with length := s.length + 1 }, m ++ [l ++ [x] ++ rest], ?_,
      ⟨h.array, h.offset, ?_, rest, rfl, ?_⟩, rfl⟩
    · show (if s.length < s.capacity then _ else _) = _
      rw [if_pos (h.length ▸ hcap), h.array, h.offset, Nat.zero_add, h.length, hstore]
    · rw [List.length_append, h.length, List.length_singleton]
    · simpa using hcapacity

theorem run_subslice (h : Shows m s l) {i j : ℕ} (hij : i ≤ j) (hj : j ≤ l.length)
    (hcap : l.length ≤ s.capacity) :
    ∃ s', (subslice s i j).run m = some (s', m) ∧ Shows m s' ((l.drop i).take (j - i)) := by
  refine ⟨{ s with offset := s.offset + i, length := j - i, capacity := s.capacity - i }, ?_, ?_, ?_⟩
  · unfold subslice
    rw [if_pos ⟨hij, hj.trans hcap⟩]
    rfl
  · have hentries := h.entries
    unfold entries at hentries ⊢
    rw [← hentries, List.drop_take, List.take_take, List.drop_drop, h.length,
      min_eq_left (by omega)]
  · rw [List.length_take, List.length_drop]
    show j - i = _
    omega

/-! ### The heap of a slice -/

theorem siftLast_concat (l : List α) (x : α) :
    siftLast key (l ++ [x]) = (Heap.push key l.toArray x).toList := by
  unfold siftLast Heap.push
  simp only [List.size_toArray, List.length_append, List.length_singleton, Nat.add_sub_cancel,
    Nat.lt_add_one, dite_true, List.push_toArray]

theorem Fresh.heapPush (h : Fresh m s l m') (hcap : l.length < s.capacity) (x : α) :
    ∃ s' m'', (GoSlices.heapPush key s x).run m' = some (s', m'') ∧
      Fresh m s' (Heap.push key l.toArray x).toList m'' ∧ s'.capacity = s.capacity := by
  obtain ⟨s₁, m₁, happend, hfresh, hcap₁⟩ := h.append hcap x
  have hlength : (siftLast key (l ++ [x])).length = (l ++ [x]).length := by
    rw [siftLast_concat key, (Heap.perm_push l.toArray x).length_eq]
    simp
  obtain ⟨m₂, hsift, hfresh'⟩ := hfresh.rearrange (siftLast key) hlength
  rw [siftLast_concat key] at hfresh'
  refine ⟨s₁, m₂, ?_, hfresh', hcap₁⟩
  unfold GoSlices.heapPush
  rw [run_bind_of_run happend, run_bind_of_run hsift]
  rfl

/-- The heap put in order after its root has changed. -/
theorem Fresh.heapFix {x : α} (h : Fresh m s (l.set 0 x) m') (hpos : 0 < l.toArray.size) :
    ∃ m'', (GoSlices.heapFix key s 0).run m' = some ((), m'') ∧
      Fresh m s (Heap.fix key (l.toArray.set 0 x) 0 (by simpa using hpos)).toList m'' := by
  have hfix : fixAt key 0 (l.set 0 x) =
      (Heap.fix key (l.toArray.set 0 x) 0 (by simpa using hpos)).toList := by
    unfold fixAt
    rw [dif_pos (by simpa using hpos)]
    simp only [List.set_toArray]
  have hlength : (fixAt key 0 (l.set 0 x)).length = (l.set 0 x).length := by
    rw [hfix]
    simpa using (Heap.perm_fix_root l.toArray hpos x).length_eq
  rw [← hfix]
  exact h.rearrange (fixAt key 0) hlength

end Grex.GoSlices
