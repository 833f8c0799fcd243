import Grex.FinMap
import Grex.GoURL
import Grex.Lines
import Grex.Scans
import Grex.SortedWindows
import Mathlib.Algebra.BigOperators.Group.Finset.Basic

/-!
Query strings: parameters with their values, written as `key=value` pairs
joined by `&` in the order of the keys and read back pair by pair. A pair that
cannot be unescaped is skipped, and a text with too many pairs is not read at all.
Keys and values are of any type with a coding into bytes; a text may hold bytes that
code nothing of that type, and then it has no reading.
-/

namespace Grex.QueryString

open GoURL Lines

def plus : UInt8 := 0x2B

def space : UInt8 := 0x20

def ampersand : UInt8 := 0x26

def equals : UInt8 := 0x3D

def semicolon : UInt8 := 0x3B

/-! ### Components -/

/-- Letters, digits and `-`, `_`, `.`, `~` stand for themselves. -/
def shouldEscape (b : UInt8) : Bool :=
  !((0x61 ≤ b && b ≤ 0x7A) || (0x41 ≤ b && b ≤ 0x5A) || (0x30 ≤ b && b ≤ 0x39) ||
    b == 0x2D || b == 0x5F || b == 0x2E || b == 0x7E)

def upperHex (n : UInt8) : UInt8 := if n < 10 then 0x30 + n else 0x41 + (n - 10)

def escapeByte (b : UInt8) : Bytes :=
  if b = space then [plus]
  else if shouldEscape b then [percent, upperHex (b >>> 4), upperHex (b &&& 0xF)]
  else [b]

def queryEscape (s : Bytes) : Bytes := s.flatMap escapeByte

/-- A plus sign as it was written stands for a space. -/
def plusToSpace (b : UInt8) : UInt8 := if b = plus then space else b

def queryUnescape (s : Bytes) : Option Bytes := unescape (s.map plusToSpace)

theorem forall_byte {P : UInt8 → Prop} (h : ∀ n : Fin 256, P (.ofFin n)) (b : UInt8) : P b := by
  have hb := h b.toFin
  rwa [UInt8.ofFin_toFin] at hb

theorem unescape_escapeByte (b : UInt8) :
    unescape ((escapeByte b).map plusToSpace) = some [b] := by
  revert b
  apply forall_byte
  decide +kernel

/-- The bytes that separate pairs and components and end the query. -/
def separators : Bytes := [ampersand, equals, semicolon, question, hashSign]

theorem notMem_escapeByte (b : UInt8) : ∀ sep ∈ separators, sep ∉ escapeByte b := by
  revert b
  apply forall_byte
  decide +kernel

theorem notMem_queryEscape {sep : UInt8} (hsep : sep ∈ separators) (s : Bytes) :
    sep ∉ queryEscape s := by
  intro hmem
  obtain ⟨b, _, hb⟩ := List.mem_flatMap.mp hmem
  exact notMem_escapeByte b sep hsep hb

/-- A text that can be decoded is decoded by itself, whatever follows it. -/
theorem unescape_append {s d : Bytes} (h : unescape s = some d) (t : Bytes) :
    unescape (s ++ t) = (unescape t).map fun rest => d ++ rest := by
  induction s using unescape.induct generalizing d with
  | case1 =>
    obtain rfl := Option.some.inj h
    simp
  | case2 hi lo s ih =>
    rw [unescape, if_pos rfl] at h
    simp only [Option.bind_eq_bind, Option.bind_eq_some_iff] at h
    obtain ⟨x, hx, y, hy, rest, hrest, hd⟩ := h
    obtain rfl := Option.some.inj hd
    simp only [List.cons_append]
    rw [unescape, if_pos rfl]
    simp only [hx, hy, ih hrest, Option.bind_eq_bind, Option.bind_some]
    cases unescape t <;> rfl
  | case3 s hs =>
    unfold unescape at h
    rw [if_pos rfl] at h
    split at h
    · exact absurd rfl (hs _ _ _)
    · cases h
  | case4 b s hb ih =>
    rw [unescape_cons_of_ne hb] at h
    obtain ⟨rest, hrest, rfl⟩ := Option.map_eq_some_iff.mp h
    rw [List.cons_append, unescape_cons_of_ne hb, ih hrest, Option.map_map]
    rfl

theorem queryUnescape_queryEscape (s : Bytes) : queryUnescape (queryEscape s) = some s := by
  unfold queryUnescape
  induction s with
  | nil => rfl
  | cons b s ih =>
    rw [queryEscape, List.flatMap_cons, List.map_append, unescape_append (unescape_escapeByte b)]
    change (unescape ((queryEscape s).map plusToSpace)).map _ = _
    rw [ih]
    rfl

/-! ### Parameters -/

/-- A type whose values are written as bytes. -/
structure Coding (α : Type*) where
  code : α → Bytes
  decode : Bytes → Option α
  decode_code : ∀ a, decode (code a) = some a

variable {α : Type*} (c : Coding α)

def pairText (p : α × α) : Bytes :=
  queryEscape (c.code p.1) ++ equals :: queryEscape (c.code p.2)

/-- One pair; a piece with a semicolon, an empty one, and one whose components cannot
be unescaped have none. -/
def readPair (s : Bytes) : Option (Bytes × Bytes) :=
  if semicolon ∈ s ∨ s = [] then none
  else do
    let k ← queryUnescape (cut equals s).1
    let x ← queryUnescape ((cut equals s).2.getD [])
    return (k, x)

def codePair (p : α × α) : Bytes × Bytes := (c.code p.1, c.code p.2)

def decodePair (p : Bytes × Bytes) : Option (α × α) := do
  let k ← c.decode p.1
  let x ← c.decode p.2
  return (k, x)

theorem decodePair_codePair (p : α × α) : decodePair c (codePair c p) = some p := by
  simp [decodePair, codePair, c.decode_code]

theorem mapM_decodePair (ps : List (α × α)) :
    (ps.map (codePair c)).mapM (decodePair c) = some ps := by
  rw [Scans.mapM_eq_some_iff, List.forall₂_map_left_iff, List.forall₂_same]
  exact fun p _ => decodePair_codePair c p

theorem notMem_pairText {sep : UInt8} (hsep : sep ∈ separators) (hne : sep ≠ equals)
    (p : α × α) : sep ∉ pairText c p := by
  simp only [pairText, List.mem_append, List.mem_cons, not_or]
  exact ⟨notMem_queryEscape hsep _, hne, notMem_queryEscape hsep _⟩

theorem readPair_pairText (p : α × α) : readPair (pairText c p) = some (codePair c p) := by
  have hsemicolon : semicolon ∉ pairText c p := notMem_pairText c (by decide) (by decide) p
  have hcut : cut equals (pairText c p) =
      (queryEscape (c.code p.1), some (queryEscape (c.code p.2))) :=
    cut_fromSep (notMem_queryEscape (by decide) _) (some _)
  have hread : ¬(semicolon ∈ pairText c p ∨ pairText c p = []) := by
    rw [not_or]
    exact ⟨hsemicolon, by simp [pairText]⟩
  rw [readPair, if_neg hread, hcut]
  simp [queryUnescape_queryEscape, codePair]

abbrev Values (α : Type*) := FinMap α (List α)

namespace Values

def values (v : Values α) (k : α) : List α := (v.find k).getD []

/-- No parameter is kept without a value. -/
def Full (v : Values α) : Prop := ∀ k, v.find k ≠ some []

theorem Full.ext {v w : Values α} (hv : v.Full) (hw : w.Full)
    (h : ∀ k, v.values k = w.values k) : v = w := by
  apply FinMap.ext
  intro k
  have hk := h k
  unfold values at hk
  cases hvk : v.find k with
  | none =>
    cases hwk : w.find k with
    | none => rfl
    | some x =>
      rw [hvk, hwk] at hk
      obtain rfl : [] = x := hk
      exact absurd hwk (hw k)
  | some x =>
    cases hwk : w.find k with
    | none =>
      rw [hvk, hwk] at hk
      obtain rfl : x = [] := hk
      exact absurd hvk (hv k)
    | some y =>
      rw [hvk, hwk] at hk
      exact congrArg some hk

end Values

section Reading

variable [DecidableEq α]

def addPair (v : Values α) (p : α × α) : Values α :=
  v.insert p.1 (v.values p.1 ++ [p.2])

/-- The parameters of a text. There is no reading where a pair that is kept codes
nothing of the type. -/
def parseQuery (maxParams : ℕ) (s : Bytes) : Option (Values α) :=
  if maxParams < s.count ampersand + 1 then some ∅
  else (((lines ampersand s).filterMap readPair).mapM (decodePair c)).map fun ps =>
    ps.foldl addPair ∅

theorem values_addPair (v : Values α) (p : α × α) (k : α) :
    (addPair v p).values k = v.values k ++ if p.1 = k then [p.2] else [] := by
  unfold addPair Values.values
  rw [FinMap.find_set]
  by_cases hk : k = p.1
  · subst hk
    simp
  · rw [if_neg hk, if_neg (fun h => hk h.symm), List.append_nil]

theorem values_foldl_addPair (v : Values α) (ps : List (α × α)) (k : α) :
    (ps.foldl addPair v).values k =
      v.values k ++ (ps.filter fun p => p.1 = k).map Prod.snd := by
  induction ps generalizing v with
  | nil => simp
  | cons p ps ih =>
    rw [List.foldl_cons, ih, values_addPair, List.append_assoc, List.filter_cons]
    by_cases hp : p.1 = k <;> simp [hp]

theorem full_foldl_addPair {v : Values α} (h : v.Full) (ps : List (α × α)) :
    (ps.foldl addPair v).Full := by
  induction ps generalizing v with
  | nil => exact h
  | cons p ps ih =>
    apply ih
    intro k
    unfold addPair
    rw [FinMap.find_set]
    split_ifs
    · simp
    · exact h k

/-- Whatever the text, a parameter that is read has a value. -/
theorem full_parseQuery {maxParams : ℕ} {s : Bytes} {v : Values α}
    (h : parseQuery c maxParams s = some v) : v.Full := by
  have hempty : (∅ : Values α).Full := fun k h => by cases h
  unfold parseQuery at h
  split_ifs at h
  · obtain rfl := Option.some.inj h
    exact hempty
  · obtain ⟨ps, -, rfl⟩ := Option.map_eq_some_iff.mp h
    exact full_foldl_addPair hempty ps

end Reading

section Writing

variable [LinearOrder α]

/-- The pairs of the parameters, by key. -/
def pairs (v : Values α) : List (α × α) :=
  (SortedWindows.sorted v.keys).flatMap fun k => (v.values k).map fun x => (k, x)

def encode (v : Values α) : Bytes := unlines ampersand ((pairs v).map (pairText c))

theorem length_pairs (v : Values α) :
    (pairs v).length = ∑ k ∈ v.keys, (v.values k).length := by
  unfold pairs
  rw [List.length_flatMap]
  simp only [List.length_map]
  rw [← Finset.sum_map_toList]
  exact ((Finset.sort_perm_toList v.keys (· ≤ ·)).map _).sum_eq

theorem values_pairs (v : Values α) (k : α) :
    ((pairs v).filter fun p => p.1 = k).map Prod.snd = v.values k := by
  have hpick : ∀ keys : List α, keys.Nodup →
      ((keys.flatMap fun j => (v.values j).map fun x => (j, x)).filter fun p => p.1 = k).map
        Prod.snd = if k ∈ keys then v.values k else [] := by
    intro keys hnodup
    induction keys with
    | nil => rfl
    | cons j keys ih =>
      rw [List.nodup_cons] at hnodup
      rw [List.flatMap_cons, List.filter_append, List.map_append, ih hnodup.2]
      by_cases hj : j = k
      · subst hj
        simp [hnodup.1, List.filter_map, Function.comp_def]
      · have hk : k ≠ j := fun h => hj h.symm
        simp [hj, hk, List.filter_map, Function.comp_def]
  have hnodup : (SortedWindows.sorted v.keys).Nodup := Finset.sort_nodup _ _
  rw [pairs, hpick _ hnodup]
  split_ifs with hk
  · rfl
  · rw [SortedWindows.mem_sorted] at hk
    rw [Values.values, (v.find_eq_none k).mpr hk]
    rfl

theorem foldl_addPair_pairs {v : Values α} (hfull : v.Full) :
    (pairs v).foldl addPair ∅ = v := by
  refine Values.Full.ext (full_foldl_addPair (fun k h => by cases h) _) hfull ?_
  intro k
  rw [values_foldl_addPair, values_pairs]
  rfl

/-- A text without pairs is one empty piece. -/
theorem lines_encode (v : Values α) : lines ampersand (encode c v) =
    if pairs v = [] then [[]] else (pairs v).map (pairText c) := by
  split_ifs with hnil
  · rw [encode, hnil]
    rfl
  · apply lines_unlines
    · intro l hl
      obtain ⟨p, -, rfl⟩ := List.mem_map.mp hl
      exact notMem_pairText c (by decide) (by decide) p
    · simpa using hnil

theorem filterMap_lines_encode (v : Values α) :
    (lines ampersand (encode c v)).filterMap readPair = (pairs v).map (codePair c) := by
  rw [lines_encode]
  split_ifs with hnil
  · rw [hnil]
    rfl
  · have hread : readPair ∘ pairText c = some ∘ codePair c := funext (readPair_pairText c)
    rw [List.filterMap_map, hread, List.filterMap_eq_map]

/-- What is written is read back, as long as it is not too much. -/
theorem parseQuery_encode {v : Values α} {maxParams : ℕ} (hfull : v.Full)
    (hpos : 0 < maxParams) (hlen : (pairs v).length ≤ maxParams) :
    parseQuery c maxParams (encode c v) = some v := by
  have hcount : (encode c v).count ampersand + 1 ≤ maxParams := by
    rw [← length_lines, lines_encode]
    split_ifs
    · exact hpos
    · rwa [List.length_map]
  rw [parseQuery, if_neg (by omega), filterMap_lines_encode, mapM_decodePair, Option.map_some,
    foldl_addPair_pairs hfull]

end Writing

end Grex.QueryString
