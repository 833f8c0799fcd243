import Grex.Lines

/-!
HTML made of text and spans, in the 16-bit units of a script's strings. Text is
escaped by entities for its three special characters, a span is a pair of tags
around escaped text, and spans do not nest. What such markup shows is read back
by taking out the tags and putting the characters in place of their entities.
-/

namespace Grex.Markup

open Lines

abbrev Text := List UInt16

def unit (c : Char) : UInt16 := UInt16.ofNat c.toNat

/-- A text of the basic plane. -/
def units (s : String) : Text := s.toList.map unit

/-! ### Entities -/

def entities : List (UInt16 × Text) :=
  [(unit '&', units "&amp;"), (unit '<', units "&lt;"), (unit '>', units "&gt;")]

def escapeUnit (c : UInt16) : Text :=
  match entities.find? fun e => decide (e.1 = c) with
  | some e => e.2
  | none => [c]

def escape (s : Text) : Text := s.flatMap escapeUnit

/-- Characters in place of entities, past what is left of an entity already
read. -/
def decodeFrom : ℕ → Text → Text
  | _, [] => []
  | skip + 1, _ :: s => decodeFrom skip s
  | 0, c :: s =>
      match entities.find? fun e => e.2.isPrefixOf (c :: s) with
      | some e => e.1 :: decodeFrom (e.2.length - 1) s
      | none => c :: decodeFrom 0 s

def decode (s : Text) : Text := decodeFrom 0 s

/-- Text without tags, in which every `&` starts an entity. -/
structure Plain (s : Text) : Prop where
  lt : unit '<' ∉ s
  gt : unit '>' ∉ s
  amp : ∀ after, unit '&' :: after <:+ s → ∃ e ∈ entities, e.2 <+: unit '&' :: after

/-- An entity is a `&` and more units, none of them special. -/
theorem entity_eq : ∀ e ∈ entities, e.2 = unit '&' :: e.2.tail ∧
    unit '&' ∉ e.2.tail ∧ unit '<' ∉ e.2 ∧ unit '>' ∉ e.2 := by
  decide

theorem escapeUnit_cases (c : UInt16) :
    (∃ e ∈ entities, c = e.1 ∧ escapeUnit c = e.2) ∨
      (c ≠ unit '&' ∧ c ≠ unit '<' ∧ c ≠ unit '>') ∧ escapeUnit c = [c] := by
  unfold escapeUnit
  cases hfind : entities.find? fun e => decide (e.1 = c) with
  | some e =>
    have hc := List.find?_some hfind
    exact Or.inl ⟨e, List.mem_of_find?_eq_some hfind, (of_decide_eq_true hc).symm, rfl⟩
  | none =>
    have hnone : ∀ e ∈ entities, e.1 ≠ c := by simpa using hfind
    simp only [entities, List.forall_mem_cons] at hnone
    exact Or.inr ⟨⟨hnone.1.symm, hnone.2.1.symm, hnone.2.2.1.symm⟩, rfl⟩

theorem escape_cons (c : UInt16) (s : Text) : escape (c :: s) = escapeUnit c ++ escape s := rfl

theorem escape_append (s s' : Text) : escape (s ++ s') = escape s ++ escape s' :=
  List.flatMap_append

theorem escape_eq_self {s : Text} (hs : ∀ c ∈ s, ∀ e ∈ entities, c ≠ e.1) : escape s = s := by
  induction s with
  | nil => rfl
  | cons c s ih =>
    obtain ⟨hc, hrest⟩ := List.forall_mem_cons.mp hs
    rw [escape_cons, ih hrest]
    rcases escapeUnit_cases c with ⟨e, he, heq, -⟩ | ⟨-, hescape⟩
    · exact absurd heq (hc e he)
    · rw [hescape]
      rfl

theorem decode_entity (e : UInt16 × Text) (he : e ∈ entities) (s : Text) :
    decode (e.2 ++ s) = e.1 :: decode s := by
  simp only [entities, List.mem_cons, List.not_mem_nil, or_false] at he
  rcases he with rfl | rfl | rfl
  · rfl
  · rfl
  · rfl

theorem decode_cons {c : UInt16} (hc : c ≠ unit '&') (s : Text) :
    decode (c :: s) = c :: decode s := by
  have hnone : entities.find? (fun e => e.2.isPrefixOf (c :: s)) = none := by
    rw [List.find?_eq_none]
    intro e he hpre
    rw [(entity_eq e he).1, List.isPrefixOf_cons_cons, Bool.and_eq_true, beq_iff_eq] at hpre
    exact hc hpre.1.symm
  simp only [decode, decodeFrom, hnone]

theorem decode_escape (s : Text) : decode (escape s) = s := by
  induction s with
  | nil => rfl
  | cons c s ih =>
    rw [escape_cons]
    rcases escapeUnit_cases c with ⟨e, he, rfl, hescape⟩ | ⟨⟨hamp, -, -⟩, hescape⟩
    · rw [hescape, decode_entity e he, ih]
    · rw [hescape, List.singleton_append, decode_cons hamp, ih]

theorem suffix_of_notMem {a : UInt16} {s s' after : Text} (hs : a ∉ s)
    (h : a :: after <:+ s ++ s') : a :: after <:+ s' := by
  induction s with
  | nil => exact h
  | cons c s ih =>
    rw [List.mem_cons, not_or] at hs
    rcases List.suffix_cons_iff.mp h with heq | h
    · exact absurd (List.cons.inj heq).1 hs.1
    · exact ih hs.2 h

theorem plain_escape (s : Text) : Plain (escape s) := by
  induction s with
  | nil => exact ⟨List.not_mem_nil, List.not_mem_nil, fun after h => by cases List.suffix_nil.mp h⟩
  | cons c s ih =>
    rw [escape_cons]
    rcases escapeUnit_cases c with ⟨e, he, -, hescape⟩ | ⟨⟨hamp, hlt, hgt⟩, hescape⟩
    · obtain ⟨heq, hamp, hlt, hgt⟩ := entity_eq e he
      rw [hescape]
      refine ⟨by simp [hlt, ih.lt], by simp [hgt, ih.gt], fun after h => ?_⟩
      rw [heq, List.cons_append] at h
      rcases List.suffix_cons_iff.mp h with hhead | htail
      · rw [hhead]
        exact ⟨e, he, by rw [heq]; exact List.prefix_append _ _⟩
      · exact ih.amp after (suffix_of_notMem hamp htail)
    · rw [hescape]
      refine ⟨by simp [Ne.symm hlt, ih.lt], by simp [Ne.symm hgt, ih.gt], fun after h => ?_⟩
      exact ih.amp after (suffix_of_notMem (by simpa using Ne.symm hamp) h)

/-! ### Tags -/

def startTag (name : Text) : Text := units "<span class=\"" ++ name ++ units "\">"

def endTag : Text := units "</span>"

def span (name s : Text) : Text := startTag name ++ s ++ endTag

/-- The text outside of tags, from inside of one or not. -/
def removeTagsFrom : Bool → Text → Text
  | _, [] => []
  | true, c :: s => removeTagsFrom (decide (c ≠ unit '>')) s
  | false, c :: s => if c = unit '<' then removeTagsFrom true s else c :: removeTagsFrom false s

def removeTags (s : Text) : Text := removeTagsFrom false s

/-- What a piece of HTML shows. -/
def shown (s : Text) : Text := decode (removeTags s)

theorem removeTags_append {s : Text} (hlt : unit '<' ∉ s) (s' : Text) :
    removeTags (s ++ s') = s ++ removeTags s' := by
  induction s with
  | nil => rfl
  | cons c s ih =>
    rw [List.mem_cons, not_or] at hlt
    have hc : removeTags (c :: (s ++ s')) = c :: removeTags (s ++ s') := if_neg (Ne.symm hlt.1)
    rw [List.cons_append, hc, ih hlt.2, List.cons_append]

theorem removeTagsFrom_true {s : Text} (hgt : unit '>' ∉ s) (s' : Text) :
    removeTagsFrom true (s ++ unit '>' :: s') = removeTags s' := by
  induction s with
  | nil => rfl
  | cons c s ih =>
    rw [List.mem_cons, not_or] at hgt
    rw [List.cons_append, removeTagsFrom, decide_eq_true (Ne.symm hgt.1)]
    exact ih hgt.2

theorem removeTags_startTag {name : Text} (hgt : unit '>' ∉ name) (s : Text) :
    removeTags (startTag name ++ s) = removeTags s := by
  have hinside : unit '>' ∉ units "span class=\"" ++ name ++ units "\"" := by
    rw [List.mem_append, List.mem_append]
    rintro ((h | h) | h)
    · exact absurd h (by decide)
    · exact hgt h
    · exact absurd h (by decide)
  have htag : startTag name ++ s =
      unit '<' :: (units "span class=\"" ++ name ++ units "\"" ++ unit '>' :: s) := by
    simp [startTag, units]
  rw [htag]
  exact removeTagsFrom_true hinside s

theorem removeTags_endTag (s : Text) : removeTags (endTag ++ s) = removeTags s := rfl

/-! ### Markup and what it shows -/

section Shows

variable {κ : Type*} {name : κ → Text}

/-- A text, or a span of a class. -/
def render (name : κ → Text) (p : Option κ × Text) : Text :=
  match p.1 with
  | none => p.2
  | some c => span (name c) p.2

/-- The HTML is put together from escaped texts and spans of the given text. -/
def Shows (name : κ → Text) (out text : Text) : Prop :=
  ∃ pieces : List (Option κ × Text),
    out = pieces.flatMap (fun p => render name (p.1, escape p.2)) ∧
      text = pieces.flatMap Prod.snd

theorem shows_nil : Shows name [] [] := ⟨[], rfl, rfl⟩

theorem shows_escape (s : Text) : Shows name (escape s) s :=
  ⟨[(none, s)], by simp [render], by simp⟩

theorem shows_self {s : Text} (hs : ∀ c ∈ s, ∀ e ∈ entities, c ≠ e.1) : Shows name s s := by
  have h : Shows name (escape s) s := shows_escape s
  rwa [escape_eq_self hs] at h

theorem shows_span (c : κ) (s : Text) : Shows name (span (name c) (escape s)) s :=
  ⟨[(some c, s)], by simp [render], by simp⟩

theorem Shows.append {out text out' text' : Text} (h : Shows name out text)
    (h' : Shows name out' text') : Shows name (out ++ out') (text ++ text') := by
  obtain ⟨pieces, rfl, rfl⟩ := h
  obtain ⟨pieces', rfl, rfl⟩ := h'
  exact ⟨pieces ++ pieces', List.flatMap_append.symm, List.flatMap_append.symm⟩

/-- Lines are shown by lines. -/
theorem shows_mapLines {sep : UInt16} (hsep : escape [sep] = [sep]) {f g : Text → Text}
    (hline : ∀ l, Shows name (f l) (g l)) (s : Text) :
    Shows name (mapLines sep f s) (mapLines sep g s) := by
  unfold mapLines
  generalize lines sep s = ls
  induction ls with
  | nil => exact shows_nil
  | cons l ls ih =>
    by_cases hne : ls = []
    · subst hne
      simpa [unlines] using hline l
    · rw [List.map_cons, List.map_cons, unlines_cons (by simpa using hne),
        unlines_cons (by simpa using hne)]
      have hbreak : Shows name (escape [sep]) [sep] := shows_escape [sep]
      rw [hsep] at hbreak
      exact (hline l).append (hbreak.append ih)

/-- The markup has no tags but those of its spans, which do not nest. -/
theorem Shows.segments {out text : Text} (h : Shows name out text) :
    ∃ segments : List (Option κ × Text), out = segments.flatMap (render name) ∧
      ∀ p ∈ segments, Plain p.2 := by
  obtain ⟨pieces, rfl, -⟩ := h
  refine ⟨pieces.map fun p => (p.1, escape p.2), (List.flatMap_map ..).symm, fun p hp => ?_⟩
  obtain ⟨q, -, rfl⟩ := List.mem_map.mp hp
  exact plain_escape q.2

theorem removeTags_render (hname : ∀ c, unit '>' ∉ name c) (p : Option κ × Text) (s : Text) :
    removeTags (render name (p.1, escape p.2) ++ s) = escape p.2 ++ removeTags s := by
  obtain ⟨c, text⟩ := p
  have hlt := (plain_escape text).lt
  cases c with
  | none => exact removeTags_append hlt s
  | some c =>
    simp only [render, span, List.append_assoc]
    rw [removeTags_startTag (hname c), removeTags_append hlt, removeTags_endTag]

/-- The markup shows the text it was made of. -/
theorem Shows.shown_eq (hname : ∀ c, unit '>' ∉ name c) {out text : Text}
    (h : Shows name out text) : shown out = text := by
  obtain ⟨pieces, rfl, rfl⟩ := h
  have hremove : removeTags (pieces.flatMap fun p => render name (p.1, escape p.2)) =
      escape (pieces.flatMap Prod.snd) := by
    induction pieces with
    | nil => rfl
    | cons p pieces ih =>
      rw [List.flatMap_cons, List.flatMap_cons, removeTags_render hname, ih, escape_append]
  rw [shown, hremove, decode_escape]

end Shows

end Grex.Markup
