import Grex.Matchers

/-!
Whether the regular expression of a matcher reads a whole attribute value. The
anchors are added unless the text of the pattern starts or ends with one, which
says little about the pattern: an anchor may belong to one alternative only, or
be escaped.
-/

namespace Grex.Matchers

open Regex AgentState

/-- The standard laws for the patterns of a runtime. -/
def Runtime.Standard (rt : Runtime) : Prop :=
  RegexSyntax.Standard fun p => (rt.compile (.ofList p)).toOption

theorem standard_core : Runtime.core.Standard := by
  have hparse : (fun p => (Runtime.core.compile (.ofList p)).toOption) = RegexSyntax.parse := by
    funext p
    unfold Runtime.core
    simp only [String.toList_ofList]
    cases RegexSyntax.parse p <;> rfl
  unfold Runtime.Standard
  rw [hparse]
  exact RegexSyntax.standard_parse

/-- An end that the text of the pattern claims to hold is held by every alternative. -/
structure HeldToEnds (p : List Char) (r : Node) : Prop where
  start : hasStart p = true → r.opens = true
  stop : hasEnd p = true → r.closes = true

instance (p : List Char) (r : Node) : Decidable (HeldToEnds p r) :=
  decidable_of_iff ((hasStart p = true → r.opens = true) ∧ (hasEnd p = true → r.closes = true))
    ⟨fun h => ⟨h.1, h.2⟩, fun h => ⟨h.start, h.stop⟩⟩

/-- The anchors that are added hold the match to the ends the text does not. -/
theorem reads_compileMatcherRE {rt : Runtime} (hrt : rt.Standard) {p : List Char} {r re : Node}
    (hp : rt.compile (.ofList p) = .ok r) (hre : compileMatcherRE rt p = .ok re) (c d : Cursor) :
    Reads re c d ↔ Reads r c d ∧ (c.before = [] ∨ hasStart p = true) ∧
      (d.rest = [] ∨ hasEnd p = true) := by
  have hp' : (rt.compile (.ofList p)).toOption = some r := by rw [hp]; rfl
  have hre' : (rt.compile (.ofList (anchoredPattern p))).toOption = some re := by
    unfold compileMatcherRE at hre
    rw [hre]
    rfl
  by_cases hnil : p = []
  · subst hnil
    obtain ⟨blank, hblank, hreads⟩ := hrt.blank
    obtain rfl : blank = re := Option.some.inj (hblank.symm.trans hre')
    rw [hreads, hrt.empty r hp']
    have hstart : hasStart [] = false := rfl
    have hend : hasEnd [] = false := rfl
    simp only [hstart, hend, Bool.false_eq_true, or_false]
    apply and_congr_right
    rintro rfl
    exact Iff.rfl
  · unfold anchoredPattern at hre'
    rw [if_neg hnil] at hre'
    cases hstart : hasStart p <;> cases hend : hasEnd p <;> simp only [hstart, hend] at hre'
    · rw [hrt.whole p r re hp' hre', and_left_comm]
      simp
    · rw [hrt.fromStart p r re hp' hre', and_comm]
      simp
    · rw [hrt.toEnd p r re hp' hre']
      simp
    · obtain rfl : r = re := Option.some.inj (hp'.symm.trans hre')
      simp

/-- A pattern that is held to both ends matches the values it reads as a whole. -/
theorem matchString_of_held {rt : Runtime} (hrt : rt.Standard) {p : List Char} {r re : Node}
    (hp : rt.compile (.ofList p) = .ok r) (hre : compileMatcherRE rt p = .ok re)
    (hheld : HeldToEnds p r) (v : List Char) : matchString re v = true ↔ Whole r v := by
  rw [matchString_iff]
  simp only [reads_compileMatcherRE hrt hp hre]
  constructor
  · rintro ⟨c, d, rfl, hread, hstart, hend⟩
    have hbefore : c.before = [] := hstart.elim id fun h => before_of_opens hread (hheld.start h)
    have hrest : d.rest = [] := hend.elim id fun h => rest_of_closes hread (hheld.stop h)
    exact whole_of_reads hread hbefore hrest
  · intro hwhole
    exact ⟨.start v, .stop v, rfl, hwhole, Or.inl rfl, Or.inl rfl⟩

/-- With both anchors around its group a pattern matches the values it reads as a
whole. -/
theorem matchString_anchored {rt : Runtime} (hrt : rt.Standard) {p : List Char} {r full : Node}
    (hp : rt.compile (.ofList p) = .ok r)
    (hfull : rt.compile (.ofList (RegexSyntax.anchored p)) = .ok full) (v : List Char) :
    matchString full v = true ↔ Whole r v := by
  have hreads := hrt.whole p r full (by rw [hp]; rfl) (by rw [hfull]; rfl)
  rw [matchString_iff]
  simp only [hreads]
  constructor
  · rintro ⟨c, d, rfl, hbefore, hread, hrest⟩
    exact whole_of_reads hread hbefore hrest
  · intro hwhole
    exact ⟨.start v, .stop v, rfl, rfl, hwhole, rfl⟩

/-- A matcher compares whole values where each anchor that its text starts or ends
with stands in every alternative of the pattern, and wherever it does neither; then
the two operators select and exclude the agents whose value the pattern reads. -/
theorem fullMatch_of_held (rt : Runtime) (hrt : rt.Standard) (p : List Char) (r re : Node)
    (hp : rt.compile (.ofList p) = .ok r) (hre : compileMatcherRE rt p = .ok re)
    (hheld : HeldToEnds p r) :
    (∀ full, rt.compile (.ofList (RegexSyntax.anchored p)) = .ok full →
        ∀ v, matchString full v = true ↔ Whole r v) ∧
      (∀ v, matchString re v = true ↔ Whole r v) ∧
      ∀ a key got, attrValue a key = some got →
        (matchAttr a ⟨key, .regex, .ofList p, some re⟩ = true ↔ Whole r got.toList) ∧
          (matchAttr a ⟨key, .notRegex, .ofList p, some re⟩ = true ↔ ¬ Whole r got.toList) := by
  have hmatch := matchString_of_held hrt hp hre hheld
  refine ⟨fun full hfull v => matchString_anchored hrt hp hfull v, hmatch, ?_⟩
  intro a key got hgot
  constructor
  · simp only [matchAttr, hgot]
    exact hmatch got.toList
  · simp only [matchAttr, hgot, Bool.not_eq_true', ← Bool.not_eq_true, not_iff_not]
    exact hmatch got.toList

/-- Both alternatives have both anchors. -/
theorem fullMatch_of_held_alternatives :
    ∃ r re, Runtime.core.compile "^a+$|^b$" = .ok r ∧
      compileMatcherRE .core "^a+$|^b$".toList = .ok re ∧ HeldToEnds "^a+$|^b$".toList r ∧
      matchString re "aa".toList = true ∧ matchString re "ax".toList = false := by
  obtain ⟨r, hr, hheld, haa, hax⟩ : ∃ r, Runtime.core.compile (.ofList "^a+$|^b$".toList) = .ok r ∧
      HeldToEnds "^a+$|^b$".toList r ∧ Whole r "aa".toList ∧ ¬ Whole r "ax".toList :=
    ⟨_, rfl, by decide +kernel, by decide +kernel, by decide +kernel⟩
  obtain ⟨re, hre⟩ : ∃ re, compileMatcherRE .core "^a+$|^b$".toList = .ok re := ⟨_, rfl⟩
  obtain ⟨-, hmatch, -⟩ := fullMatch_of_held .core standard_core _ r re hr hre hheld
  exact ⟨r, re, hr, hre, hheld, (hmatch _).mpr haa, Bool.eq_false_iff.mpr ((hmatch _).not.mpr hax)⟩

/-- Each anchor stands in one alternative only, yet none is added. -/
theorem anchored_alternatives_match_part :
    ∃ r re, Runtime.core.compile "^a|b$" = .ok r ∧
      compileMatcherRE .core "^a|b$".toList = .ok re ∧
      matchString re "ax".toList = true ∧ ¬ Whole r "ax".toList :=
  ⟨_, _, rfl, rfl, by decide +kernel, by decide +kernel⟩

end Grex.Matchers
