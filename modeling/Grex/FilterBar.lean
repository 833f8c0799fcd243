import Grex.Lines
import Grex.Machine
import Grex.OfferedFilters
import Grex.ScriptMatcher

/-!
The bar of label filters on the fleet page. It holds chips, an input and a list of
suggestions, and keeps one hidden form field for each chip. What it is for is simpler: a set
of filters and perhaps one more that is being written. Every gesture on the bar is a change of
that set, and what the form sends is read by the server as exactly the filters held.
-/

namespace Grex.FilterBar

open GoText Regex AgentState Matchers Filtering OfferedFilters Machine ScriptMatcher

/-! ### The script -/

inductive Kind
  | key
  | op
  | value
  deriving DecidableEq

structure Suggest where
  kind : Kind
  items : List String
  active : ℕ
  deriving DecidableEq

structure Bar where
  /-- The matcher of each chip. -/
  chips : List String
  /-- The values of the hidden `match` fields. -/
  hidden : List String
  input : String
  suggest : Option Suggest
  deriving DecidableEq

/-- What is read off a text in progress; without an operator it is all key. -/
structure Partial where
  key : String
  op : Option Op
  value : String

def ops : List String := ["=", "!=", "=~", "!~"]

def parsePartial (text : String) : Partial :=
  let t := text.toList.dropWhile isScriptSpace
  match matchOp t with
  | none => ⟨.ofList (trim isScriptSpace t), none, ""⟩
  | some (key, op, value) => ⟨.ofList (trim isScriptSpace key), some op, .ofList value⟩

def syncHidden (b : Bar) : Bar := { b with hidden := b.chips }

def hideSuggest (b : Bar) : Bar := { b with suggest := none }

def showSuggest (items : List String) (kind : Kind) (b : Bar) : Bar :=
  { b with suggest := if items = [] then none else some ⟨kind, items, 0⟩ }

def addChip (matcher : String) (clearInput : Bool) (b : Bar) : Bar :=
  if matcher = "" then b
  else if matcher ∈ b.chips then
    if clearInput then { b with input := "" } else b
  else
    let b := { b with chips := b.chips ++ [matcher] }
    syncHidden (if clearInput then hideSuggest { b with input := "" } else b)

/-- A complete text becomes a chip. -/
def addComplete (text : List Char) (clearInput : Bool) (b : Bar) : Bar :=
  match matchOp text with
  | some m => addChip (reformat m) clearInput b
  | none => b

def removeChip (matcher : String) (b : Bar) : Bar :=
  syncHidden { b with chips := b.chips.erase matcher }

/-- A complete matcher in the input, other than the given one, becomes a chip. -/
def keepPending (matcher : String) (b : Bar) : Bar :=
  let pending := trim isScriptSpace b.input.toList
  if pending ≠ matcher.toList then addComplete pending false b else b

/-- Move a chip back into the input. -/
def editChip (matcher : String) (b : Bar) : Bar :=
  if matcher = "" then b
  else
    { removeChip matcher (keepPending matcher b) with
      input := match matchOp matcher.toList with
        | some m => reformat m
        | none => matcher }

def pick (item : String) (kind : Kind) (b : Bar) : Bar :=
  let part := parsePartial b.input
  match kind with
  | .key => showSuggest ops .op { b with input := item ++ " " }
  | .op => if part.key = "" then b else { b with input := part.key ++ " " ++ item ++ " " }
  | .value => addChip (formatMatcher part.key (part.op.getD .equal) item) true b

inductive Key
  | arrowDown
  | arrowUp
  | enter
  | tab
  | escape
  deriving DecidableEq

def keydown (k : Key) (b : Bar) : Bar :=
  match b.suggest with
  | none => if k = .enter then addComplete (trim isScriptSpace b.input.toList) true b else b
  | some s =>
      match k with
      | .arrowDown =>
          { b with suggest := some { s with active := min (s.active + 1) (s.items.length - 1) } }
      | .arrowUp => { b with suggest := some { s with active := s.active - 1 } }
      | .escape => hideSuggest b
      | .enter | .tab =>
          match s.items[s.active]? with
          | some item => pick item s.kind b
          | none => b

/-- An attribute chip of the fleet table was clicked. -/
def onAddMatch (key value : String) (b : Bar) : Bar :=
  if key = "" then b else addChip (formatMatcher key .equal value) true b

def submit (b : Bar) : Bar :=
  syncHidden (addComplete (trim isScriptSpace b.input.toList) true b)

/-- The `data-matches` attribute as the page is rendered. -/
def dataMatches (shown : List String) : List Char :=
  shown.flatMap fun m => m.toList ++ ['\n']

/-- The bar as it is set up from its `data-matches` attribute. -/
def initMatcher (data : List Char) : Bar :=
  (((Lines.lines '\n' data).map fun m => String.ofList (trim isScriptSpace m)).filter
    (· ≠ "")).foldl (fun b m => addChip m false b) ⟨[], [], "", none⟩

/-- What is done to the bar. A list of suggestions may arrive at any time. -/
inductive Act
  | type (text : String)
  | offer (items : List String) (kind : Kind)
  | key (k : Key)
  | point (i : ℕ)
  | blur
  | edit (matcher : String)
  | remove (matcher : String)
  | add (key value : String)
  | submit

def step (b : Bar) : Act → Option Bar
  | .type text => some { b with input := text }
  | .offer items kind => some (showSuggest items kind b)
  | .key k => some (keydown k b)
  | .point i => b.suggest.bind fun s => (s.items[i]?).map fun item => pick item s.kind b
  | .blur => some (hideSuggest b)
  | .edit m => if m ∈ b.chips then some (editChip m b) else none
  | .remove m => if m ∈ b.chips then some (removeChip m b) else none
  | .add key value => some (onAddMatch key value b)
  | .submit => some (submit b)

/-! ### What the bar is for -/

/-- A key, an operator and a value, as the server reads them. -/
abbrev Filter := List Char × Op × List Char

/-- The filters held, and the one that is being written. -/
@[ext] structure Asked where
  held : Set Filter
  typed : Option Filter

def Asked.all (q : Asked) : Set Filter := q.held ∪ {f | q.typed = some f}

/-- What can be done to a set of filters. -/
inductive Deed
  | browse
  | type (text : String)
  | commit
  | add (matcher : String)
  | edit (matcher : String)
  | remove (matcher : String)
  deriving DecidableEq

/-- Committing holds what was typed, adding forgets it, and editing types what was held without
losing any filter. -/
def Effect (q q' : Asked) : Deed → Prop
  | .browse => q' = q
  | .type text => q' = ⟨q.held, written text⟩
  | .commit => q' = ⟨q.all, none⟩
  | .add m => ∃ f, written m = some f ∧ q' = ⟨insert f q.held, none⟩
  | .edit m => ∃ f ∈ q.held, written m = some f ∧ q'.typed = some f ∧ q'.all = q.all
  | .remove m => ∃ f ∈ q.held, written m = some f ∧ q'.typed = q.typed ∧ q'.held ⊆ q.held ∧
      q.held ⊆ insert f q'.held

/-- The filters a bar stands for. -/
def asked (b : Bar) : Asked :=
  ⟨{f | ∃ m ∈ b.chips, written m = some f}, written b.input⟩

def pickDeed (item : String) (kind : Kind) (b : Bar) : Deed :=
  let part := parsePartial b.input
  match kind with
  | .key => .type (item ++ " ")
  | .op => if part.key = "" then .browse else .type (part.key ++ " " ++ item ++ " ")
  | .value => .add (formatMatcher part.key (part.op.getD .equal) item)

/-- What a gesture does to the filters. -/
def deed (b : Bar) : Act → Deed
  | .type text => .type text
  | .offer _ _ => .browse
  | .key k =>
      match b.suggest with
      | none => if k = .enter then .commit else .browse
      | some s =>
          if k = .enter ∨ k = .tab then
            match s.items[s.active]? with
            | some item => pickDeed item s.kind b
            | none => .browse
          else .browse
  | .point i =>
      match b.suggest.bind fun s => (s.items[i]?).map fun item => pickDeed item s.kind b with
      | some d => d
      | none => .browse
  | .blur => .browse
  | .edit m => .edit m
  | .remove m => .remove m
  | .add key value => if key = "" then .browse else .add (formatMatcher key .equal value)
  | .submit => .commit

/-- What is typed is legible, and what is added is a complete matcher. -/
def Fair : Deed → Prop
  | .type text => Legible text.toList
  | .add m => Sound m.toList
  | _ => True

instance : ∀ d, Decidable (Fair d)
  | .type text => inferInstanceAs (Decidable (Legible text.toList))
  | .add m => inferInstanceAs (Decidable (Sound m.toList))
  | .browse | .commit | .edit _ | .remove _ => isTrue trivial

/-! ### The filters of a bar -/

structure Inv (b : Bar) : Prop where
  synced : b.hidden = b.chips
  nodup : b.chips.Nodup
  sound : ∀ m ∈ b.chips, Sound m.toList
  legible : Legible b.input.toList

/-- The invariant is kept and the deed has its effect. -/
def Does (d : Deed) (b b' : Bar) : Prop := Inv b' ∧ Effect (asked b) (asked b') d

variable {b b' : Bar} {m : String} {f : Filter}

theorem legible_empty : Legible "".toList where
  plain c hc := absurd hc List.not_mem_nil
  kept key op value hsplit := by cases hsplit

theorem written_trimSpace (m : String) : written (trimSpace m) = written m := by
  unfold written
  rw [toList_trimSpace, trim_trim]

theorem exists_written (h : Sound m.toList) : ∃ f, written m = some f := by
  obtain ⟨key, op, value, hsplit, -⟩ := h.read
  obtain ⟨gap, gap', hjoined, -⟩ := joined_of_split h.plain h.head hsplit
  exact ⟨_, hjoined.written⟩

theorem ne_empty_of_written (h : written m = some f) : m ≠ "" := by
  rintro rfl
  cases h

theorem chips_addChip (hm : m ≠ "") (clear : Bool) :
    (addChip m clear b).chips = if m ∈ b.chips then b.chips else b.chips ++ [m] := by
  unfold addChip
  rw [if_neg hm]
  split_ifs <;> rfl

theorem input_addChip (hm : m ≠ "") (clear : Bool) :
    (addChip m clear b).input = if clear then "" else b.input := by
  unfold addChip
  rw [if_neg hm]
  cases clear <;> (split_ifs <;> rfl)

theorem mem_addChip (hm : m ≠ "") {clear : Bool} {m' : String} :
    m' ∈ (addChip m clear b).chips ↔ m' = m ∨ m' ∈ b.chips := by
  rw [chips_addChip hm]
  split_ifs with hmem
  · exact ⟨.inr, fun h => h.elim (fun heq => heq ▸ hmem) id⟩
  · simp [or_comm]

theorem inv_addChip (hb : Inv b) (hm : Sound m.toList) (clear : Bool) :
    Inv (addChip m clear b) := by
  obtain ⟨f, hf⟩ := exists_written hm
  have hne := ne_empty_of_written hf
  constructor
  · unfold addChip
    rw [if_neg hne]
    split_ifs
    · exact hb.synced
    · exact hb.synced
    · rfl
    · rfl
  · rw [chips_addChip hne]
    split_ifs with hmem
    · exact hb.nodup
    · exact List.nodup_append.mpr ⟨hb.nodup, List.nodup_singleton m, by
        rintro x hx y hy rfl
        exact hmem (List.mem_singleton.mp hy ▸ hx)⟩
  · intro m' hm'
    rcases (mem_addChip hne).mp hm' with rfl | hold
    · exact hm
    · exact hb.sound m' hold
  · rw [input_addChip hne]
    cases clear
    · exact hb.legible
    · exact legible_empty

theorem held_addChip (hm : written m = some f) (clear : Bool) :
    (asked (addChip m clear b)).held = insert f (asked b).held := by
  have hne := ne_empty_of_written hm
  ext g
  constructor
  · rintro ⟨m', hm', hg⟩
    rcases (mem_addChip hne).mp hm' with rfl | hold
    · rw [hm] at hg
      exact .inl (Option.some.inj hg).symm
    · exact .inr ⟨m', hold, hg⟩
  · rintro (rfl | ⟨m', hm', hg⟩)
    · exact ⟨m, (mem_addChip hne).mpr (.inl rfl), hm⟩
    · exact ⟨m', (mem_addChip hne).mpr (.inr hm'), hg⟩

theorem does_add (hb : Inv b) (hm : Sound m.toList) : Does (.add m) b (addChip m true b) := by
  obtain ⟨f, hf⟩ := exists_written hm
  refine ⟨inv_addChip hb hm true, f, hf, Asked.ext (held_addChip hf true) ?_⟩
  change written (addChip m true b).input = none
  rw [input_addChip (ne_empty_of_written hf)]
  rfl

/-- What is typed becomes a chip once it is complete. -/
theorem addComplete_typed (hb : Inv b) (clear : Bool) :
    let text := trim isScriptSpace b.input.toList
    written b.input = none ∧ addComplete text clear b = b ∨
      ∃ f m, written b.input = some f ∧ written m = some f ∧ Sound m.toList ∧
        addComplete text clear b = addChip m clear b := by
  have hplain := hb.legible.plain
  have hmatch : matchOp (trim isScriptSpace b.input.toList) =
      split (trim isSpace b.input.toList) := by
    rw [trim_script hplain, matchOp_eq_split hplain.trim]
  intro text
  unfold addComplete
  rw [hmatch]
  cases hsplit : split (trim isSpace b.input.toList) with
  | none => exact .inl ⟨by unfold written; rw [hsplit]; rfl, rfl⟩
  | some parts =>
    obtain ⟨key, op, value⟩ := parts
    have hsound := hb.legible.sound_trim hsplit
    rw [← toList_trimSpace] at hsound hsplit
    obtain ⟨f, hf⟩ := exists_written hsound
    obtain ⟨hnew, hsame⟩ := hsound.reformat hsplit
    have htyped : written b.input = some f := (written_trimSpace b.input).symm.trans hf
    exact .inr ⟨f, _, htyped, hsame.trans hf, hnew, rfl⟩

theorem all_of_typed (h : written b.input = some f) :
    (asked b).all = insert f (asked b).held := by
  ext g
  simp only [Asked.all, asked, h, Option.some.injEq, Set.mem_union, Set.mem_ofPred_eq,
    Set.mem_insert_iff]
  exact ⟨fun hg => hg.elim .inr fun heq => .inl heq.symm,
    fun hg => hg.elim (fun heq => .inr heq.symm) .inl⟩

theorem all_of_not_typed (h : written b.input = none) : (asked b).all = (asked b).held := by
  ext g
  simp [Asked.all, asked, h]

theorem does_commit (hb : Inv b) :
    Does .commit b (addComplete (trim isScriptSpace b.input.toList) true b) := by
  rcases addComplete_typed hb true with ⟨hnone, hsame⟩ | ⟨f, m, htyped, hm, hsound, hadd⟩
  · rw [hsame]
    exact ⟨hb, Asked.ext (all_of_not_typed hnone).symm hnone⟩
  · rw [hadd]
    obtain ⟨hinv, g, hg, heffect⟩ := does_add hb hsound
    obtain rfl : f = g := Option.some.inj (hm.symm.trans hg)
    exact ⟨hinv, heffect.trans (by rw [all_of_typed htyped])⟩

/-! ### Taking a chip away -/

theorem inv_removeChip (hb : Inv b) (m : String) : Inv (removeChip m b) where
  synced := rfl
  nodup := hb.nodup.erase m
  sound m' hm' := hb.sound m' (List.mem_of_mem_erase hm')
  legible := hb.legible

theorem held_removeChip (hf : written m = some f) (hmem : m ∈ b.chips) :
    insert f (asked (removeChip m b)).held = (asked b).held := by
  ext g
  constructor
  · rintro (rfl | ⟨m', hm', hg⟩)
    · exact ⟨m, hmem, hf⟩
    · exact ⟨m', List.mem_of_mem_erase hm', hg⟩
  · rintro ⟨m', hm', hg⟩
    by_cases hsame : m' = m
    · rw [hsame, hf] at hg
      exact .inl (Option.some.inj hg).symm
    · exact .inr ⟨m', (List.mem_erase_of_ne hsame).mpr hm', hg⟩

theorem does_remove (hb : Inv b) (hmem : m ∈ b.chips) : Does (.remove m) b (removeChip m b) := by
  obtain ⟨f, hf⟩ := exists_written (hb.sound m hmem)
  have hheld := held_removeChip hf hmem
  refine ⟨inv_removeChip hb m, f, ⟨m, hmem, hf⟩, hf, rfl, ?_, hheld.ge⟩
  exact (Set.subset_insert f _).trans hheld.le

/-- The text of the chip is no longer sent. -/
theorem notMem_hidden_removeChip (hb : Inv b) (m : String) : m ∉ (removeChip m b).hidden :=
  hb.nodup.not_mem_erase

/-- Before a chip is edited, what was typed is held. -/
theorem keepPending_spec (hb : Inv b) (hmem : m ∈ b.chips) : Inv (keepPending m b) ∧
    m ∈ (keepPending m b).chips ∧ (asked (keepPending m b)).held = (asked b).all := by
  unfold keepPending
  by_cases hsame : trim isScriptSpace b.input.toList = m.toList
  · -- the chip stands for what was typed
    rw [if_neg (not_not.mpr hsame)]
    refine ⟨hb, hmem, ?_⟩
    cases htyped : written b.input with
    | none => rw [all_of_not_typed htyped]
    | some f =>
      have hm : m = trimSpace b.input := by
        rw [← String.toList_inj, ← hsame, trim_script hb.legible.plain, toList_trimSpace]
      have hf : f ∈ (asked b).held := ⟨m, hmem, by rw [hm, written_trimSpace, htyped]⟩
      rw [all_of_typed htyped, Set.insert_eq_of_mem hf]
  · rw [if_pos hsame]
    rcases addComplete_typed hb false with ⟨hnone, hadd⟩ | ⟨f, m', htyped, hm', hsound, hadd⟩
    · rw [hadd]
      exact ⟨hb, hmem, (all_of_not_typed hnone).symm⟩
    · rw [hadd]
      refine ⟨inv_addChip hb hsound false, ?_, ?_⟩
      · exact (mem_addChip (ne_empty_of_written hm')).mpr (.inr hmem)
      · rw [held_addChip hm', all_of_typed htyped]

theorem does_edit (hb : Inv b) (hmem : m ∈ b.chips) : Does (.edit m) b (editChip m b) := by
  have hsound := hb.sound m hmem
  obtain ⟨f, hf⟩ := exists_written hsound
  obtain ⟨key, op, value, hsplit, -⟩ := hsound.read
  obtain ⟨hnew, hsame⟩ := hsound.reformat hsplit
  obtain ⟨hkept, hin, hall⟩ := keepPending_spec hb hmem
  have hedit : editChip m b =
      { removeChip m (keepPending m b) with input := reformat (key, op, value) } := by
    unfold editChip
    rw [if_neg (ne_empty_of_written hf), matchOp_eq_split hsound.plain, hsplit]
  have htyped : written (editChip m b).input = some f := by
    rw [hedit]
    exact hsame.trans hf
  have hheld : (asked (editChip m b)).held = (asked (removeChip m (keepPending m b))).held := by
    rw [hedit]
    rfl
  refine ⟨?_, f, ⟨m, hmem, hf⟩, hf, htyped, ?_⟩
  · have hremoved := inv_removeChip hkept m
    rw [hedit]
    exact ⟨hremoved.synced, hremoved.nodup, hremoved.sound, hnew.legible⟩
  · rw [all_of_typed htyped, hheld, held_removeChip hf hin, hall]

/-- A chip that is edited or removed leaves the hidden fields. -/
theorem notMem_hidden_step {a : Act} (hb : Inv b) (hstep : step b a = some b')
    (ha : a = .edit m ∨ a = .remove m) : m ∉ b'.hidden := by
  rcases ha with rfl | rfl
  · obtain ⟨hmem, hedit⟩ := Option.ite_none_right_eq_some.mp hstep
    obtain rfl := Option.some.inj hedit
    obtain ⟨f, hf⟩ := exists_written (hb.sound m hmem)
    unfold editChip
    rw [if_neg (ne_empty_of_written hf)]
    exact notMem_hidden_removeChip (keepPending_spec hb hmem).1 m
  · obtain ⟨-, hremove⟩ := Option.ite_none_right_eq_some.mp hstep
    obtain rfl := Option.some.inj hremove
    exact notMem_hidden_removeChip hb m

/-! ### Gestures -/

/-- The list of suggestions does not matter to the filters. -/
theorem does_browse (hb : Inv b) (s : Option Suggest) :
    Does .browse b { b with suggest := s } :=
  ⟨⟨hb.synced, hb.nodup, hb.sound, hb.legible⟩, rfl⟩

theorem does_sync {d : Deed} (h : Does d b b') : Does d b (syncHidden b') :=
  ⟨⟨rfl, h.1.nodup, h.1.sound, h.1.legible⟩, h.2⟩

theorem does_type (hb : Inv b) {text : String} (htext : Legible text.toList) (s : Option Suggest) :
    Does (.type text) b { b with input := text, suggest := s } :=
  ⟨⟨hb.synced, hb.nodup, hb.sound, htext⟩, rfl⟩

theorem does_pick (hb : Inv b) {item : String} {kind : Kind} (hfair : Fair (pickDeed item kind b)) :
    Does (pickDeed item kind b) b (pick item kind b) := by
  cases kind with
  | key => exact does_type hb hfair _
  | op =>
    unfold pickDeed at hfair ⊢
    unfold pick
    dsimp only at hfair ⊢
    split_ifs at hfair ⊢
    · exact does_browse hb _
    · exact does_type hb hfair _
  | value => exact does_add hb hfair

theorem does_key (hb : Inv b) {k : Key} (hfair : Fair (deed b (.key k))) :
    Does (deed b (.key k)) b (keydown k b) := by
  unfold deed at hfair ⊢
  unfold keydown
  cases hs : b.suggest with
  | none =>
    simp only [hs] at hfair ⊢
    split_ifs
    · exact does_commit hb
    · exact does_browse hb _
  | some s =>
    cases hitem : s.items[s.active]? with
    | none =>
      simp only [hitem, ite_self]
      cases k <;> exact does_browse hb _
    | some item =>
      simp only [hs, hitem] at hfair ⊢
      cases k with
      | arrowDown => exact does_browse hb _
      | arrowUp => exact does_browse hb _
      | escape => exact does_browse hb _
      | enter => exact does_pick hb hfair
      | tab => exact does_pick hb hfair

theorem does_step {a : Act} (hb : Inv b) (hfair : Fair (deed b a)) (hstep : step b a = some b') :
    Does (deed b a) b b' := by
  cases a with
  | type text =>
    obtain rfl := Option.some.inj hstep
    exact does_type hb hfair _
  | offer items kind =>
    obtain rfl := Option.some.inj hstep
    exact does_browse hb _
  | key k =>
    obtain rfl := Option.some.inj hstep
    exact does_key hb hfair
  | point i =>
    obtain ⟨s, hs, hpick⟩ := Option.bind_eq_some_iff.mp hstep
    obtain ⟨item, hitem, rfl⟩ := Option.map_eq_some_iff.mp hpick
    have hdeed : deed b (.point i) = pickDeed item s.kind b := by
      simp [deed, hs, hitem]
    rw [hdeed] at hfair ⊢
    exact does_pick hb hfair
  | blur =>
    obtain rfl := Option.some.inj hstep
    exact does_browse hb _
  | edit m =>
    obtain ⟨hmem, hedit⟩ := Option.ite_none_right_eq_some.mp hstep
    obtain rfl := Option.some.inj hedit
    exact does_edit hb hmem
  | remove m =>
    obtain ⟨hmem, hremove⟩ := Option.ite_none_right_eq_some.mp hstep
    obtain rfl := Option.some.inj hremove
    exact does_remove hb hmem
  | add key value =>
    obtain rfl := Option.some.inj hstep
    simp only [deed] at hfair ⊢
    unfold onAddMatch
    split_ifs at hfair ⊢
    · exact does_browse hb _
    · exact does_add hb hfair
  | submit =>
    obtain rfl := Option.some.inj hstep
    exact does_sync (does_commit hb)

/-! ### Runs -/

theorem dataMatches_cons (m : String) (shown : List String) :
    dataMatches (m :: shown) = m.toList ++ '\n' :: dataMatches shown := by
  simp [dataMatches]

theorem lines_dataMatches {shown : List String} (h : ∀ m ∈ shown, '\n' ∉ m.toList) :
    Lines.lines '\n' (dataMatches shown) = shown.map String.toList ++ [[]] := by
  induction shown with
  | nil => rfl
  | cons m shown ih =>
    rw [dataMatches_cons, Lines.lines_append_cons (h m List.mem_cons_self),
      ih fun m' hm' => h m' (List.mem_cons_of_mem m hm')]
    rfl

theorem seed_spec {seeds : List String} (hb : Inv b) (h : ∀ m ∈ seeds, Sound m.toList) :
    Inv (seeds.foldl (fun b m => addChip m false b) b) ∧
      asked (seeds.foldl (fun b m => addChip m false b) b) =
        ⟨(asked b).held ∪ {f | ∃ m ∈ seeds, written m = some f}, written b.input⟩ := by
  induction seeds generalizing b with
  | nil => exact ⟨hb, Asked.ext (by simp) rfl⟩
  | cons m seeds ih =>
    have hm := h m List.mem_cons_self
    obtain ⟨f, hf⟩ := exists_written hm
    obtain ⟨hinv, hasked⟩ := ih (inv_addChip hb hm false)
      fun m' hm' => h m' (List.mem_cons_of_mem m hm')
    refine ⟨hinv, ?_⟩
    rw [List.foldl_cons, hasked, held_addChip hf, input_addChip (ne_empty_of_written hf)]
    refine Asked.ext ?_ rfl
    ext g
    simp [hf, or_assoc, or_left_comm, eq_comm]

/-- The bar of a rendered page holds the filters that are shown. -/
theorem init_spec {shown : List String}
    (hshown : ∀ m ∈ shown, Legible m.toList ∧ (written m).isSome) :
    Inv (initMatcher (dataMatches shown)) ∧
      asked (initMatcher (dataMatches shown)) = ⟨{f | ∃ m ∈ shown, written m = some f}, none⟩ := by
  have htrim : ∀ m ∈ shown, String.ofList (trim isScriptSpace m.toList) = trimSpace m := by
    intro m hm
    rw [trim_script (hshown m hm).1.plain]
    rfl
  have hsound : ∀ m ∈ shown.map trimSpace, Sound m.toList := by
    intro m' hm'
    obtain ⟨m, hm, rfl⟩ := List.mem_map.mp hm'
    obtain ⟨hlegible, hsome⟩ := hshown m hm
    obtain ⟨f, hf⟩ := Option.isSome_iff_exists.mp hsome
    obtain ⟨⟨key, op, value⟩, hsplit, -⟩ := Option.map_eq_some_iff.mp hf
    rw [toList_trimSpace]
    exact hlegible.sound_trim hsplit
  have hseeds : ((Lines.lines '\n' (dataMatches shown)).map fun m =>
      String.ofList (trim isScriptSpace m)).filter (· ≠ "") = shown.map trimSpace := by
    have hmap : (shown.map String.toList).map (fun m => String.ofList (trim isScriptSpace m)) =
        shown.map trimSpace := by
      rw [List.map_map]
      exact List.map_congr_left htrim
    have hkept : (shown.map trimSpace).filter (· ≠ "") = shown.map trimSpace := by
      refine List.filter_eq_self.mpr fun m hm => ?_
      obtain ⟨f, hf⟩ := exists_written (hsound m hm)
      simpa using ne_empty_of_written hf
    rw [lines_dataMatches fun m hm => (hshown m hm).1.plain.line, List.map_append, hmap,
      List.filter_append, hkept]
    exact List.append_nil _
  have hempty : Inv ⟨[], [], "", none⟩ := ⟨rfl, List.nodup_nil, by simp, legible_empty⟩
  obtain ⟨hinv, hasked⟩ := seed_spec hempty hsound
  unfold initMatcher
  rw [hseeds]
  refine ⟨hinv, hasked.trans (Asked.ext ?_ rfl)⟩
  ext f
  simp [asked, written_trimSpace]

theorem matchesText_iff_meets {rt : Runtime} {agent : Agent} (hf : written m = some f) :
    MatchesText rt agent m ↔ Meets rt agent (.ofList f.1) f.2.2 f.2.1 := by
  obtain ⟨⟨key, op, value⟩, hsplit, rfl⟩ := Option.map_eq_some_iff.mp hf
  rw [matchesText_iff]
  constructor
  · rintro ⟨key', op', value', hfirst, hmeets⟩
    rw [← split_eq_some_iff_reading, hsplit] at hfirst
    obtain ⟨rfl, rfl, rfl⟩ := Prod.mk.inj (Option.some.inj hfirst) |>.imp id Prod.mk.inj
    exact hmeets
  · intro hmeets
    exact ⟨key, op, value, split_eq_some_iff_reading.mp hsplit, hmeets⟩

/-- The server reads the hidden fields as the filters held. -/
theorem sent_iff (hb : Inv b) (rt : Runtime) (agent : Agent) :
    (∀ m ∈ b.hidden, MatchesText rt agent m) ↔
      ∀ f ∈ (asked b).held, Meets rt agent (.ofList f.1) f.2.2 f.2.1 := by
  rw [hb.synced]
  constructor
  · rintro h f ⟨m, hm, hf⟩
    exact (matchesText_iff_meets hf).mp (h m hm)
  · intro h m hm
    obtain ⟨f, hf⟩ := exists_written (hb.sound m hm)
    exact (matchesText_iff_meets hf).mpr (h f ⟨m, hm, hf⟩)

/-- The bar refines the set of filters: it starts with those shown, every step of every run does to
them what its deed says, a chip that is edited or removed leaves the form, and at any time the form
would send exactly those held. -/
theorem bar_refines (shown : List String) (acts : List Act)
    (hshown : ∀ m ∈ shown, Legible m.toList ∧ (written m).isSome)
    (hfair : Along step (fun b a => Fair (deed b a)) (initMatcher (dataMatches shown)) acts) :
    asked (initMatcher (dataMatches shown)) = ⟨{f | ∃ m ∈ shown, written m = some f}, none⟩ ∧
    (∀ before a after b b', acts = before ++ a :: after →
      run step (initMatcher (dataMatches shown)) before = some b → step b a = some b' →
      Effect (asked b) (asked b') (deed b a) ∧
        ∀ m, a = .edit m ∨ a = .remove m → m ∉ b'.hidden) ∧
    ∀ b, run step (initMatcher (dataMatches shown)) acts = some b → b.hidden.Nodup ∧
      ∀ rt agent, (∀ m ∈ b.hidden, MatchesText rt agent m) ↔
        ∀ f ∈ (asked b).held, Meets rt agent (.ofList f.1) f.2.2 f.2.1 := by
  obtain ⟨hinit, hasked⟩ := init_spec hshown
  have hkeep : ∀ b a b', Inv b → Fair (deed b a) → step b a = some b' → Inv b' :=
    fun b a b' hb hdeed hstep => (does_step hb hdeed hstep).1
  refine ⟨hasked, ?_, ?_⟩
  · rintro before a after b b' rfl hrun hstep
    obtain ⟨halong, hdeed⟩ := along_append_cons hfair hrun
    have hb := run_keeps Inv hkeep hinit halong hrun
    exact ⟨(does_step hb hdeed hstep).2, fun m ha => notMem_hidden_step hb hstep ha⟩
  · intro b hrun
    have hb := run_keeps Inv hkeep hinit hfair hrun
    exact ⟨hb.synced ▸ hb.nodup, sent_iff hb⟩

/-- A second filter is typed beside the one shown, the chip of that one is edited, and the
chip of the second one is removed. -/
theorem bar_refines_edited : ∃ b b' b'',
    run step (initMatcher (dataMatches ["env = prod"])) [.type "region != eu "] = some b ∧
    step b (.edit "env = prod") = some b' ∧ step b' (.remove "region != eu") = some b'' ∧
    b'.input = "env = prod" ∧ b'.hidden = ["region != eu"] ∧ (asked b').all = (asked b).all ∧
    "region != eu" ∉ b''.hidden ∧ (asked b'').typed = (asked b').typed ∧
    (∀ rt agent, (∀ m ∈ b''.hidden, MatchesText rt agent m) ↔
      ∀ f ∈ (asked b'').held, Meets rt agent (.ofList f.1) f.2.2 f.2.1) := by
  obtain ⟨b, hrun, hnext⟩ : ∃ b, run step (initMatcher (dataMatches ["env = prod"]))
      [.type "region != eu "] = some b ∧ (step b (.edit "env = prod")).any (fun b' =>
        decide (b'.input = "env = prod" ∧ b'.hidden = ["region != eu"] ∧
          (step b' (.remove "region != eu")).isSome)) = true :=
    exists_run_of_any (by decide +kernel)
  obtain ⟨b', hstep, hend⟩ := (Option.any_eq_true _ _).mp hnext
  obtain ⟨hinput, hhidden, hsome⟩ := of_decide_eq_true hend
  obtain ⟨b'', hstep'⟩ := Option.isSome_iff_exists.mp hsome
  have hrun' := run_append_eq_some.mpr ⟨b, hrun, run_cons_eq_some.mpr ⟨b', hstep, run_nil b'⟩⟩
  have hrun'' :=
    run_append_eq_some.mpr ⟨b', hrun', run_cons_eq_some.mpr ⟨b'', hstep', run_nil b''⟩⟩
  obtain ⟨-, heffect, hsent⟩ := bar_refines ["env = prod"]
    [.type "region != eu ", .edit "env = prod", .remove "region != eu"] (by decide +kernel)
    (by decide +kernel)
  obtain ⟨⟨f, -, -, -, hall⟩, -⟩ := heffect [_] (.edit "env = prod") [_] b b' rfl hrun hstep
  obtain ⟨⟨g, -, -, htyped, -⟩, hgone⟩ :=
    heffect ([_] ++ [_]) (.remove "region != eu") [] b' b'' rfl hrun' hstep'
  exact ⟨b, b', b'', hrun, hstep, hstep', hinput, hhidden, hall, hgone _ (Or.inr rfl), htyped,
    (hsent b'' hrun'').2⟩

end Grex.FilterBar
