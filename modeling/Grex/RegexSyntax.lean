import Grex.Regex

/-!
The text of a regular expression, read one character at a time. A character
changes the mode of the reader and acts on the stack of open groups; since an
action only sees the groups opened before it, a pattern reads inside a group as
it does alone. The reader covers literals, escapes, quoted runs, anchors,
groups, alternation and repetition; classes, counts and flags are refused.
-/

namespace Grex.RegexSyntax

open Regex

inductive Repeat
  | star
  | plus
  | quest
  deriving DecidableEq

def Repeat.node (r : Node) : Repeat → Node
  | star => .star true r
  | plus => .cat r (.star true r)
  | quest => .alt r .empty

/-- The repetition that prefers fewer rounds. -/
def reluctant : Node → Node
  | .star _ r => .star false r
  | .cat r (.star _ r') => .cat r (.star false r')
  | .alt r .empty => .alt .empty r
  | r => r

/-- What a character does to the groups under construction. -/
inductive Action
  | atom (r : Node)
  | repeatLast (k : Repeat)
  | reluctantLast
  | alternate
  | openGroup (captures : Bool)
  | closeGroup

inductive Mode
  | plain
  /-- After a repetition operator, which a question mark may follow. -/
  | repeated (reluctant : Bool)
  | escaped
  /-- Inside a quoted run, which `\E` or the end of the pattern closes. -/
  | quoted
  | quotedEscape
  | opened
  | openedMark
  deriving DecidableEq

def literal (c : Char) : Action := .atom (.chr (.single c))

def lexPlain (c : Char) : Option (Mode × List Action) :=
  match c with
  | '\\' => some (.escaped, [])
  | '^' => some (.plain, [.atom (.look .beginText)])
  | '$' => some (.plain, [.atom (.look .endText)])
  | '.' => some (.plain, [.atom (.chr .dot)])
  | '|' => some (.plain, [.alternate])
  | '(' => some (.opened, [])
  | ')' => some (.plain, [.closeGroup])
  | '*' => some (.repeated false, [.repeatLast .star])
  | '+' => some (.repeated false, [.repeatLast .plus])
  | '?' => some (.repeated false, [.repeatLast .quest])
  | '[' => none
  | '{' => none
  | c => some (.plain, [literal c])

/-- Escaped letters have a meaning of their own or none; other ASCII characters
stand for themselves. -/
def lexEscape (c : Char) : Option (Mode × List Action) :=
  match c with
  | 'A' => some (.plain, [.atom (.look .beginText)])
  | 'z' => some (.plain, [.atom (.look .endText)])
  | 'b' => some (.plain, [.atom (.look .wordBoundary)])
  | 'B' => some (.plain, [.atom (.look .noWordBoundary)])
  | 'd' => some (.plain, [.atom (.chr .digit)])
  | 'D' => some (.plain, [.atom (.chr CharSet.digit.compl)])
  | 's' => some (.plain, [.atom (.chr .space)])
  | 'S' => some (.plain, [.atom (.chr CharSet.space.compl)])
  | 'w' => some (.plain, [.atom (.chr .word)])
  | 'W' => some (.plain, [.atom (.chr CharSet.word.compl)])
  | 'Q' => some (.quoted, [])
  | 'a' => some (.plain, [literal '\x07'])
  | 'f' => some (.plain, [literal '\x0c'])
  | 'n' => some (.plain, [literal '\n'])
  | 'r' => some (.plain, [literal '\r'])
  | 't' => some (.plain, [literal '\t'])
  | 'v' => some (.plain, [literal '\x0b'])
  | c => if c.toNat < 128 ∧ ¬ c.isAlphanum then some (.plain, [literal c]) else none

def lex (m : Mode) (c : Char) : Option (Mode × List Action) :=
  match m with
  | .plain => lexPlain c
  | .repeated reluctant =>
      match c with
      | '?' => if reluctant then none else some (.repeated true, [.reluctantLast])
      | '*' => none
      | '+' => none
      | c => lexPlain c
  | .escaped => lexEscape c
  | .quoted =>
      match c with
      | '\\' => some (.quotedEscape, [])
      | c => some (.quoted, [literal c])
  | .quotedEscape =>
      match c with
      | 'E' => some (.plain, [])
      | '\\' => some (.quotedEscape, [literal '\\'])
      | c => some (.quoted, [literal '\\', literal c])
  | .opened =>
      match c with
      | '?' => some (.openedMark, [])
      | c => (lexPlain c).map fun next => (next.1, .openGroup true :: next.2)
  | .openedMark =>
      match c with
      | ':' => some (.plain, [.openGroup false])
      | _ => none

def catAll : List Node → Node
  | [] => .empty
  | [r] => r
  | r :: rs => .cat r (catAll rs)

def altAll : List Node → Node
  | [] => .empty
  | [r] => r
  | r :: rs => .alt r (altAll rs)

/-- An open group: its number if it captures, the alternatives it has so far and
the items of the last one, both newest first. -/
structure Frame where
  capture : Option ℕ
  done : List Node
  items : List Node
  deriving DecidableEq

namespace Frame

def new (capture : Option ℕ) : Frame := ⟨capture, [], []⟩

def add (f : Frame) (r : Node) : Frame := { f with items := r :: f.items }

def body (f : Frame) : Node := altAll (catAll f.items.reverse :: f.done).reverse

/-- The group as one item. -/
def node (f : Frame) : Node :=
  match f.capture with
  | none => f.body
  | some i => .group i f.body

end Frame

/-- The number of groups so far, and the open ones, the innermost first. -/
structure Stack where
  count : ℕ
  frames : List Frame
  deriving DecidableEq

def act : Action → Stack → Option Stack
  | .atom r, ⟨n, f :: fs⟩ => some ⟨n, f.add r :: fs⟩
  | .repeatLast k, ⟨n, f :: fs⟩ =>
      match f.items with
      | [] => none
      | r :: rs => some ⟨n, { f with items := k.node r :: rs } :: fs⟩
  | .reluctantLast, ⟨n, f :: fs⟩ =>
      match f.items with
      | [] => none
      | r :: rs => some ⟨n, { f with items := reluctant r :: rs } :: fs⟩
  | .alternate, ⟨n, f :: fs⟩ =>
      some ⟨n, { f with done := catAll f.items.reverse :: f.done, items := [] } :: fs⟩
  | .openGroup true, ⟨n, f :: fs⟩ => some ⟨n + 1, .new (some (n + 1)) :: f :: fs⟩
  | .openGroup false, ⟨n, f :: fs⟩ => some ⟨n, .new none :: f :: fs⟩
  | .closeGroup, ⟨n, f :: g :: fs⟩ => some ⟨n, g.add f.node :: fs⟩
  | _, _ => none

def actAll : List Action → Stack → Option Stack
  | [], st => some st
  | a :: as, st => (act a st).bind (actAll as)

def run : List Char → Mode × Stack → Option (Mode × Stack)
  | [], now => some now
  | c :: cs, now =>
      (lex now.1 c).bind fun next => (actAll next.2 now.2).bind fun st => run cs (next.1, st)

/-- A pattern ends outside escapes and with every group closed. -/
def finish (now : Mode × Stack) : Option Node :=
  let closed : Option Stack :=
    match now.1 with
    | .plain => some now.2
    | .repeated _ => some now.2
    | .quoted => some now.2
    | .quotedEscape => act (literal '\\') now.2
    | .escaped => none
    | .opened => none
    | .openedMark => none
  closed.bind fun st =>
    match st.frames with
    | [f] => some f.node
    | _ => none

def fresh : Mode × Stack := (.plain, ⟨0, [.new none]⟩)

def parse (pattern : List Char) : Option Node := (run pattern fresh).bind finish

theorem run_append (cs ds : List Char) (now : Mode × Stack) :
    run (cs ++ ds) now = (run cs now).bind (run ds) := by
  induction cs generalizing now with
  | nil => rfl
  | cons c cs ih =>
    simp only [List.cons_append, run, Option.bind_assoc]
    simp only [ih]

/-! ### Reading inside a group -/

/-- What an action does, it does over any open groups further out. -/
theorem act_over {a : Action} {st st' : Stack} (h : act a st = some st') (gs : List Frame) :
    act a ⟨st.count, st.frames ++ gs⟩ = some ⟨st'.count, st'.frames ++ gs⟩ := by
  obtain ⟨n, fs⟩ := st
  cases fs with
  | nil => cases a <;> simp [act] at h
  | cons f fs =>
    cases a with
    | atom r => cases h; rfl
    | repeatLast k =>
      simp only [act] at h
      split at h
      next => cases h
      next r rs hitems =>
        cases h
        simp [act, hitems]
    | reluctantLast =>
      simp only [act] at h
      split at h
      next => cases h
      next r rs hitems =>
        cases h
        simp [act, hitems]
    | alternate => cases h; rfl
    | openGroup captures =>
      cases captures
      · cases h; rfl
      · cases h; rfl
    | closeGroup =>
      cases fs with
      | nil => simp [act] at h
      | cons g fs => cases h; rfl

theorem actAll_over {as : List Action} {st st' : Stack} (h : actAll as st = some st')
    (gs : List Frame) :
    actAll as ⟨st.count, st.frames ++ gs⟩ = some ⟨st'.count, st'.frames ++ gs⟩ := by
  induction as generalizing st with
  | nil => cases h; rfl
  | cons a as ih =>
    obtain ⟨mid, hmid, hrest⟩ := Option.bind_eq_some_iff.mp h
    rw [actAll, act_over hmid gs]
    exact ih hrest

theorem run_over {cs : List Char} {m m' : Mode} {st st' : Stack}
    (h : run cs (m, st) = some (m', st')) (gs : List Frame) :
    run cs (m, ⟨st.count, st.frames ++ gs⟩) = some (m', ⟨st'.count, st'.frames ++ gs⟩) := by
  induction cs generalizing m st with
  | nil => cases h; rfl
  | cons c cs ih =>
    obtain ⟨next, hnext, hacts⟩ := Option.bind_eq_some_iff.mp h
    obtain ⟨mid, hmid, hrest⟩ := Option.bind_eq_some_iff.mp hacts
    simp only [run, hnext, Option.bind_some, actAll_over hmid gs]
    exact ih hrest

/-- A pattern ends outside escapes, or in a quoted run that nothing closes. -/
inductive Ended (r : Node) : Mode → Frame → Prop
  | plain {f : Frame} (hnode : f.node = r) : Ended r .plain f
  | repeated {f : Frame} (b : Bool) (hnode : f.node = r) : Ended r (.repeated b) f
  | quoted (f : Frame) : Ended r .quoted f
  | quotedEscape (f : Frame) : Ended r .quotedEscape f

theorem run_of_parse {p : List Char} {r : Node} (h : parse p = some r) :
    ∃ m n f, run p fresh = some (m, ⟨n, [f]⟩) ∧ Ended r m f := by
  obtain ⟨⟨m, n, fs⟩, hrun, hfinish⟩ := Option.bind_eq_some_iff.mp h
  obtain ⟨⟨k, gs⟩, hclosed, hnode⟩ := Option.bind_eq_some_iff.mp hfinish
  simp only at hclosed hnode
  split at hnode
  next f =>
    have hplain : some (⟨n, fs⟩ : Stack) = some ⟨k, [f]⟩ → fs = [f] ∧ f.node = r := by
      intro hsame
      cases hsame
      exact ⟨rfl, Option.some.inj hnode⟩
    cases m with
    | plain =>
      obtain ⟨rfl, hf⟩ := hplain hclosed
      exact ⟨_, n, f, hrun, .plain hf⟩
    | repeated b =>
      obtain ⟨rfl, hf⟩ := hplain hclosed
      exact ⟨_, n, f, hrun, .repeated b hf⟩
    | quoted =>
      obtain ⟨rfl, -⟩ := hplain hclosed
      exact ⟨_, n, f, hrun, .quoted f⟩
    | quotedEscape =>
      cases fs with
      | nil => cases hclosed
      | cons g fs =>
        cases hclosed
        exact ⟨_, n, g, hrun, .quotedEscape g⟩
    | escaped => cases hclosed
    | opened => cases hclosed
    | openedMark => cases hclosed
  next => cases hnode

/-- What may stand after the group in an anchored pattern. -/
inductive Trailer : List Char → Prop
  | none : Trailer []
  | anchor : Trailer ['$']

/-- A pattern read inside a group becomes one item of the group around it. -/
theorem parse_group {p pre post : List Char} {r r' : Node} {g : Frame} (hp : parse p = some r)
    (hpre : run pre fresh = some (.plain, ⟨0, [.new none, g]⟩)) (hpost : Trailer post)
    (h : parse (pre ++ (p ++ ')' :: post)) = some r') :
    ∃ n, (run post (.plain, ⟨n, [g.add r]⟩)).bind finish = some r' := by
  obtain ⟨m, n, f, hrun, hended⟩ := run_of_parse hp
  have hinside : run p (.plain, ⟨0, [.new none, g]⟩) = some (m, ⟨n, [f, g]⟩) := run_over hrun [g]
  unfold parse at h
  rw [run_append, hpre, Option.bind_some, run_append, hinside, Option.bind_some] at h
  refine ⟨n, ?_⟩
  cases hended with
  | plain hnode =>
    rw [← hnode]
    exact h
  | repeated b hnode =>
    rw [← hnode]
    exact h
  | quoted => cases hpost <;> cases h
  | quotedEscape => cases hpost <;> cases h

/-! ### Anchored patterns -/

def anchored (p : List Char) : List Char := ['^', '(', '?', ':'] ++ (p ++ [')', '$'])

def anchoredStart (p : List Char) : List Char := ['^', '(', '?', ':'] ++ (p ++ [')'])

def anchoredEnd (p : List Char) : List Char := ['(', '?', ':'] ++ (p ++ [')', '$'])

theorem reads_beginText_cat (r : Node) (c d : Cursor) :
    Reads (.cat (.look .beginText) r) c d ↔ c.before = [] ∧ Reads r c d := by
  simp only [Reads, Look.holds, Option.isNone_iff_eq_none, List.head?_eq_none_iff]
  constructor
  · rintro ⟨m, ⟨rfl, hbefore⟩, hread⟩
    exact ⟨hbefore, hread⟩
  · rintro ⟨hbefore, hread⟩
    exact ⟨c, ⟨rfl, hbefore⟩, hread⟩

theorem reads_cat_endText (r : Node) (c d : Cursor) :
    Reads (.cat r (.look .endText)) c d ↔ Reads r c d ∧ d.rest = [] := by
  simp only [Reads, Look.holds, Option.isNone_iff_eq_none, List.head?_eq_none_iff]
  constructor
  · rintro ⟨m, hread, rfl, hrest⟩
    exact ⟨hread, hrest⟩
  · rintro ⟨hread, hrest⟩
    exact ⟨d, hread, rfl, hrest⟩

/-- What RE2 makes of the empty pattern, and of a group with anchors around it for
patterns that compile alone and in the group. -/
structure Standard (compile : List Char → Option Node) : Prop where
  empty : ∀ r, compile [] = some r → ∀ c d, Reads r c d ↔ c = d
  blank : ∃ r, compile ['^', '$'] = some r ∧
    ∀ c d, Reads r c d ↔ c = d ∧ c.before = [] ∧ c.rest = []
  whole : ∀ p r r', compile p = some r → compile (anchored p) = some r' →
    ∀ c d, Reads r' c d ↔ c.before = [] ∧ Reads r c d ∧ d.rest = []
  fromStart : ∀ p r r', compile p = some r → compile (anchoredStart p) = some r' →
    ∀ c d, Reads r' c d ↔ c.before = [] ∧ Reads r c d
  toEnd : ∀ p r r', compile p = some r → compile (anchoredEnd p) = some r' →
    ∀ c d, Reads r' c d ↔ Reads r c d ∧ d.rest = []

theorem standard_parse : Standard parse where
  empty r hr c d := by
    obtain rfl : Node.empty = r := Option.some.inj hr
    exact Iff.rfl
  blank := by
    refine ⟨.cat (.look .beginText) (.look .endText), rfl, fun c d => ?_⟩
    rw [reads_beginText_cat]
    simp only [Reads, Look.holds, Option.isNone_iff_eq_none, List.head?_eq_none_iff]
    exact and_left_comm
  whole p r r' hp h c d := by
    obtain ⟨n, hn⟩ := parse_group hp rfl .anchor h
    obtain rfl : Node.cat (.look .beginText) (.cat r (.look .endText)) = r' := Option.some.inj hn
    rw [reads_beginText_cat, reads_cat_endText]
  fromStart p r r' hp h c d := by
    obtain ⟨n, hn⟩ := parse_group hp rfl .none h
    obtain rfl : Node.cat (.look .beginText) r = r' := Option.some.inj hn
    exact reads_beginText_cat r c d
  toEnd p r r' hp h c d := by
    obtain ⟨n, hn⟩ := parse_group hp rfl .anchor h
    obtain rfl : Node.cat r (.look .endText) = r' := Option.some.inj hn
    exact reads_cat_endText r c d

end Grex.RegexSyntax
