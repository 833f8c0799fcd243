import Mathlib.Data.List.Basic

/-!
URLs and their parser, on bytes. A text is cut at its first `#` and `?`, at the colon
after its scheme, at the slashes around its authority and at the last `@` of that; user
info, host, path and fragment are stored with their percent encoding undone. Which user
infos and hosts are admitted as written, and how a component is encoded by default, are
given: the components of a URL do not depend on the first, and only the hints on how it
was written on the second.
-/

namespace Grex.GoURL

abbrev Bytes := List UInt8

/-- The bytes of an ASCII text. -/
def ascii (s : String) : Bytes := s.toList.map Char.toUInt8

def slash : UInt8 := 0x2F

def colon : UInt8 := 0x3A

def question : UInt8 := 0x3F

def hashSign : UInt8 := 0x23

def atSign : UInt8 := 0x40

def percent : UInt8 := 0x25

/-! ### Cutting -/

/-- The text before the first separator, and the text after it. -/
def cut (sep : UInt8) : Bytes → Bytes × Option Bytes
  | [] => ([], none)
  | b :: s => if b = sep then ([], some s) else (b :: (cut sep s).1, (cut sep s).2)

/-- The text before the last separator, and the text after it. -/
def cutLast (sep : UInt8) (s : Bytes) : Option Bytes × Bytes :=
  ((cut sep s.reverse).2.map List.reverse, (cut sep s.reverse).1.reverse)

/-- The text from the separator on. -/
def fromSep (sep : UInt8) : Option Bytes → Bytes
  | none => []
  | some s => sep :: s

/-- The text up to the separator. -/
def upToSep (sep : UInt8) : Option Bytes → Bytes
  | none => []
  | some s => s ++ [sep]

theorem cut_text (sep : UInt8) (s : Bytes) : (cut sep s).1 ++ fromSep sep (cut sep s).2 = s := by
  induction s with
  | nil => rfl
  | cons b s ih =>
    unfold cut
    split_ifs with hb
    · rw [hb]
      rfl
    · rw [List.cons_append, ih]

theorem notMem_cut (sep : UInt8) (s : Bytes) : sep ∉ (cut sep s).1 := by
  induction s with
  | nil => exact List.not_mem_nil
  | cons b s ih =>
    unfold cut
    split_ifs with hb
    · exact List.not_mem_nil
    · rw [List.mem_cons, not_or]
      exact ⟨fun h => hb h.symm, ih⟩

/-- A text is cut where it was joined. -/
theorem cut_fromSep {sep : UInt8} {s : Bytes} (hs : sep ∉ s) (rest : Option Bytes) :
    cut sep (s ++ fromSep sep rest) = (s, rest) := by
  induction s with
  | nil => cases rest <;> simp [fromSep, cut]
  | cons b s ih =>
    rw [List.mem_cons, not_or] at hs
    rw [List.cons_append, cut, if_neg fun hb => hs.1 hb.symm, ih hs.2]

theorem cutLast_text (sep : UInt8) (s : Bytes) :
    upToSep sep (cutLast sep s).1 ++ (cutLast sep s).2 = s := by
  have htext := congrArg List.reverse (cut_text sep s.reverse)
  rw [List.reverse_append, List.reverse_reverse] at htext
  have hbefore : upToSep sep (cutLast sep s).1 =
      (fromSep sep (cut sep s.reverse).2).reverse := by
    unfold cutLast
    cases (cut sep s.reverse).2 with
    | none => rfl
    | some rest => simp [upToSep, fromSep]
  rw [hbefore]
  exact htext

theorem notMem_cutLast (sep : UInt8) (s : Bytes) : sep ∉ (cutLast sep s).2 := by
  unfold cutLast
  rw [List.mem_reverse]
  exact notMem_cut sep s.reverse

/-! ### Percent encoding -/

def unhex (c : UInt8) : Option UInt8 :=
  if 0x30 ≤ c ∧ c ≤ 0x39 then some (c - 0x30)
  else if 0x61 ≤ c ∧ c ≤ 0x66 then some (c - 0x61 + 10)
  else if 0x41 ≤ c ∧ c ≤ 0x46 then some (c - 0x41 + 10)
  else none

/-- Undo the percent encoding; a percent sign without two digits is an error. -/
def unescape : Bytes → Option Bytes
  | [] => some []
  | b :: s =>
      if b = percent then
        match s with
        | hi :: lo :: s => do
            let hi ← unhex hi
            let lo ← unhex lo
            let rest ← unescape s
            return (hi <<< 4 ||| lo) :: rest
        | _ => none
      else (unescape s).map fun rest => b :: rest

theorem unescape_cons_of_ne {b : UInt8} (hb : b ≠ percent) (s : Bytes) :
    unescape (b :: s) = (unescape s).map fun rest => b :: rest := by
  conv_lhs => unfold unescape
  rw [if_neg hb]

theorem unescape_of_notMem {s : Bytes} (h : percent ∉ s) : unescape s = some s := by
  induction s with
  | nil => rfl
  | cons b s ih =>
    rw [List.mem_cons, not_or] at h
    rw [unescape_cons_of_ne (fun hb => h.1 hb.symm), ih h.2]
    rfl

/-- An encoded text is longer than the text it stands for. -/
theorem unescape_eq_some {s d : Bytes} (h : unescape s = some d) :
    (percent ∉ s ∧ d = s) ∨ d.length < s.length := by
  induction s using unescape.induct generalizing d with
  | case1 =>
    obtain rfl := Option.some.inj h
    exact Or.inl ⟨List.not_mem_nil, rfl⟩
  | case2 hi lo s ih =>
    rw [unescape, if_pos rfl] at h
    simp only [Option.bind_eq_bind, Option.bind_eq_some_iff] at h
    obtain ⟨x, -, y, -, rest, hrest, hd⟩ := h
    obtain rfl := Option.some.inj hd
    right
    simp only [List.length_cons]
    rcases ih hrest with ⟨-, rfl⟩ | hlt <;> omega
  | case3 s hs =>
    unfold unescape at h
    rw [if_pos rfl] at h
    split at h
    · exact absurd rfl (hs _ _ _)
    · cases h
  | case4 b s hb ih =>
    rw [unescape_cons_of_ne hb] at h
    obtain ⟨rest, hrest, rfl⟩ := Option.map_eq_some_iff.mp h
    rcases ih hrest with ⟨hmem, rfl⟩ | hlt
    · left
      rw [List.mem_cons, not_or]
      exact ⟨⟨fun hp => hb hp.symm, hmem⟩, rfl⟩
    · right
      simp only [List.length_cons]
      omega

theorem length_unescape_le {s d : Bytes} (h : unescape s = some d) : d.length ≤ s.length := by
  rcases unescape_eq_some h with ⟨-, rfl⟩ | hlt
  · exact Nat.le_refl _
  · exact Nat.le_of_lt hlt

/-! ### The parser -/

structure Userinfo where
  username : Bytes
  password : Option Bytes
  deriving DecidableEq

/-- The components of a URL. Of one that does not start with a slash after its scheme,
`rootless` is the rest as written; `rawPath` and `rawFragment` are set where the text is
not the default encoding. -/
structure URL where
  scheme : Bytes := []
  rootless : Bytes := []
  user : Option Userinfo := none
  host : Bytes := []
  path : Bytes := []
  rawPath : Bytes := []
  omitHost : Bool := false
  forceQuery : Bool := false
  rawQuery : Bytes := []
  fragment : Bytes := []
  rawFragment : Bytes := []
  deriving DecidableEq

/-- Which user infos and hosts are admitted as written, and the default encodings. -/
structure Rules where
  admitsUserinfo : Bytes → Bool
  admitsHost : Bytes → Bool
  escapePath : Bytes → Bytes
  escapeFragment : Bytes → Bytes

def isLetter (c : UInt8) : Bool := (0x61 ≤ c && c ≤ 0x7A) || (0x41 ≤ c && c ≤ 0x5A)

/-- Letters, digits, plus, minus and dot. -/
def isSchemeByte (c : UInt8) : Bool :=
  isLetter c || (0x30 ≤ c && c ≤ 0x39) || c == 0x2B || c == 0x2D || c == 0x2E

def isControl (c : UInt8) : Bool := c < 0x20 || c == 0x7F

def toLower (c : UInt8) : UInt8 := if 0x41 ≤ c ∧ c ≤ 0x5A then c + 0x20 else c

/-- The scheme and the rest. Without a colon after a name that starts with a letter there
is no scheme; a colon without a name is an error. -/
def getScheme (raw : Bytes) : Option (Bytes × Bytes) :=
  match cut colon raw with
  | ([], some _) => none
  | (c :: name, some rest) =>
      if isLetter c && name.all isSchemeByte then some (c :: name, rest) else some ([], raw)
  | (_, none) => some ([], raw)

/-- The text before the query, whether a question mark ends it, and the query. -/
def cutQuery (rest : Bytes) : Bytes × Bool × Bytes :=
  match cut question rest with
  | (s, none) => (s, false, [])
  | (s, some []) => (s, true, [])
  | (s, some query) => (s, false, query)

def parseUserinfo (rules : Rules) (text : Bytes) : Option Userinfo :=
  if !rules.admitsUserinfo text then none
  else
    match cut colon text with
    | (username, none) => (unescape username).map fun username => ⟨username, none⟩
    | (username, some password) => do
        let username ← unescape username
        let password ← unescape password
        return ⟨username, some password⟩

def parseHost (rules : Rules) (text : Bytes) : Option Bytes :=
  if !rules.admitsHost text then none else unescape text

def parseAuthority (rules : Rules) (authority : Bytes) : Option (Option Userinfo × Bytes) := do
  let (userinfo, hostText) := cutLast atSign authority
  let host ← parseHost rules hostText
  match userinfo with
  | none => return (none, host)
  | some text => return (some (← parseUserinfo rules text), host)

def setPath (rules : Rules) (u : URL) (text : Bytes) : Option URL :=
  (unescape text).map fun path =>
    { u with
      path := path
      rawPath := if rules.escapePath path = text then [] else text }

def setFragment (rules : Rules) (u : URL) (text : Bytes) : Option URL :=
  (unescape text).map fun fragment =>
    { u with
      fragment := fragment
      rawFragment := if rules.escapeFragment fragment = text then [] else text }

/-- The authority and the path, from the text between the scheme and the query. -/
def parseRest (rules : Rules) (u : URL) (rest : Bytes) : Option URL :=
  match rest with
  | 0x2F :: 0x2F :: tail =>
      if u.scheme = [] ∧ tail.head? = some slash then setPath rules u rest
      else do
        let (user, host) ← parseAuthority rules (cut slash tail).1
        setPath rules { u with user := user, host := host } (fromSep slash (cut slash tail).2)
  | 0x2F :: _ => setPath rules { u with omitHost := decide (u.scheme ≠ []) } rest
  | _ =>
      if u.scheme ≠ [] then some { u with rootless := rest }
      else if colon ∈ (cut slash rest).1 then none
      else setPath rules u rest

/-- A URL without its fragment. -/
def parseReference (rules : Rules) (raw : Bytes) : Option URL :=
  if raw.any isControl then none
  else if raw = ascii "*" then some { path := raw }
  else do
    let (scheme, rest) ← getScheme raw
    let (rest, forceQuery, rawQuery) := cutQuery rest
    parseRest rules
      { scheme := scheme.map toLower, forceQuery := forceQuery, rawQuery := rawQuery } rest

def parse (rules : Rules) (raw : Bytes) : Option URL := do
  let (text, fragment) := cut hashSign raw
  let u ← parseReference rules text
  match fragment with
  | none => return u
  | some [] => return u
  | some fragment => setFragment rules u fragment

/-! ### How a URL was written -/

/-- The parts of a text with a scheme and an authority, as written. -/
structure Written where
  name : Bytes
  user : Option Bytes
  host : Bytes
  path : Option Bytes
  query : Option Bytes
  fragment : Option Bytes

namespace Written

def authority (w : Written) : Bytes := upToSep atSign w.user ++ w.host

def text (w : Written) : Bytes :=
  w.name ++ [colon, slash, slash] ++ w.authority ++ fromSep slash w.path ++
    fromSep question w.query ++ fromSep hashSign w.fragment

theorem text_fragment (w : Written) (hnone : w.fragment = none) (fragment : Option Bytes) :
    text { w with fragment := fragment } = w.text ++ fromSep hashSign fragment := by
  unfold text
  rw [hnone]
  exact (congrArg (· ++ _) (List.append_nil _)).symm

/-- The parts do not hold the separators they were cut at. -/
structure Separated (w : Written) : Prop where
  name : colon ∉ w.name
  authority : slash ∉ w.authority
  host : atSign ∉ w.host
  noQuery : question ∉ w.authority ++ fromSep slash w.path
  noFragment : hashSign ∉ w.authority ++ fromSep slash w.path

/-- The URL has the components that are written. -/
structure Of (w : Written) (u : URL) : Prop where
  scheme : w.name.map toLower = u.scheme
  host : unescape w.host = some u.host
  path : unescape (fromSep slash w.path) = some u.path

end Written

theorem getScheme_eq_some {raw scheme rest : Bytes} (h : getScheme raw = some (scheme, rest))
    (hscheme : scheme ≠ []) : raw = scheme ++ colon :: rest ∧ colon ∉ scheme := by
  have htext := cut_text colon raw
  have hcolon := notMem_cut colon raw
  unfold getScheme at h
  split at h
  · cases h
  · rename_i c name rest' hcut
    rw [hcut] at htext hcolon
    split_ifs at h with hname
    · obtain ⟨rfl, rfl⟩ := Prod.mk.inj (Option.some.inj h)
      exact ⟨htext.symm, hcolon⟩
    · obtain ⟨rfl, rfl⟩ := Prod.mk.inj (Option.some.inj h)
      exact absurd rfl hscheme
  · obtain ⟨rfl, rfl⟩ := Prod.mk.inj (Option.some.inj h)
    exact absurd rfl hscheme

/-- The text before the query has no question mark. -/
theorem cutQuery_text (rest : Bytes) : ∃ query,
    rest = (cutQuery rest).1 ++ fromSep question query ∧ question ∉ (cutQuery rest).1 := by
  have htext := cut_text question rest
  have hquestion := notMem_cut question rest
  refine ⟨(cut question rest).2, ?_⟩
  have hbefore : (cutQuery rest).1 = (cut question rest).1 := by
    unfold cutQuery
    split <;> (rename_i hcut; rw [hcut])
  rw [hbefore]
  exact ⟨htext.symm, hquestion⟩

theorem parseAuthority_eq_some {rules : Rules} {authority host : Bytes} {user : Option Userinfo}
    (h : parseAuthority rules authority = some (user, host)) :
    unescape (cutLast atSign authority).2 = some host := by
  simp only [parseAuthority, Option.bind_eq_bind, Option.bind_eq_some_iff] at h
  obtain ⟨decoded, hdecoded, h⟩ := h
  have hhost : decoded = host := by
    split at h
    · exact (Prod.mk.inj (Option.some.inj h)).2
    · obtain ⟨userinfo, -, h⟩ := Option.bind_eq_some_iff.mp h
      exact (Prod.mk.inj (Option.some.inj h)).2
  subst hhost
  unfold parseHost at hdecoded
  split_ifs at hdecoded
  exact hdecoded

theorem setPath_eq_some {rules : Rules} {u u' : URL} {text : Bytes}
    (h : setPath rules u text = some u') :
    unescape text = some u'.path ∧ u'.host = u.host ∧ u'.scheme = u.scheme := by
  obtain ⟨path, hpath, rfl⟩ := Option.map_eq_some_iff.mp h
  exact ⟨hpath, rfl, rfl⟩

/-- A host comes from an authority after two slashes. -/
theorem parseRest_eq_some {rules : Rules} {u u' : URL} {rest : Bytes}
    (h : parseRest rules u rest = some u') (hu : u.host = []) (hhost : u'.host ≠ []) :
    ∃ tail, rest = slash :: slash :: tail ∧ u'.scheme = u.scheme ∧
      unescape (cutLast atSign (cut slash tail).1).2 = some u'.host ∧
      unescape (fromSep slash (cut slash tail).2) = some u'.path := by
  unfold parseRest at h
  split at h
  · rename_i tail
    split_ifs at h with hthree
    · exact absurd ((setPath_eq_some h).2.1.trans hu) hhost
    · simp only [Option.bind_eq_bind, Option.bind_eq_some_iff] at h
      obtain ⟨⟨user, host⟩, hauthority, h⟩ := h
      obtain ⟨hpath, hhost', hscheme⟩ := setPath_eq_some h
      refine ⟨tail, rfl, hscheme, ?_, hpath⟩
      rw [hhost']
      exact parseAuthority_eq_some hauthority
  · exact absurd ((setPath_eq_some h).2.1.trans hu) hhost
  · split_ifs at h with hscheme hcolon
    · obtain rfl := Option.some.inj h
      exact absurd hu hhost
    · exact absurd ((setPath_eq_some h).2.1.trans hu) hhost

theorem parseReference_written {rules : Rules} {raw : Bytes} {u : URL}
    (h : parseReference rules raw = some u) (hscheme : u.scheme ≠ []) (hhost : u.host ≠ [])
    (hhash : hashSign ∉ raw) :
    ∃ w : Written, w.fragment = none ∧ raw = w.text ∧ w.Separated ∧ w.Of u := by
  unfold parseReference at h
  split_ifs at h
  · obtain rfl := Option.some.inj h
    exact absurd rfl hhost
  simp only [Option.bind_eq_bind, Option.bind_eq_some_iff] at h
  obtain ⟨⟨name, rest⟩, hname, h⟩ := h
  obtain ⟨tail, htail, hlower, hu, hpath⟩ := parseRest_eq_some h rfl hhost
  obtain ⟨query, hrest, hquestion⟩ := cutQuery_text rest
  have hne : name ≠ [] := by
    rintro rfl
    exact hscheme hlower
  obtain ⟨hraw, hcolon⟩ := getScheme_eq_some hname hne
  rw [htail] at hrest hquestion
  let w : Written := ⟨name, (cutLast atSign (cut slash tail).1).1,
    (cutLast atSign (cut slash tail).1).2, (cut slash tail).2, query, none⟩
  have hauthority : w.authority = (cut slash tail).1 := cutLast_text atSign (cut slash tail).1
  have hbody : w.authority ++ fromSep slash w.path = tail := by
    rw [hauthority]
    exact cut_text slash tail
  have htext : raw = w.text := by
    unfold Written.text
    rw [List.append_assoc _ w.authority, hbody, hraw, hrest]
    simp [w, fromSep]
  have hslash : slash ∉ w.authority := by
    rw [hauthority]
    exact notMem_cut slash tail
  refine ⟨w, rfl, htext, ⟨hcolon, hslash, notMem_cutLast atSign _, ?_, ?_⟩, hlower.symm, hu, hpath⟩
  · rw [hbody]
    exact fun h => hquestion (List.mem_cons_of_mem _ (List.mem_cons_of_mem _ h))
  · rw [hbody]
    intro h
    apply hhash
    rw [hraw, hrest]
    simp [h]

/-- The fragment changes no other component. -/
theorem parse_eq_some {rules : Rules} {raw : Bytes} {u : URL} (h : parse rules raw = some u) :
    ∃ u₀, parseReference rules (cut hashSign raw).1 = some u₀ ∧ u.scheme = u₀.scheme ∧
      u.host = u₀.host ∧ u.path = u₀.path := by
  simp only [parse, Option.bind_eq_bind, Option.bind_eq_some_iff] at h
  obtain ⟨u₀, hu₀, h⟩ := h
  refine ⟨u₀, hu₀, ?_⟩
  split at h
  · obtain rfl := Option.some.inj h
    exact ⟨rfl, rfl, rfl⟩
  · obtain rfl := Option.some.inj h
    exact ⟨rfl, rfl, rfl⟩
  · obtain ⟨fragment, -, rfl⟩ := Option.map_eq_some_iff.mp h
    exact ⟨rfl, rfl, rfl⟩

/-- A parsed URL with a scheme and a host was written as its components. -/
theorem parse_written {rules : Rules} {raw : Bytes} {u : URL} (h : parse rules raw = some u)
    (hscheme : u.scheme ≠ []) (hhost : u.host ≠ []) :
    ∃ w : Written, raw = w.text ∧ w.Separated ∧ w.Of u := by
  have htext := cut_text hashSign raw
  obtain ⟨u₀, hu₀, hsame⟩ := parse_eq_some h
  obtain ⟨w, hnone, hw, hseparated, hof⟩ := parseReference_written hu₀ (hsame.1 ▸ hscheme)
    (hsame.2.1 ▸ hhost) (notMem_cut hashSign raw)
  refine ⟨{ w with fragment := (cut hashSign raw).2 }, ?_, ⟨hseparated.name, hseparated.authority,
    hseparated.host, hseparated.noQuery, hseparated.noFragment⟩, ?_⟩
  · refine htext.symm.trans ?_
    rw [hw]
    exact (w.text_fragment hnone _).symm
  · exact ⟨hof.scheme.trans hsame.1.symm, by rw [hsame.2.1]; exact hof.host, by
      rw [hsame.2.2]; exact hof.path⟩

theorem parse_fromSep (rules : Rules) {s : Bytes} (hs : hashSign ∉ s) {fragment : Option Bytes}
    (hfragment : fragment = none ∨ fragment = some []) :
    parse rules (s ++ fromSep hashSign fragment) = parseReference rules s := by
  unfold parse
  rw [cut_fromSep hs]
  rcases hfragment with rfl | rfl
  · exact bind_pure _
  · exact bind_pure _

/-- Another text parses to the same components, up to the fragment. -/
theorem exists_parse_ne {rules : Rules} {raw : Bytes} {u : URL} (h : parse rules raw = some u) :
    ∃ raw' u', raw' ≠ raw ∧ parse rules raw' = some u' ∧ u.scheme = u'.scheme ∧
      u.host = u'.host ∧ u.path = u'.path := by
  obtain ⟨u₀, hu₀, hsame⟩ := parse_eq_some h
  have hs := notMem_cut hashSign raw
  obtain ⟨fragment, hfragment, hne⟩ : ∃ fragment : Option Bytes,
      (fragment = none ∨ fragment = some []) ∧ fragment ≠ (cut hashSign raw).2 := by
    cases (cut hashSign raw).2 with
    | none => exact ⟨some [], Or.inr rfl, by simp⟩
    | some s => exact ⟨none, Or.inl rfl, by simp⟩
  refine ⟨(cut hashSign raw).1 ++ fromSep hashSign fragment, u₀, fun heq => hne ?_,
    (parse_fromSep rules hs hfragment).trans hu₀, hsame⟩
  rw [← heq, cut_fromSep hs]

end Grex.GoURL
