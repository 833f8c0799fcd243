import Grex.GoURL

/-!
SPIFFE identities of client certificates, and the roles they are given. An identity is
made of the host and the decoded path of the certificate's one URI, and matched by its
text against the rules.
-/

namespace Grex.Spiffe

open GoURL

structure ID where
  trustDomain : Bytes
  path : Bytes
  deriving DecidableEq

def ID.string (id : ID) : Bytes := ascii "spiffe://" ++ id.trustDomain ++ id.path

/-- A certificate, as far as its identity depends on it. -/
structure Certificate where
  uris : List URL

/-- The certificate with the given URI names; one that cannot be parsed is refused. -/
def parseCertificate (rules : Rules) (names : List Bytes) : Option Certificate :=
  (names.mapM (parse rules)).map Certificate.mk

inductive FromCertError
  | noURISAN
  | multipleURISANs
  | wrongScheme (scheme : Bytes)
  | malformed (u : URL)
  deriving DecidableEq

/-- The text of an error, from the way texts are quoted and URLs printed. -/
def FromCertError.message (quote : Bytes → String) (print : URL → Bytes) : FromCertError → String
  | noURISAN => "spiffe: certificate has no URI SAN"
  | multipleURISANs => "spiffe: certificate has more than one URI SAN"
  | wrongScheme scheme => "spiffe: URI SAN is not a spiffe:// URI: " ++ quote scheme
  | malformed u => "spiffe: malformed SPIFFE ID: " ++ quote (print u)

def fromCert (cert : Certificate) : Except FromCertError ID :=
  match cert.uris with
  | [] => .error .noURISAN
  | [u] =>
      if u.scheme ≠ ascii "spiffe" then .error (.wrongScheme u.scheme)
      else if u.host = [] ∨ u.path = [] then .error (.malformed u)
      else .ok ⟨u.host, u.path⟩
  | _ => .error .multipleURISANs

/-- A certificate is accepted exactly if it has one URI, of the scheme, with a host and a
path. -/
theorem fromCert_ok_iff {cert : Certificate} {id : ID} : fromCert cert = .ok id ↔
    ∃ u, cert.uris = [u] ∧ u.scheme = ascii "spiffe" ∧ u.host ≠ [] ∧ u.path ≠ [] ∧
      id = ⟨u.host, u.path⟩ := by
  unfold fromCert
  constructor
  · intro h
    split at h
    · cases h
    · rename_i u huris
      split_ifs at h with hscheme hempty
      rw [not_or] at hempty
      exact ⟨u, huris, not_not.mp hscheme, hempty.1, hempty.2, (Except.ok.inj h).symm⟩
    · cases h
  · rintro ⟨u, huris, hscheme, hhost, hpath, rfl⟩
    rw [huris]
    simp [hscheme, hhost, hpath]

/-- A rule of the configuration, which may be any text until it is validated. -/
structure RoleRule where
  matchKind : String
  spiffeID : Bytes
  role : String

/-- The exact rules are scanned before the rules of beginnings. -/
def resolveRole (id : ID) (rules : List RoleRule) (defaultRole : String) : String :=
  let full := id.string
  match rules.find? fun r => r.matchKind = "exact" ∧ r.spiffeID = full with
  | some r => r.role
  | none =>
      match rules.find? fun r => r.matchKind = "prefix" ∧ r.spiffeID.length ≤ full.length ∧
          full.take r.spiffeID.length = r.spiffeID with
      | some r => r.role
      | none => defaultRole

/-! ### Identities and texts -/

/-- A lower-case scheme, no percent encoding, no query, no fragment and no user info. -/
def plain (name : Bytes) : Bool :=
  (ascii "spiffe://").isPrefixOf name && !name.contains percent && !name.contains question &&
    !name.contains hashSign && !((cut slash (name.drop 9)).1.contains atSign)

/-- Nothing was written but the scheme, a host and a path, as they are. -/
structure Bare (w : Written) : Prop where
  name : w.name = ascii "spiffe"
  user : w.user = none
  host : percent ∉ w.host
  path : percent ∉ fromSep slash w.path
  query : w.query = none
  fragment : w.fragment = none

theorem ascii_spiffe : ascii "spiffe" ++ [colon, slash, slash] = ascii "spiffe://" := by decide

theorem Bare.text {w : Written} (h : Bare w) :
    w.text = ascii "spiffe://" ++ (w.host ++ fromSep slash w.path) := by
  unfold Written.text Written.authority
  rw [h.name, h.user, h.query, h.fragment, ascii_spiffe]
  simp only [upToSep, fromSep, List.nil_append, List.append_nil, List.append_assoc]

theorem eq_none_of_notMem_fromSep {sep : UInt8} {rest : Option Bytes} (h : sep ∉ fromSep sep rest) :
    rest = none := by
  cases rest with
  | none => rfl
  | some s => exact absurd List.mem_cons_self h

theorem eq_none_of_notMem_upToSep {sep : UInt8} {rest : Option Bytes} (h : sep ∉ upToSep sep rest) :
    rest = none := by
  cases rest with
  | none => rfl
  | some s => exact absurd (List.mem_append_right s List.mem_cons_self) h

/-- A written text that starts with the scheme was written with it. -/
theorem name_of_text {w : Written} (hseparated : w.Separated) {rest : Bytes}
    (hrest : ascii "spiffe://" ++ rest = w.text) : w.name = ascii "spiffe" ∧
      rest = w.authority ++ fromSep slash w.path ++ fromSep question w.query ++
        fromSep hashSign w.fragment := by
  have hcut : cut colon w.text = (w.name, some (slash :: slash :: (w.authority ++
      fromSep slash w.path ++ fromSep question w.query ++ fromSep hashSign w.fragment))) := by
    rw [← cut_fromSep hseparated.name]
    simp [Written.text, fromSep]
  have hcut' : cut colon w.text = (ascii "spiffe", some (slash :: slash :: rest)) := by
    rw [← hrest, ← cut_fromSep (by decide : colon ∉ ascii "spiffe"), ← ascii_spiffe]
    simp [fromSep]
  rw [hcut] at hcut'
  obtain ⟨hname, htail⟩ := Prod.mk.inj hcut'
  refine ⟨hname, ?_⟩
  simpa using (Option.some.inj htail).symm

theorem plain_text_iff {w : Written} (hseparated : w.Separated) : plain w.text = true ↔ Bare w := by
  unfold plain
  simp only [Bool.and_eq_true, Bool.not_eq_true', List.contains_eq_mem, decide_eq_false_iff_not,
    List.isPrefixOf_iff_prefix]
  constructor
  · rintro ⟨⟨⟨⟨⟨rest, hrest⟩, hpercent⟩, hquestion⟩, hhash⟩, hat⟩
    obtain ⟨hname, hbody⟩ := name_of_text hseparated hrest
    have hmem : ∀ {b}, b ∈ rest → b ∈ w.text := fun h => hrest ▸ List.mem_append_right _ h
    have hquery : w.query = none := eq_none_of_notMem_fromSep fun h : question ∈ _ =>
      hquestion (hmem (by simp [hbody, h]))
    have hfragment : w.fragment = none := eq_none_of_notMem_fromSep fun h : hashSign ∈ _ =>
      hhash (hmem (by simp [hbody, h]))
    rw [hquery, hfragment, fromSep, fromSep, List.append_nil, List.append_nil] at hbody
    have hauthority : (cut slash (w.text.drop 9)).1 = w.authority := by
      have hdrop : w.text.drop 9 = rest := by rw [← hrest]; rfl
      rw [hdrop, hbody, cut_fromSep hseparated.authority]
    rw [hauthority] at hat
    refine ⟨hname, eq_none_of_notMem_upToSep fun h : atSign ∈ _ => hat ?_, fun h => hpercent ?_,
      fun h => hpercent ?_, hquery, hfragment⟩
    · exact List.mem_append_left _ h
    · exact hmem (by simp [hbody, Written.authority, h])
    · exact hmem (by simp [hbody, h])
  · intro hbare
    have hauthority : w.authority = w.host := by
      unfold Written.authority
      rw [hbare.user]
      rfl
    have hquestion := hseparated.noQuery
    have hhash := hseparated.noFragment
    have hslash := hseparated.authority
    rw [hauthority] at hquestion hhash hslash
    have hdrop : w.text.drop 9 = w.host ++ fromSep slash w.path := by rw [hbare.text]; rfl
    rw [hdrop, cut_fromSep hslash, hbare.text]
    refine ⟨⟨⟨⟨⟨_, rfl⟩, ?_⟩, ?_⟩, ?_⟩, hseparated.host⟩
    · rw [List.mem_append, List.mem_append]
      rintro (h | h | h)
      · exact absurd h (by decide)
      · exact hbare.host h
      · exact hbare.path h
    · rw [List.mem_append]
      rintro (h | h)
      · exact absurd h (by decide)
      · exact hquestion h
    · rw [List.mem_append]
      rintro (h | h)
      · exact absurd h (by decide)
      · exact hhash h

/-- The identity is printed as it was written exactly if nothing else was written: every
other part, and every percent sign, makes the text longer. -/
theorem string_eq_text_iff {w : Written} {u : URL} (hof : w.Of u)
    (hscheme : u.scheme = ascii "spiffe") : (ID.mk u.host u.path).string = w.text ↔ Bare w := by
  constructor
  · intro hstring
    have hlength := congrArg List.length hstring
    have hname : w.name.length = 6 := by
      rw [← List.length_map toLower, hof.scheme, hscheme]
      rfl
    have hnine : (ascii "spiffe://").length = 9 := rfl
    unfold ID.string Written.text Written.authority at hlength
    simp only [List.length_append, hname, hnine, List.length_cons, List.length_nil] at hlength
    have hhost := unescape_eq_some hof.host
    have hpath := unescape_eq_some hof.path
    have hhost_le := length_unescape_le hof.host
    have hpath_le := length_unescape_le hof.path
    have hsame : ascii "spiffe" ++ ([colon, slash, slash] ++ (u.host ++ u.path)) =
        w.name ++ ([colon, slash, slash] ++ (w.authority ++ fromSep slash w.path ++
          fromSep question w.query ++ fromSep hashSign w.fragment)) := by
      rw [← List.append_assoc, ascii_spiffe]
      simpa [ID.string, Written.text] using hstring
    have huser : upToSep atSign w.user = [] := List.length_eq_zero_iff.mp (by omega)
    have hquery : fromSep question w.query = [] := List.length_eq_zero_iff.mp (by omega)
    have hfragment : fromSep hashSign w.fragment = [] := List.length_eq_zero_iff.mp (by omega)
    refine ⟨(List.append_inj hsame (by rw [hname]; rfl)).1.symm,
      eq_none_of_notMem_upToSep (huser ▸ List.not_mem_nil), ?_, ?_,
      eq_none_of_notMem_fromSep (hquery ▸ List.not_mem_nil),
      eq_none_of_notMem_fromSep (hfragment ▸ List.not_mem_nil)⟩
    · rcases hhost with ⟨hpercent, -⟩ | hlt
      · exact hpercent
      · omega
    · rcases hpath with ⟨hpercent, -⟩ | hlt
      · exact hpercent
      · omega
  · intro hbare
    have hhost := hof.host
    have hpath := hof.path
    rw [unescape_of_notMem hbare.host] at hhost
    rw [unescape_of_notMem hbare.path] at hpath
    rw [hbare.text, ← Option.some.inj hhost, ← Option.some.inj hpath]
    exact List.append_assoc _ _ _

theorem parseCertificate_one {rules : Rules} {name : Bytes} {cert : Certificate}
    (h : parseCertificate rules [name] = some cert) :
    ∃ u, parse rules name = some u ∧ cert.uris = [u] := by
  obtain ⟨uris, huris, rfl⟩ := Option.map_eq_some_iff.mp h
  simp only [List.mapM_cons, List.mapM_nil, Option.bind_eq_bind, Option.bind_eq_some_iff] at huris
  obtain ⟨u, hu, rest, hrest, huris⟩ := huris
  obtain rfl := Option.some.inj hrest
  exact ⟨u, hu, (Option.some.inj huris).symm⟩

theorem exists_url_of_accepted {rules : Rules} {name : Bytes} {cert : Certificate} {id : ID}
    (hcert : parseCertificate rules [name] = some cert) (hid : fromCert cert = .ok id) :
    ∃ u, parse rules name = some u ∧ u.scheme = ascii "spiffe" ∧ u.host ≠ [] ∧ u.path ≠ [] ∧
      id = ⟨u.host, u.path⟩ := by
  obtain ⟨u, hu, huris⟩ := parseCertificate_one hcert
  obtain ⟨u', huris', haccepted⟩ := fromCert_ok_iff.mp hid
  obtain rfl : u = u' := List.singleton_inj.mp (huris.symm.trans huris')
  exact ⟨u, hu, haccepted⟩

theorem string_eq_iff_plain {rules : Rules} {name : Bytes} {cert : Certificate} {id : ID}
    (hcert : parseCertificate rules [name] = some cert) (hid : fromCert cert = .ok id) :
    id.string = name ↔ plain name = true := by
  obtain ⟨u, hu, hscheme, hhost, hpath, rfl⟩ := exists_url_of_accepted hcert hid
  have hne : u.scheme ≠ [] := by
    rw [hscheme]
    decide
  obtain ⟨w, rfl, hseparated, hof⟩ := parse_written hu hne hhost
  rw [string_eq_text_iff hof hscheme, plain_text_iff hseparated]

/-- Every accepted certificate shares its identity with another one. -/
theorem exists_same_identity {rules : Rules} {name : Bytes} {cert : Certificate} {id : ID}
    (hcert : parseCertificate rules [name] = some cert) (hid : fromCert cert = .ok id) :
    ∃ name' cert', name' ≠ name ∧ parseCertificate rules [name'] = some cert' ∧
      fromCert cert' = .ok id := by
  obtain ⟨u, hu, hscheme, hhost, hpath, rfl⟩ := exists_url_of_accepted hcert hid
  obtain ⟨name', v, hne, hv, hvscheme, hvhost, hvpath⟩ := exists_parse_ne hu
  refine ⟨name', ⟨[v]⟩, hne, ?_, fromCert_ok_iff.mpr ⟨v, rfl, ?_, ?_, ?_, ?_⟩⟩
  · simp [parseCertificate, hv]
  · rw [← hvscheme]
    exact hscheme
  · rw [← hvhost]
    exact hhost
  · rw [← hvpath]
    exact hpath
  · rw [hvhost, hvpath]

/-- An accepted identity is printed as the certificate's URI exactly if that has a
lower-case scheme and no user info, percent encoding, query or fragment. Different URIs
of this form have different identities; without it, every identity is shared. -/
theorem identity_reproduces_iff (rules : Rules) (name name' : Bytes) (cert cert' : Certificate)
    (id id' : ID) (hcert : parseCertificate rules [name] = some cert)
    (hcert' : parseCertificate rules [name'] = some cert') (hid : fromCert cert = .ok id)
    (hid' : fromCert cert' = .ok id') :
    (id.string = name ↔ plain name = true) ∧
      (plain name = true → plain name' = true → name ≠ name' →
        id ≠ id' ∧ id.string ≠ id'.string) ∧
      ∃ other cert'', other ≠ name ∧ parseCertificate rules [other] = some cert'' ∧
        fromCert cert'' = .ok id := by
  have hiff := string_eq_iff_plain hcert hid
  have hiff' := string_eq_iff_plain hcert' hid'
  refine ⟨hiff, fun hplain hplain' hne => ?_, exists_same_identity hcert hid⟩
  have hstring : id.string ≠ id'.string := by
    rw [hiff.mpr hplain, hiff'.mpr hplain']
    exact hne
  exact ⟨fun h => hstring (congrArg ID.string h), hstring⟩

/-- Every user info and host is admitted, and nothing is encoded by default. -/
def lenient : Rules where
  admitsUserinfo _ := true
  admitsHost _ := true
  escapePath := id
  escapeFragment := id

/-- The identity of a certificate with one URI name. -/
def identify (rules : Rules) (name : Bytes) : Option ID :=
  (parseCertificate rules [name]).bind fun cert => (fromCert cert).toOption

theorem exists_of_identify {rules : Rules} {name : Bytes} {id : ID}
    (h : identify rules name = some id) :
    ∃ cert, parseCertificate rules [name] = some cert ∧ fromCert cert = .ok id := by
  obtain ⟨cert, hcert, hid⟩ := Option.bind_eq_some_iff.mp h
  refine ⟨cert, hcert, ?_⟩
  cases hfrom : fromCert cert with
  | error err =>
    rw [hfrom] at hid
    cases hid
  | ok id' =>
    rw [hfrom] at hid
    rw [Option.some.inj hid]

/-- The certificates of two operators. -/
theorem identities_of_plain_names : ∃ cert cert' id id',
    parseCertificate lenient [ascii "spiffe://grex-api.internal/user/a"] = some cert ∧
      parseCertificate lenient [ascii "spiffe://grex-api.internal/user/b"] = some cert' ∧
      fromCert cert = .ok id ∧ fromCert cert' = .ok id' ∧ id.string ≠ id'.string := by
  obtain ⟨cert, hcert, hid⟩ := exists_of_identify (by decide +kernel :
    identify lenient (ascii "spiffe://grex-api.internal/user/a") =
      some ⟨ascii "grex-api.internal", ascii "/user/a"⟩)
  obtain ⟨cert', hcert', hid'⟩ := exists_of_identify (by decide +kernel :
    identify lenient (ascii "spiffe://grex-api.internal/user/b") =
      some ⟨ascii "grex-api.internal", ascii "/user/b"⟩)
  refine ⟨cert, cert', _, _, hcert, hcert', hid, hid', ?_⟩
  exact ((identity_reproduces_iff lenient _ _ cert cert' _ _ hcert hcert' hid hid').2.1
    (by decide +kernel) (by decide +kernel) (by decide +kernel)).2

/-- Ways to write the identity of one operator. -/
def namesOfAlice : List Bytes :=
  [ascii "spiffe://grex-api.internal/user/alice", ascii "SPIFFE://grex-api.internal/user/alice",
    ascii "spiffe://mallory@grex-api.internal/user/alice",
    ascii "spiffe://grex-api.internal/user/%61lice",
    ascii "spiffe://grex-api.internal/user/alice?admin",
    ascii "spiffe://grex-api.internal/user/alice#admin"]

/-- URIs that differ in everything but the host and the decoded path are one identity. -/
theorem names_of_alice_collapse : namesOfAlice.Nodup ∧ ∀ name ∈ namesOfAlice,
    identify lenient name = some ⟨ascii "grex-api.internal", ascii "/user/alice"⟩ := by
  decide +kernel

end Grex.Spiffe
