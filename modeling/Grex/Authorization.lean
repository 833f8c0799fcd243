import Grex.Spiffe

/-!
Authorization by SPIFFE identity. A request reaches the inner handler with the role of
the first rule that names its identity, or else of the first rule that begins it, or else
with the default; the order of rules of different kinds does not matter.
-/

namespace Grex.Authorization

open GoURL Spiffe

/-! ### Settings -/

structure Auth where
  roleMapping : List RoleRule
  defaultRole : String

def validRoles : List String := ["none", "viewer", "admin"]

/-- The checks of one rule, in their order; the position and the texts stand in the
message. -/
def validateRule (quote : String → String) (i : ℕ) (r : RoleRule) : Except String Unit :=
  if r.matchKind ≠ "exact" ∧ r.matchKind ≠ "prefix" then
    .error ("auth.role_mapping[" ++ toString i ++ "].match: " ++ quote r.matchKind ++
      " is not one of exact, prefix")
  else if r.spiffeID = [] then
    .error ("auth.role_mapping[" ++ toString i ++ "].spiffe_id: must not be empty")
  else if r.role ≠ "viewer" ∧ r.role ≠ "admin" then
    .error ("auth.role_mapping[" ++ toString i ++ "].role: " ++ quote r.role ++
      " is not one of viewer, admin")
  else .ok ()

def validateRules (quote : String → String) (i : ℕ) : List RoleRule → Except String Unit
  | [] => .ok ()
  | r :: rules => do
      validateRule quote i r
      validateRules quote (i + 1) rules

def Auth.validate (quote : String → String) (auth : Auth) : Except String Unit :=
  if auth.defaultRole ∉ validRoles then
    .error ("auth.default_role: " ++ quote auth.defaultRole ++
      " is not one of none, viewer, admin")
  else validateRules quote 0 auth.roleMapping

/-! ### Requests -/

/-- The certificates of the peer, if the request came over TLS. -/
structure Request where
  peerCertificates : Option (List Certificate)

structure RequestIdentity where
  id : ID
  role : String
  deriving DecidableEq

/-- What is done for a request: calls of the metrics, the error that is answered, and the
call of the inner handler with the identity in its context. -/
inductive Effect
  | authDenied (reason : String)
  | authAllowed (role : String)
  | error (text : String) (status : ℕ)
  | serve (identity : RequestIdentity)
  deriving DecidableEq

def spiffeDenyReason : FromCertError → String
  | .noURISAN => "no_uri_san"
  | .multipleURISANs => "multiple_uri_sans"
  | .wrongScheme _ => "bad_scheme"
  | .malformed _ => "malformed"

def deny (reason : String) : List Effect := [.authDenied reason, .error "forbidden" 403]

def requireSPIFFERole (rules : List RoleRule) (defaultRole : String) (req : Request) :
    List Effect :=
  match req.peerCertificates with
  | none => deny "no_cert"
  | some [] => deny "no_cert"
  | some (leaf :: _) =>
      match fromCert leaf with
      | .error err => deny (spiffeDenyReason err)
      | .ok id =>
          let role := resolveRole id rules defaultRole
          if role = "" ∨ role = "none" then deny "no_role"
          else [.authAllowed role, .serve ⟨id, role⟩]

/-! ### The documented decision -/

/-- The rule names the identity. -/
def Names (id : ID) (r : RoleRule) : Prop := r.matchKind = "exact" ∧ r.spiffeID = id.string

/-- The rule's text begins the identity. -/
def Begins (id : ID) (r : RoleRule) : Prop := r.matchKind = "prefix" ∧ r.spiffeID <+: id.string

/-- The rule is the first one in the list with a property. -/
def First (p : RoleRule → Prop) (rules : List RoleRule) (r : RoleRule) : Prop :=
  ∃ before after, rules = before ++ r :: after ∧ p r ∧ ∀ r' ∈ before, ¬ p r'

/-- The role of an identity: of the first rule that names it, else of the first that
begins it, else the default. -/
inductive Resolved (id : ID) (rules : List RoleRule) (defaultRole : String) : String → Prop
  | named {r : RoleRule} (hfirst : First (Names id) rules r) : Resolved id rules defaultRole r.role
  | begun {r : RoleRule} (hunnamed : ∀ r' ∈ rules, ¬ Names id r')
      (hfirst : First (Begins id) rules r) : Resolved id rules defaultRole r.role
  | fallback (hunnamed : ∀ r' ∈ rules, ¬ Names id r') (hunbegun : ∀ r' ∈ rules, ¬ Begins id r') :
      Resolved id rules defaultRole defaultRole

/-- The documented conditions for a request to pass with an identity. -/
structure Granted (auth : Auth) (req : Request) (identity : RequestIdentity) : Prop where
  leaf : ∃ cert rest, req.peerCertificates = some (cert :: rest) ∧
    ∃ u, cert.uris = [u] ∧ u.scheme = ascii "spiffe" ∧ u.host ≠ [] ∧ u.path ≠ [] ∧
      identity.id = ⟨u.host, u.path⟩
  role : Resolved identity.id auth.roleMapping auth.defaultRole identity.role
  notNone : identity.role ≠ "none"

/-! ### The scans -/

instance (id : ID) : DecidablePred (Names id) := fun r =>
  inferInstanceAs (Decidable (r.matchKind = "exact" ∧ r.spiffeID = id.string))

instance (id : ID) : DecidablePred (Begins id) := fun r =>
  inferInstanceAs (Decidable (r.matchKind = "prefix" ∧ r.spiffeID <+: id.string))

theorem find_eq_some_iff {p : RoleRule → Prop} [DecidablePred p] {rules : List RoleRule}
    {r : RoleRule} : rules.find? (fun r => decide (p r)) = some r ↔ First p rules r := by
  rw [List.find?_eq_some_iff_append]
  unfold First
  constructor
  · rintro ⟨hr, before, after, hrules, hbefore⟩
    exact ⟨before, after, hrules, of_decide_eq_true hr, fun r' hr' => by simpa using hbefore r' hr'⟩
  · rintro ⟨before, after, hrules, hr, hbefore⟩
    exact ⟨decide_eq_true hr, before, after, hrules, fun r' hr' => by simpa using hbefore r' hr'⟩

theorem find_eq_none_iff {p : RoleRule → Prop} [DecidablePred p] {rules : List RoleRule} :
    rules.find? (fun r => decide (p r)) = none ↔ ∀ r ∈ rules, ¬ p r := by
  simp [List.find?_eq_none]

theorem resolveRole_eq (id : ID) (rules : List RoleRule) (defaultRole : String) :
    resolveRole id rules defaultRole =
      match rules.find? fun r => decide (Names id r) with
      | some r => r.role
      | none =>
          match rules.find? fun r => decide (Begins id r) with
          | some r => r.role
          | none => defaultRole := by
  have hbegins : ∀ r : RoleRule, decide (r.matchKind = "prefix" ∧
      r.spiffeID.length ≤ id.string.length ∧ id.string.take r.spiffeID.length = r.spiffeID) =
        decide (Begins id r) := by
    intro r
    rw [decide_eq_decide]
    constructor
    · intro h
      exact ⟨h.1, List.prefix_iff_eq_take.mpr h.2.2.symm⟩
    · intro h
      exact ⟨h.1, h.2.length_le, (List.prefix_iff_eq_take.mp h.2).symm⟩
  unfold resolveRole
  simp only [hbegins]
  rfl

/-- The scans find the documented role, and no other. -/
theorem resolved_iff {id : ID} {rules : List RoleRule} {defaultRole role : String} :
    Resolved id rules defaultRole role ↔ role = resolveRole id rules defaultRole := by
  rw [resolveRole_eq]
  constructor
  · rintro (hfirst | ⟨hunnamed, hfirst⟩ | ⟨hunnamed, hunbegun⟩)
    · rw [find_eq_some_iff.mpr hfirst]
    · rw [find_eq_none_iff.mpr hunnamed, find_eq_some_iff.mpr hfirst]
    · rw [find_eq_none_iff.mpr hunnamed, find_eq_none_iff.mpr hunbegun]
  · rintro rfl
    split
    · rename_i r hr
      exact .named (find_eq_some_iff.mp hr)
    · rename_i hunnamed
      split
      · rename_i r hr
        exact .begun (find_eq_none_iff.mp hunnamed) (find_eq_some_iff.mp hr)
      · rename_i hunbegun
        exact .fallback (find_eq_none_iff.mp hunnamed) (find_eq_none_iff.mp hunbegun)

/-- The rules of one kind, in their order. -/
def ofKind (kind : String) (rules : List RoleRule) : List RoleRule :=
  rules.filter fun r => r.matchKind = kind

/-- Only the order within each kind of rules matters. -/
theorem resolveRole_congr (id : ID) (defaultRole : String) {rules rules' : List RoleRule}
    (hexact : ofKind "exact" rules = ofKind "exact" rules')
    (hbegin : ofKind "prefix" rules = ofKind "prefix" rules') :
    resolveRole id rules defaultRole = resolveRole id rules' defaultRole := by
  have hfind : ∀ {kind : String} {p : RoleRule → Prop} [DecidablePred p],
      (∀ r, p r → r.matchKind = kind) → ∀ l : List RoleRule,
      l.find? (fun r => decide (p r)) = (ofKind kind l).find? fun r => decide (p r) := by
    intro kind p _ hkind l
    unfold ofKind
    rw [List.find?_filter]
    congr 1
    funext r
    by_cases hr : p r
    · simp [hr, hkind r hr]
    · simp [hr]
  have hnames : ∀ r, Names id r → r.matchKind = "exact" := fun _ h => h.1
  have hbegins : ∀ r, Begins id r → r.matchKind = "prefix" := fun _ h => h.1
  rw [resolveRole_eq, resolveRole_eq, hfind hnames rules, hfind hnames rules', hexact,
    hfind hbegins rules, hfind hbegins rules', hbegin]

/-! ### Validated settings -/

theorem validateRules_ok {quote : String → String} {i : ℕ} {rules : List RoleRule}
    (h : validateRules quote i rules = .ok ()) :
    ∀ r ∈ rules, r.role = "viewer" ∨ r.role = "admin" := by
  induction rules generalizing i with
  | nil => exact fun _ hr => absurd hr List.not_mem_nil
  | cons r rules ih =>
    unfold validateRules at h
    cases hrule : validateRule quote i r with
    | error err =>
      rw [hrule] at h
      cases h
    | ok _ =>
      rw [hrule] at h
      rw [List.forall_mem_cons]
      refine ⟨?_, ih h⟩
      unfold validateRule at hrule
      split_ifs at hrule with hkind hempty hrole
      rw [not_and_or, not_not, not_not] at hrole
      exact hrole

theorem role_of_validate {quote : String → String} {auth : Auth}
    (h : auth.validate quote = .ok ()) {id : ID} {role : String}
    (hrole : Resolved id auth.roleMapping auth.defaultRole role) :
    role = "none" ∨ role = "viewer" ∨ role = "admin" := by
  unfold Auth.validate at h
  split_ifs at h with hdefault
  have hrules := validateRules_ok h
  have hmem : ∀ {p : RoleRule → Prop} {r : RoleRule}, First p auth.roleMapping r →
      r ∈ auth.roleMapping := by
    rintro p r ⟨before, after, hsplit, -⟩
    rw [hsplit]
    exact List.mem_append_right _ List.mem_cons_self
  cases hrole with
  | named hfirst => exact Or.inr (hrules _ (hmem hfirst))
  | begun hunnamed hfirst => exact Or.inr (hrules _ (hmem hfirst))
  | fallback hunnamed hunbegun => simpa [validRoles] using hdefault

/-! ### Decisions -/

theorem granted_iff {auth : Auth} {req : Request} {identity : RequestIdentity} :
    Granted auth req identity ↔ ∃ leaf rest, req.peerCertificates = some (leaf :: rest) ∧
      fromCert leaf = .ok identity.id ∧
      identity.role = resolveRole identity.id auth.roleMapping auth.defaultRole ∧
      identity.role ≠ "none" := by
  constructor
  · rintro ⟨⟨leaf, rest, hreq, hleaf⟩, hrole, hnone⟩
    exact ⟨leaf, rest, hreq, fromCert_ok_iff.mpr hleaf, resolved_iff.mp hrole, hnone⟩
  · rintro ⟨leaf, rest, hreq, hleaf, hrole, hnone⟩
    exact ⟨⟨leaf, rest, hreq, fromCert_ok_iff.mp hleaf⟩, resolved_iff.mpr hrole, hnone⟩

theorem Granted.fromCert_leaf {auth : Auth} {req : Request} {identity : RequestIdentity}
    (h : Granted auth req identity) {leaf : Certificate} {rest : List Certificate}
    (hreq : req.peerCertificates = some (leaf :: rest)) : fromCert leaf = .ok identity.id := by
  obtain ⟨leaf', rest', hreq', hleaf, -⟩ := granted_iff.mp h
  obtain ⟨rfl, -⟩ := List.cons.inj (Option.some.inj (hreq.symm.trans hreq'))
  exact hleaf

theorem granted_unique {auth : Auth} {req : Request} {identity identity' : RequestIdentity}
    (h : Granted auth req identity) (h' : Granted auth req identity') : identity = identity' := by
  obtain ⟨leaf, rest, hreq, hleaf, hrole, -⟩ := granted_iff.mp h
  have hrole' := resolved_iff.mp h'.role
  obtain ⟨id, role⟩ := identity
  obtain ⟨id', role'⟩ := identity'
  obtain rfl : id = id' := Except.ok.inj (hleaf.symm.trans (h'.fromCert_leaf hreq))
  obtain rfl : role = role' := hrole.trans hrole'.symm
  rfl

theorem not_granted_of_no_leaf {auth : Auth} {req : Request}
    (hreq : ∀ leaf rest, req.peerCertificates ≠ some (leaf :: rest)) (identity : RequestIdentity) :
    ¬ Granted auth req identity := by
  intro h
  obtain ⟨leaf, rest, hleaf, -⟩ := h.leaf
  exact hreq leaf rest hleaf

/-- What is done for a request that passes, and for one that does not. -/
theorem requireSPIFFERole_cases {quote : String → String} {auth : Auth}
    (hvalid : auth.validate quote = .ok ()) (req : Request) :
    (∃ identity, Granted auth req identity ∧
      requireSPIFFERole auth.roleMapping auth.defaultRole req =
        [.authAllowed identity.role, .serve identity]) ∨
    (∃ reason, (∀ identity, ¬ Granted auth req identity) ∧
      requireSPIFFERole auth.roleMapping auth.defaultRole req = deny reason) := by
  unfold requireSPIFFERole
  split
  · rename_i hreq
    exact Or.inr ⟨_, not_granted_of_no_leaf (by simp [hreq]), rfl⟩
  · rename_i hreq
    exact Or.inr ⟨_, not_granted_of_no_leaf (by simp [hreq]), rfl⟩
  · rename_i leaf rest hreq
    split
    · rename_i err hleaf
      refine Or.inr ⟨_, fun identity h => ?_, rfl⟩
      have hok := h.fromCert_leaf hreq
      rw [hleaf] at hok
      cases hok
    · rename_i id hleaf
      have hvalidRole := role_of_validate hvalid
        (resolved_iff.mpr rfl : Resolved id auth.roleMapping auth.defaultRole _)
      by_cases hnone : resolveRole id auth.roleMapping auth.defaultRole = "none"
      · refine Or.inr ⟨_, fun identity h => h.notNone ?_, if_pos (Or.inr hnone)⟩
        have hid : id = identity.id := Except.ok.inj (hleaf.symm.trans (h.fromCert_leaf hreq))
        rw [resolved_iff.mp h.role, ← hid, hnone]
      -- validated settings leave no empty role, so only the role "none" is denied here
      · refine Or.inl ⟨⟨id, _⟩, granted_iff.mpr ⟨leaf, rest, hreq, hleaf, rfl, hnone⟩, if_neg ?_⟩
        rintro (hempty | hnone')
        · rw [hempty] at hvalidRole
          simp at hvalidRole
        · exact hnone hnone'

/-- The inner handler runs exactly under the documented conditions, and then with the
role viewer or admin; any other request is denied once and answered with 403; and rules
of one kind can be moved among those of the other. -/
theorem authorization_decision_exact (quote : String → String) (auth : Auth)
    (hvalid : auth.validate quote = .ok ()) (req : Request) :
    (∀ identity, Effect.serve identity ∈
        requireSPIFFERole auth.roleMapping auth.defaultRole req ↔ Granted auth req identity) ∧
      (∀ identity, Granted auth req identity →
        (identity.role = "viewer" ∨ identity.role = "admin") ∧
          requireSPIFFERole auth.roleMapping auth.defaultRole req =
            [.authAllowed identity.role, .serve identity]) ∧
      ((∀ identity, ¬ Granted auth req identity) →
        ∃ reason, requireSPIFFERole auth.roleMapping auth.defaultRole req =
          [.authDenied reason, .error "forbidden" 403]) ∧
      ∀ roleMapping, ofKind "exact" roleMapping = ofKind "exact" auth.roleMapping →
        ofKind "prefix" roleMapping = ofKind "prefix" auth.roleMapping →
        requireSPIFFERole roleMapping auth.defaultRole req =
          requireSPIFFERole auth.roleMapping auth.defaultRole req := by
  have hmoved : ∀ roleMapping, ofKind "exact" roleMapping = ofKind "exact" auth.roleMapping →
      ofKind "prefix" roleMapping = ofKind "prefix" auth.roleMapping →
      requireSPIFFERole roleMapping auth.defaultRole req =
        requireSPIFFERole auth.roleMapping auth.defaultRole req := by
    intro roleMapping hexact hbegin
    unfold requireSPIFFERole
    simp only [fun id => resolveRole_congr id auth.defaultRole hexact hbegin]
  have hrole : ∀ identity, Granted auth req identity →
      identity.role = "viewer" ∨ identity.role = "admin" := fun identity h =>
    (role_of_validate hvalid h.role).resolve_left h.notNone
  rcases requireSPIFFERole_cases hvalid req with ⟨identity, hgranted, heffects⟩ |
    ⟨reason, hdenied, heffects⟩
  · refine ⟨fun identity' => ?_, fun identity' h => ?_, fun h => absurd hgranted (h identity), hmoved⟩
    · rw [heffects]
      constructor
      · intro hmem
        have hsame : identity' = identity := by simpa using hmem
        rw [hsame]
        exact hgranted
      · intro h
        rw [granted_unique h hgranted]
        simp
    · rw [granted_unique h hgranted]
      exact ⟨hrole identity hgranted, heffects⟩
  · refine ⟨fun identity => ?_, fun identity h => absurd h (hdenied identity),
      fun _ => ⟨reason, heffects⟩, hmoved⟩
    rw [heffects]
    simp [deny, hdenied identity]

/-- An operator named by one rule, among others of their team. -/
def teamAuth : Auth where
  roleMapping :=
    [⟨"prefix", ascii "spiffe://grex-api.internal/user/", "viewer"⟩,
      ⟨"exact", ascii "spiffe://grex-api.internal/user/alice", "admin"⟩]
  defaultRole := "none"

def aliceChain : List Certificate :=
  [⟨[{ scheme := ascii "spiffe", host := ascii "grex-api.internal", path := ascii "/user/alice" }]⟩]

def aliceRequest : Request := ⟨some aliceChain⟩

/-- The rule that names the operator wins over the earlier one. -/
theorem alice_is_admin : teamAuth.validate id = .ok () ∧
    Granted teamAuth aliceRequest
      ⟨⟨ascii "grex-api.internal", ascii "/user/alice"⟩, "admin"⟩ := by
  have hvalid : teamAuth.validate id = .ok () := by decide +kernel
  have hserved : Effect.serve ⟨⟨ascii "grex-api.internal", ascii "/user/alice"⟩, "admin"⟩ ∈
      requireSPIFFERole teamAuth.roleMapping teamAuth.defaultRole aliceRequest := by
    decide +kernel
  exact ⟨hvalid, ((authorization_decision_exact id teamAuth hvalid aliceRequest).1 _).mp hserved⟩

end Grex.Authorization
