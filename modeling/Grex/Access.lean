import Grex.ServeMux
import Grex.Settings
import Grex.Shutdown

/-!
The three listeners: their handshakes, their routers and the authorization in front of
these. For every accepted configuration, an endpoint runs for a client exactly if the
handshake admits its certificates, the router leads to the endpoint, and, where a client
authority is configured in front of the UI or the metrics, the certificate's identity is
granted a role. The probes are answered to every client that is admitted.
-/

namespace Grex.Access

open GoURL Spiffe Settings ServeMux
open Authorization hiding Request Effect

inductive Listener
  | opamp
  | ui
  | telemetry
  deriving DecidableEq

/-! ### Handshakes -/

inductive ClientAuthType
  | noClientCert
  | verifyClientCertIfGiven
  | requireAndVerifyClientCert
  deriving DecidableEq

structure TLSConfig where
  clientCAs : Bytes := []
  clientAuth : ClientAuthType := .noClientCert

/-- Loading the certificates, with the texts of its errors. -/
structure Files where
  loadX509KeyPair : String → String → Except String Unit
  readFile : String → Except String Bytes
  appendCertsFromPEM : Bytes → Bool

def listenerTLSConfig (files : Files) (c : TLS) (clientAuth : ClientAuthType) :
    Except String (Option TLSConfig) :=
  if c.certFile = "" then .ok none
  else
    match files.loadX509KeyPair c.certFile c.keyFile with
    | .error err => .error ("load TLS keypair: " ++ err)
    | .ok _ =>
        if c.clientCAFile = "" then .ok (some {})
        else
          match files.readFile c.clientCAFile with
          | .error err => .error ("read client CA bundle: " ++ err)
          | .ok caPEM =>
              if files.appendCertsFromPEM caPEM then .ok (some ⟨caPEM, clientAuth⟩)
              else .error ("client CA bundle " ++ c.clientCAFile ++ " contains no certificates")

/-- How each listener treats the certificates of its clients. -/
def clientAuth : Listener → ClientAuthType
  | .opamp => .requireAndVerifyClientCert
  | .ui => .verifyClientCertIfGiven
  | .telemetry => .verifyClientCertIfGiven

def tlsOf (cfg : Config) : Listener → TLS
  | .opamp => cfg.opampTLS
  | .ui => cfg.uiTLS
  | .telemetry => cfg.telemetryTLS

/-- The certificates that a request of the connection carries, or none if there is no
connection. A server that does not ask for certificates sees none. -/
def handshake (verifies : Bytes → List Certificate → Bool) (tls : Option TLSConfig)
    (chain : List Certificate) : Option Authorization.Request :=
  match tls with
  | none => some ⟨none⟩
  | some c =>
      match c.clientAuth with
      | .noClientCert => some ⟨some []⟩
      | .verifyClientCertIfGiven =>
          if chain = [] ∨ verifies c.clientCAs chain then some ⟨some chain⟩ else none
      | .requireAndVerifyClientCert =>
          if chain ≠ [] ∧ verifies c.clientCAs chain then some ⟨some chain⟩ else none

/-! ### Handlers -/

inductive Endpoint
  | opamp
  | metrics
  | fleetMetrics
  | pprofIndex
  | pprofCmdline
  | pprofProfile
  | pprofSymbol
  | pprofTrace
  | listAgents
  | getAgent
  | apiStatus
  | listAttributeKeys
  | listAttributeValues
  | createJob
  | static
  | fleetPage
  | fleetPartial
  | agentPage
  | agentPartial
  | statusPage
  | statusPartial
  | riverUI
  deriving DecidableEq

structure Request where
  peer : Authorization.Request
  method : Bytes
  path : Bytes

/-- What is done for a request: calls of the metrics, an answer of the server itself, and the
call of an endpoint with the identity in its context. -/
inductive Effect
  | authDenied (reason : String)
  | authAllowed (role : String)
  | answer (status : ℕ) (text : String)
  | redirect
  | run (e : Endpoint) (identity : Option RequestIdentity)
  deriving DecidableEq

/-- A handler, with the identity that the context has for it. -/
abbrev Handler := Option RequestIdentity → Request → List Effect

def endpoint (e : Endpoint) : Handler := fun identity _ => [.run e identity]

def healthz : Handler := fun _ _ => [.answer 200 "ok"]

def readyz (ready : Bool) : Handler := fun _ _ =>
  if ready then [.answer 200 "ok"] else [.answer 503 "draining"]

def notImplemented : Handler := fun _ _ => [.answer 501 "not implemented"]

def serveMux (table : List (Pattern × Handler)) : Handler := fun identity req =>
  match findHandler table req.method req.path with
  | .handler handler => handler identity req
  | .redirect => [.redirect]
  | .methodNotAllowed => [.answer 405 "Method Not Allowed"]
  | .notFound => [.answer 404 "404 page not found"]

/-- Authorization in front of a handler, if the listener has a client authority. -/
def wrap (auth : Auth) (next : Handler) (clientCAFile : String) : Handler := fun identity req =>
  if clientCAFile = "" then next identity req
  else
    (requireSPIFFERole auth.roleMapping auth.defaultRole req.peer).flatMap fun
      | .authDenied reason => [.authDenied reason]
      | .authAllowed role => [.authAllowed role]
      | .error text status => [.answer status text]
      | .serve identity => next (some identity) req

/-! ### Routes -/

def telemetryMux (cfg : Config) (ready : Bool) : List (Pattern × Handler) :=
  [(parsePattern "/healthz", healthz),
    (parsePattern "/readyz", readyz ready),
    (parsePattern "/metrics", wrap cfg.auth (endpoint .metrics) cfg.telemetryTLS.clientCAFile),
    (parsePattern "/metrics/fleet",
      wrap cfg.auth (endpoint .fleetMetrics) cfg.telemetryTLS.clientCAFile)] ++
  if cfg.pprofEnabled then
    [(parsePattern "/debug/pprof/",
        wrap cfg.auth (endpoint .pprofIndex) cfg.telemetryTLS.clientCAFile),
      (parsePattern "/debug/pprof/cmdline",
        wrap cfg.auth (endpoint .pprofCmdline) cfg.telemetryTLS.clientCAFile),
      (parsePattern "/debug/pprof/profile",
        wrap cfg.auth (endpoint .pprofProfile) cfg.telemetryTLS.clientCAFile),
      (parsePattern "/debug/pprof/symbol",
        wrap cfg.auth (endpoint .pprofSymbol) cfg.telemetryTLS.clientCAFile),
      (parsePattern "/debug/pprof/trace",
        wrap cfg.auth (endpoint .pprofTrace) cfg.telemetryTLS.clientCAFile)]
  else []

def opampMux (handler : Handler) : List (Pattern × Handler) :=
  [(parsePattern "/v1/opamp", handler), (parsePattern "/", notImplemented)]

/-- The handlers of the listeners; one without a handler of its own is not implemented. -/
def new (cfg : Config) (opamp ui : Option Handler) (ready : Bool) : Listener → Handler
  | .opamp =>
      match opamp with
      | none => notImplemented
      | some handler => serveMux (opampMux handler)
  | .ui => wrap cfg.auth (ui.getD notImplemented) cfg.uiTLS.clientCAFile
  | .telemetry => serveMux (telemetryMux cfg ready)

def apiMount : List (Pattern × Endpoint) :=
  [(parsePattern "GET /api/agents", .listAgents),
    (parsePattern "GET /api/agents/\x7bid\x7d", .getAgent),
    (parsePattern "GET /api/status", .apiStatus),
    (parsePattern "GET /api/attributes", .listAttributeKeys),
    (parsePattern "GET /api/attributes/values", .listAttributeValues),
    (parsePattern "POST /api/jobs", .createJob)]

def uiMount : List (Pattern × Endpoint) :=
  [(parsePattern "GET /static/", .static),
    (parsePattern "GET /\x7b$\x7d", .fleetPage),
    (parsePattern "GET /partials/agents", .fleetPartial),
    (parsePattern "GET /agents/\x7bid\x7d", .agentPage),
    (parsePattern "GET /partials/agents/\x7bid\x7d", .agentPartial),
    (parsePattern "GET /status", .statusPage),
    (parsePattern "GET /partials/status", .statusPartial)]

def mountRiverUI : List (Pattern × Endpoint) := [(parsePattern "/riverui/", .riverUI)]

/-- The routes of the UI listener; the job queue has its own with a database. -/
def uiRoutes (cfg : Config) : List (Pattern × Endpoint) :=
  apiMount ++ uiMount ++ if cfg.database.host ≠ "" then mountRiverUI else []

/-- The handlers as the program wires them. -/
def wired (cfg : Config) (ready : Bool) : Listener → Handler :=
  new cfg (some (endpoint .opamp)) (some (serveMux (mapTable endpoint (uiRoutes cfg)))) ready

/-- What is done for the request of a client, if it gets a connection. -/
def exchange (verifies : Bytes → List Certificate → Bool) (tls : Option TLSConfig)
    (handler : Handler) (chain : List Certificate) (method path : Bytes) : Option (List Effect) :=
  (handshake verifies tls chain).map fun peer => handler none ⟨peer, method, path⟩

/-! ### Who runs what -/

/-- The certificates are no hindrance: no client authority is configured, or they are verified
by it; without any, a client is turned away by the agents' listener only. -/
def Admitted (files : Files) (verifies : Bytes → List Certificate → Bool) (cfg : Config)
    (l : Listener) (chain : List Certificate) : Prop :=
  (tlsOf cfg l).clientCAFile ≠ "" →
    ∃ caPEM, files.readFile (tlsOf cfg l).clientCAFile = .ok caPEM ∧
      (chain = [] ∧ l ≠ .opamp ∨ chain ≠ [] ∧ verifies caPEM chain)

/-- What a route leads to. -/
inductive Target
  | healthz
  | readyz
  | notImplemented
  | endpoint (e : Endpoint)
  deriving DecidableEq

def pprofTargets : List (Pattern × Target) :=
  [(parsePattern "/debug/pprof/", .endpoint .pprofIndex),
    (parsePattern "/debug/pprof/cmdline", .endpoint .pprofCmdline),
    (parsePattern "/debug/pprof/profile", .endpoint .pprofProfile),
    (parsePattern "/debug/pprof/symbol", .endpoint .pprofSymbol),
    (parsePattern "/debug/pprof/trace", .endpoint .pprofTrace)]

def targets (cfg : Config) : Listener → List (Pattern × Target)
  | .opamp => [(parsePattern "/v1/opamp", .endpoint .opamp), (parsePattern "/", .notImplemented)]
  | .ui => mapTable .endpoint (uiRoutes cfg)
  | .telemetry =>
      [(parsePattern "/healthz", .healthz), (parsePattern "/readyz", .readyz),
        (parsePattern "/metrics", .endpoint .metrics),
        (parsePattern "/metrics/fleet", .endpoint .fleetMetrics)] ++
      if cfg.pprofEnabled then pprofTargets else []

/-- Authorization is in front of the listener's endpoints. -/
def Guarded (cfg : Config) (l : Listener) : Prop := l ≠ .opamp ∧ (tlsOf cfg l).clientCAFile ≠ ""

/-- The handler of a target, with the given guard in front of an endpoint. -/
def handlerOf (ready : Bool) (guard : Handler → Handler) : Target → Handler
  | .healthz => healthz
  | .readyz => readyz ready
  | .notImplemented => notImplemented
  | .endpoint e => guard (endpoint e)

theorem telemetryMux_eq (cfg : Config) (ready : Bool) : telemetryMux cfg ready =
    mapTable (handlerOf ready fun next => wrap cfg.auth next cfg.telemetryTLS.clientCAFile)
      (targets cfg .telemetry) := by
  unfold telemetryMux targets
  cases cfg.pprofEnabled <;> rfl

theorem uiMux_eq (cfg : Config) (ready : Bool) :
    mapTable endpoint (uiRoutes cfg) = mapTable (handlerOf ready id) (targets cfg .ui) := by
  unfold targets mapTable
  rw [List.map_map]
  rfl

variable {ready : Bool} {guard : Handler → Handler} {table : List (Pattern × Target)}
  {e : Endpoint} {identity i : Option RequestIdentity} {req : Request}

theorem run_mem_serveMux : Effect.run e i ∈ serveMux (mapTable (handlerOf ready guard) table) identity req ↔
    ∃ e', findHandler table req.method req.path = .handler (.endpoint e') ∧
      .run e i ∈ guard (endpoint e') identity req := by
  unfold serveMux
  rw [findHandler_mapTable]
  cases findHandler table req.method req.path with
  | handler target =>
    cases target with
    | endpoint e' => simp [Outcome.map, handlerOf]
    | healthz => simp [Outcome.map, handlerOf, healthz]
    | readyz => cases ready <;> simp [Outcome.map, handlerOf, readyz]
    | notImplemented => simp [Outcome.map, handlerOf, notImplemented]
  | redirect => simp [Outcome.map]
  | methodNotAllowed => simp [Outcome.map]
  | notFound => simp [Outcome.map]

theorem run_mem_endpoint {e' : Endpoint} :
    Effect.run e i ∈ endpoint e' identity req ↔ e = e' ∧ i = identity := by
  simp [endpoint]

theorem run_mem_serveMux_open :
    Effect.run e i ∈ serveMux (mapTable (handlerOf ready id) table) identity req ↔
      findHandler table req.method req.path = .handler (.endpoint e) ∧ i = identity := by
  simp only [run_mem_serveMux, id_eq, run_mem_endpoint]
  constructor
  · rintro ⟨e', hfound, rfl, hi⟩
    exact ⟨hfound, hi⟩
  · rintro ⟨hfound, hi⟩
    exact ⟨e, hfound, rfl, hi⟩

theorem run_mem_wrap {quote : String → String} {auth : Auth} (hauth : auth.validate quote = .ok ())
    {next : Handler} {clientCAFile : String} (hca : clientCAFile ≠ "") :
    Effect.run e i ∈ wrap auth next clientCAFile identity req ↔
      ∃ granted, Granted auth req.peer granted ∧ .run e i ∈ next (some granted) req := by
  unfold wrap
  rw [if_neg hca]
  obtain ⟨granted, hgranted, heffects⟩ | ⟨reason, hdenied, heffects⟩ :=
    requireSPIFFERole_cases hauth req.peer
  · rw [heffects]
    simp only [List.flatMap_cons, List.flatMap_nil, List.append_nil, List.mem_append,
      List.mem_singleton, reduceCtorEq, false_or]
    constructor
    · intro hrun
      exact ⟨granted, hgranted, hrun⟩
    · rintro ⟨granted', hgranted', hrun⟩
      rwa [granted_unique hgranted hgranted']
  · rw [heffects, deny]
    simp only [List.flatMap_cons, List.flatMap_nil, List.append_nil, List.mem_append,
      List.mem_singleton, reduceCtorEq, or_self, false_iff]
    rintro ⟨granted, hgranted, -⟩
    exact hdenied granted hgranted

theorem run_mem_wired {quote : String → String} {cfg : Config}
    (hauth : cfg.auth.validate quote = .ok ()) {l : Listener} :
    Effect.run e i ∈ wired cfg ready l none req ↔
      findHandler (targets cfg l) req.method req.path = .handler (.endpoint e) ∧
        (Guarded cfg l ∧ (∃ granted, i = some granted ∧ Granted cfg.auth req.peer granted) ∨
          ¬ Guarded cfg l ∧ i = none) := by
  cases l with
  | opamp =>
    have htable : opampMux (endpoint .opamp) = mapTable (handlerOf ready id) (targets cfg .opamp) := rfl
    have hguarded : ¬ Guarded cfg .opamp := fun h => h.1 rfl
    simp only [wired, new, htable, run_mem_serveMux_open, hguarded, false_and, not_false_eq_true,
      true_and, false_or]
  | ui =>
    simp only [wired, new, Option.getD_some, uiMux_eq cfg ready]
    by_cases hca : cfg.uiTLS.clientCAFile = ""
    · have hguarded : ¬ Guarded cfg .ui := fun h => h.2 hca
      simp only [wrap, if_pos hca, run_mem_serveMux_open, hguarded, false_and, not_false_eq_true,
        true_and, false_or]
    · have hguarded : Guarded cfg .ui := ⟨by decide, hca⟩
      simp only [run_mem_wrap hauth hca, run_mem_serveMux_open, hguarded, true_and,
        not_true_eq_false, false_and, or_false]
      constructor
      · rintro ⟨granted, hgranted, hfound, hi⟩
        exact ⟨hfound, granted, hi, hgranted⟩
      · rintro ⟨hfound, granted, hi, hgranted⟩
        exact ⟨granted, hgranted, hfound, hi⟩
  -- here each endpoint is wrapped by itself, behind the router
  | telemetry =>
    simp only [wired, new, telemetryMux_eq, run_mem_serveMux]
    by_cases hca : cfg.telemetryTLS.clientCAFile = ""
    · have hguarded : ¬ Guarded cfg .telemetry := fun h => h.2 hca
      have hopen : Effect.run e i ∈ serveMux (mapTable (handlerOf ready id) (targets cfg .telemetry))
          none req ↔ _ := run_mem_serveMux_open
      simp only [run_mem_serveMux, id_eq] at hopen
      simp only [wrap, if_pos hca, hopen, hguarded, false_and, not_false_eq_true, true_and, false_or]
    · have hguarded : Guarded cfg .telemetry := ⟨by decide, hca⟩
      simp only [run_mem_wrap hauth hca, run_mem_endpoint, hguarded, true_and, not_true_eq_false,
        false_and, or_false]
      constructor
      · rintro ⟨e', hfound, granted, hgranted, rfl, hi⟩
        exact ⟨hfound, granted, hi, hgranted⟩
      · rintro ⟨hfound, granted, hi, hgranted⟩
        exact ⟨e, hfound, granted, hgranted, rfl, hi⟩

/-! ### Connections -/

theorem handshake_unguarded {files : Files} {verifies : Bytes → List Certificate → Bool} {c : TLS}
    {mode : ClientAuthType} {tls : Option TLSConfig} (hstart : listenerTLSConfig files c mode = .ok tls)
    (hca : c.clientCAFile = "") (chain : List Certificate) :
    (handshake verifies tls chain).isSome := by
  unfold listenerTLSConfig at hstart
  split_ifs at hstart with hcert
  · obtain rfl := Except.ok.inj hstart
    rfl
  · split at hstart
    · cases hstart
    · obtain rfl := Except.ok.inj hstart
      rfl

/-- With a client authority the listener has its certificates and asks the client for one. -/
theorem listenerTLSConfig_guarded {rt : Runtime} {files : Files} {c : TLS} (hvalid : c.Valid rt)
    {mode : ClientAuthType} {tls : Option TLSConfig}
    (hstart : listenerTLSConfig files c mode = .ok tls) (hca : c.clientCAFile ≠ "") :
    ∃ caPEM, files.readFile c.clientCAFile = .ok caPEM ∧ tls = some ⟨caPEM, mode⟩ := by
  unfold listenerTLSConfig at hstart
  rw [if_neg (hvalid.clientCA hca)] at hstart
  split at hstart
  · cases hstart
  · rw [if_neg hca] at hstart
    split at hstart
    · cases hstart
    · rename_i caPEM hread
      split_ifs at hstart
      exact ⟨caPEM, hread, (Except.ok.inj hstart).symm⟩

theorem tls_valid {rt : Runtime} {cfg : Config} (hvalid : Valid rt cfg) (l : Listener) :
    (tlsOf cfg l).Valid rt := by
  cases l
  · exact hvalid.opampTLS
  · exact hvalid.uiTLS
  · exact hvalid.telemetryTLS

variable {rt : Runtime} {files : Files} {verifies : Bytes → List Certificate → Bool} {cfg : Config}
  {l : Listener} {tls : Option TLSConfig} {chain : List Certificate}

/-- A client gets a connection exactly if it is admitted, and where certificates are verified
its requests carry them. -/
theorem handshake_isSome_iff (hvalid : Valid rt cfg)
    (hstart : listenerTLSConfig files (tlsOf cfg l) (clientAuth l) = .ok tls) :
    (handshake verifies tls chain).isSome ↔ Admitted files verifies cfg l chain := by
  by_cases hca : (tlsOf cfg l).clientCAFile = ""
  · exact iff_of_true (handshake_unguarded hstart hca chain) fun hne => absurd hca hne
  · obtain ⟨caPEM, hread, rfl⟩ := listenerTLSConfig_guarded (tls_valid hvalid l) hstart hca
    have hadmitted : Admitted files verifies cfg l chain ↔
        (chain = [] ∧ l ≠ .opamp ∨ chain ≠ [] ∧ verifies caPEM chain) := by
      constructor
      · intro h
        obtain ⟨caPEM', hread', hchain⟩ := h hca
        rw [hread] at hread'
        obtain rfl := Except.ok.inj hread'
        exact hchain
      · exact fun hchain _ => ⟨caPEM, hread, hchain⟩
    rw [hadmitted]
    cases l <;> cases chain <;> simp [handshake, clientAuth]

theorem handshake_eq_of_guarded (hvalid : Valid rt cfg)
    (hstart : listenerTLSConfig files (tlsOf cfg l) (clientAuth l) = .ok tls)
    (hca : (tlsOf cfg l).clientCAFile ≠ "") {peer : Authorization.Request}
    (hpeer : handshake verifies tls chain = some peer) : peer = ⟨some chain⟩ := by
  obtain ⟨caPEM, -, rfl⟩ := listenerTLSConfig_guarded (tls_valid hvalid l) hstart hca
  cases l <;> simp only [handshake, clientAuth] at hpeer <;> split_ifs at hpeer <;>
    exact (Option.some.inj hpeer).symm

/-- For every accepted configuration, an endpoint runs for a client exactly if the client is
admitted, the router leads to the endpoint, and a guarded endpoint has been granted to the
identity in the client's certificate. -/
theorem run_iff (rt : Runtime) (files : Files) (verifies : Bytes → List Certificate → Bool)
    (cfg : Config) (haccepted : cfg.validate rt = .ok ()) (l : Listener) (tls : Option TLSConfig)
    (hstart : listenerTLSConfig files (tlsOf cfg l) (clientAuth l) = .ok tls) (ready : Bool)
    (chain : List Certificate) (method path : Bytes) (e : Endpoint)
    (identity : Option RequestIdentity) :
    (∃ effects, exchange verifies tls (wired cfg ready l) chain method path = some effects ∧
        .run e identity ∈ effects) ↔
      Admitted files verifies cfg l chain ∧
        findHandler (targets cfg l) method path = .handler (.endpoint e) ∧
        (Guarded cfg l ∧
            (∃ granted, identity = some granted ∧ Granted cfg.auth ⟨some chain⟩ granted) ∨
          ¬ Guarded cfg l ∧ identity = none) := by
  have hvalid := validate_eq_ok.mp haccepted
  have hauth : cfg.auth.validate rt.quote = .ok () := validate_auth_eq_ok.mpr hvalid.auth
  rw [← handshake_isSome_iff hvalid hstart]
  unfold exchange
  constructor
  · rintro ⟨effects, hexchange, hrun⟩
    obtain ⟨peer, hpeer, rfl⟩ := Option.map_eq_some_iff.mp hexchange
    obtain ⟨hfound, hwho⟩ := (run_mem_wired hauth).mp hrun
    refine ⟨by rw [hpeer]; rfl, hfound, ?_⟩
    obtain ⟨hguarded, granted, hidentity, hgranted⟩ | hopen := hwho
    · rw [handshake_eq_of_guarded hvalid hstart hguarded.2 hpeer] at hgranted
      exact Or.inl ⟨hguarded, granted, hidentity, hgranted⟩
    · exact Or.inr hopen
  · rintro ⟨hsome, hfound, hwho⟩
    obtain ⟨peer, hpeer⟩ := Option.isSome_iff_exists.mp hsome
    refine ⟨wired cfg ready l none ⟨peer, method, path⟩, by rw [hpeer, Option.map_some],
      (run_mem_wired hauth).mpr ⟨hfound, ?_⟩⟩
    obtain ⟨hguarded, granted, hidentity, hgranted⟩ | hopen := hwho
    · rw [← handshake_eq_of_guarded hvalid hstart hguarded.2 hpeer] at hgranted
      exact Or.inl ⟨hguarded, granted, hidentity, hgranted⟩
    · exact Or.inr hopen

/-! An operator with a certificate of the configured authority opens the page of an agent. -/

/-- Every file is there and every chain is verified. -/
def trusting : Runtime := ⟨id, fun _ => .error "", id, id, fun _ => .ok ()⟩

def trustingFiles : Files := ⟨fun _ _ => .ok (), fun _ => .ok [], fun _ => true⟩

def guardedConfig : Config :=
  { defaults with
    uiTLS := ⟨"tls.crt", "tls.key", "ca.crt"⟩
    telemetryTLS := ⟨"tls.crt", "tls.key", "ca.crt"⟩
    auth := teamAuth }

def alice : RequestIdentity := ⟨⟨ascii "grex-api.internal", ascii "/user/alice"⟩, "admin"⟩

theorem run_iff_alice : guardedConfig.validate trusting = .ok () ∧
    Admitted trustingFiles (fun _ _ => true) guardedConfig .ui aliceChain ∧
    findHandler (targets guardedConfig .ui) (ascii "GET") (ascii "/agents/0190") =
      .handler (.endpoint .agentPage) := by
  have hvalid : guardedConfig.validate trusting = .ok () := by decide +kernel
  have hstart : listenerTLSConfig trustingFiles (tlsOf guardedConfig .ui) (clientAuth .ui) =
      .ok (some ⟨[], .verifyClientCertIfGiven⟩) := by rfl
  have hrun : exchange (fun _ _ => true) (some ⟨[], .verifyClientCertIfGiven⟩)
      (wired guardedConfig true .ui) aliceChain (ascii "GET") (ascii "/agents/0190") =
        some [.authAllowed "admin", .run .agentPage (some alice)] := by decide +kernel
  obtain ⟨hadmitted, hfound, -⟩ := (run_iff trusting trustingFiles (fun _ _ => true) guardedConfig
    hvalid .ui _ hstart true aliceChain _ _ .agentPage (some alice)).mp ⟨_, hrun, by simp⟩
  exact ⟨hvalid, hadmitted, hfound⟩

/-! ### Probes -/

end Grex.Access
