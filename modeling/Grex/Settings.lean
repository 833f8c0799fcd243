import Grex.Authorization
import Grex.FleetSettings
import Grex.GoText
import Grex.Lines
import Mathlib.Tactic.Simps.Basic

/-!
The configuration. It is the file put over the defaults and the environment put over the
file, and it is accepted when every check of it passes. The overrides are applied one
after another and each writes one setting, so each setting is the environment's if it has
one and else the file's. Reading and decoding the file, reading durations and looking at
files are given, with the texts of their errors.
-/

namespace Grex.Settings

open GoText GoURL Lines GoTime FleetSettings Authorization Spiffe

/-! ### Sections -/

structure Listeners where
  opamp : String
  ui : String
  telemetry : String

structure TLS where
  certFile : String := ""
  keyFile : String := ""
  clientCAFile : String := ""

structure Log where
  level : String
  format : String

structure Database where
  host : String := ""
  port : Int64
  user : String := ""
  password : String := ""
  dbname : String := ""
  sslmode : String

structure Config where
  listeners : Listeners
  opampTLS : TLS := {}
  uiTLS : TLS := {}
  telemetryTLS : TLS := {}
  fleet : Fleet
  perAgentSeriesLimit : Int64
  pollInterval : Int64
  pprofEnabled : Bool := false
  database : Database
  auth : Auth
  log : Log

def defaults : Config where
  listeners := ⟨":4320", ":8080", ":9090"⟩
  fleet :=
    { heartbeatInterval := 30000000000
      staleMissedHeartbeats := 3
      softDeleteDuration := 604800000000000 }
  perAgentSeriesLimit := 1000
  pollInterval := 5000000000
  auth := ⟨[], "none"⟩
  log := ⟨"info", "text"⟩
  database := { port := 5432, sslmode := "disable" }

/-- What is given: quoting, reading durations, the texts of a number and of a truth value
that cannot be read, and looking at a file. -/
structure Runtime where
  quote : String → String
  parseDuration : String → Except String Int64
  atoiError : String → String
  parseBoolError : String → String
  stat : String → Except String Unit

/-! ### Overrides -/

/-- A place in a record. -/
structure Place (γ σ : Type) where
  get : γ → σ
  set : γ → σ → γ
  get_set : ∀ c x, get (set c x) = x := by intros; rfl
  set_get : ∀ c, set c (get c) = c := by intros; rfl
  set_set : ∀ c x y, set (set c x) y = set c y := by intros; rfl

/-- A setting that the environment can override: how its text is read, and its place. -/
structure Setting (γ : Type) where
  name : String
  {σ : Type}
  parse : String → Except String σ
  place : Place γ σ

variable {γ σ : Type}

/-- The setting of a section is one of the whole. -/
def Setting.within (block : Place γ σ) (s : Setting σ) : Setting γ where
  name := s.name
  parse := s.parse
  place :=
    { get := fun c => s.place.get (block.get c)
      set := fun c x => block.set c (s.place.set (block.get c) x)
      get_set := fun c x => by rw [block.get_set, s.place.get_set]
      set_get := fun c => by rw [s.place.set_get, block.set_get]
      set_set := fun c x y => by rw [block.set_set, block.get_set, s.place.set_set] }

def setString (name : String) (place : Place γ String) : Setting γ := ⟨name, .ok, place⟩

def setDuration (rt : Runtime) (name : String) (place : Place γ Int64) : Setting γ :=
  ⟨name, rt.parseDuration, place⟩

def parseInt (rt : Runtime) (v : String) : Except String Int64 :=
  match atoi v with
  | some n => .ok (Int64.ofInt n)
  | none => .error (rt.atoiError v)

def setInt (rt : Runtime) (name : String) (place : Place γ Int64) : Setting γ :=
  ⟨name, parseInt rt, place⟩

def parseSwitch (rt : Runtime) (v : String) : Except String Bool :=
  match parseBool v with
  | some b => .ok b
  | none => .error (rt.parseBoolError v)

def setBool (rt : Runtime) (name : String) (place : Place γ Bool) : Setting γ :=
  ⟨name, parseSwitch rt, place⟩

/-- The parts between the commas, without the blanks around them and without those that
are blank. -/
def stringList (v : String) : List String :=
  ((lines ',' v.toList).map fun part => trimSpace (.ofList part)).filter fun part => part ≠ ""

def setStringList (name : String) (place : Place γ (List String)) : Setting γ :=
  ⟨name, fun v => .ok (stringList v), place⟩

def listenersOverrides : List (Setting Listeners) :=
  [setString "GREX_LISTENERS_OPAMP"
      { get := (·.opamp), set := fun c v => { c with opamp := v } },
    setString "GREX_LISTENERS_UI"
      { get := (·.ui), set := fun c v => { c with ui := v } },
    setString "GREX_LISTENERS_TELEMETRY"
      { get := (·.telemetry), set := fun c v => { c with telemetry := v } }]

def tlsOverrides (certFile keyFile clientCAFile : String) : List (Setting TLS) :=
  [setString certFile
      { get := (·.certFile), set := fun c v => { c with certFile := v } },
    setString keyFile
      { get := (·.keyFile), set := fun c v => { c with keyFile := v } },
    setString clientCAFile
      { get := (·.clientCAFile), set := fun c v => { c with clientCAFile := v } }]

def authOverrides : List (Setting Auth) :=
  [setString "GREX_AUTH_DEFAULT_ROLE"
    { get := (·.defaultRole), set := fun c v => { c with defaultRole := v } }]

def fleetOverrides (rt : Runtime) : List (Setting Fleet) :=
  [setDuration rt "GREX_FLEET_HEARTBEAT_INTERVAL"
      { get := (·.heartbeatInterval), set := fun c v => { c with heartbeatInterval := v } },
    setInt rt "GREX_FLEET_STALE_MISSED_HEARTBEATS"
      { get := (·.staleMissedHeartbeats), set := fun c v => { c with staleMissedHeartbeats := v } },
    setStringList "GREX_FLEET_REQUIRED_ATTRIBUTES"
      { get := (·.requiredAttributes), set := fun c v => { c with requiredAttributes := v } },
    setInt rt "GREX_FLEET_SHARD_COUNT"
      { get := (·.shardCount), set := fun c v => { c with shardCount := v } },
    setDuration rt "GREX_FLEET_SOFT_DELETE_DURATION"
      { get := (·.softDeleteDuration), set := fun c v => { c with softDeleteDuration := v } }]

def logOverrides : List (Setting Log) :=
  [setString "GREX_LOG_LEVEL"
      { get := (·.level), set := fun c v => { c with level := v } },
    setString "GREX_LOG_FORMAT"
      { get := (·.format), set := fun c v => { c with format := v } }]

def databaseOverrides (rt : Runtime) : List (Setting Database) :=
  [setString "GREX_DATABASE_HOST"
      { get := (·.host), set := fun c v => { c with host := v } },
    setInt rt "GREX_DATABASE_PORT"
      { get := (·.port), set := fun c v => { c with port := v } },
    setString "GREX_DATABASE_USER"
      { get := (·.user), set := fun c v => { c with user := v } },
    setString "GREX_DATABASE_PASSWORD"
      { get := (·.password), set := fun c v => { c with password := v } },
    setString "GREX_DATABASE_DBNAME"
      { get := (·.dbname), set := fun c v => { c with dbname := v } },
    setString "GREX_DATABASE_SSLMODE"
      { get := (·.sslmode), set := fun c v => { c with sslmode := v } }]

def listenersPlace : Place Config Listeners where
  get := (·.listeners)
  set := fun c v => { c with listeners := v }

def opampPlace : Place Config TLS where
  get := (·.opampTLS)
  set := fun c v => { c with opampTLS := v }

def uiPlace : Place Config TLS where
  get := (·.uiTLS)
  set := fun c v => { c with uiTLS := v }

def telemetryPlace : Place Config TLS where
  get := (·.telemetryTLS)
  set := fun c v => { c with telemetryTLS := v }

def authPlace : Place Config Auth where
  get := (·.auth)
  set := fun c v => { c with auth := v }

def fleetPlace : Place Config Fleet where
  get := (·.fleet)
  set := fun c v => { c with fleet := v }

def limitPlace : Place Config Int64 where
  get := (·.perAgentSeriesLimit)
  set := fun c v => { c with perAgentSeriesLimit := v }

def pollPlace : Place Config Int64 where
  get := (·.pollInterval)
  set := fun c v => { c with pollInterval := v }

def pprofPlace : Place Config Bool where
  get := (·.pprofEnabled)
  set := fun c v => { c with pprofEnabled := v }

def logPlace : Place Config Log where
  get := (·.log)
  set := fun c v => { c with log := v }

def databasePlace : Place Config Database where
  get := (·.database)
  set := fun c v => { c with database := v }

/-- The table of the overrides, section by section. -/
def envOverrides (rt : Runtime) : List (Setting Config) :=
  listenersOverrides.map (.within listenersPlace) ++
    ((tlsOverrides "GREX_OPAMP_TLS_CERT_FILE" "GREX_OPAMP_TLS_KEY_FILE"
      "GREX_OPAMP_TLS_CLIENT_CA_FILE").map (.within opampPlace) ++
    ((tlsOverrides "GREX_UI_TLS_CERT_FILE" "GREX_UI_TLS_KEY_FILE"
      "GREX_UI_TLS_CLIENT_CA_FILE").map (.within uiPlace) ++
    ((tlsOverrides "GREX_TELEMETRY_TLS_CERT_FILE" "GREX_TELEMETRY_TLS_KEY_FILE"
      "GREX_TELEMETRY_TLS_CLIENT_CA_FILE").map (.within telemetryPlace) ++
    (authOverrides.map (.within authPlace) ++
    ((fleetOverrides rt).map (.within fleetPlace) ++
    (setInt rt "GREX_METRICS_PER_AGENT_SERIES_LIMIT" limitPlace ::
      setDuration rt "GREX_UI_POLL_INTERVAL" pollPlace ::
      setBool rt "GREX_DEBUG_PPROF_ENABLED" pprofPlace ::
    (logOverrides.map (.within logPlace) ++
    (databaseOverrides rt).map (.within databasePlace))))))))

/-- The loop over the overrides: one that is set writes its setting or ends the loading
with its name in front of the error. -/
def override (env : String → Option String) : List (Setting γ) → γ → Except String γ
  | [], c => .ok c
  | s :: rest, c =>
      match env s.name with
      | none => override env rest c
      | some v =>
          match s.parse v with
          | .error err => .error (s.name ++ ": " ++ err)
          | .ok x => override env rest (s.place.set c x)

/-! ### Addresses -/

def addrError (addr : List Char) (why : String) : String :=
  if addr = [] then why else "address " ++ .ofList addr ++ ": " ++ why

def missingPort : String := "missing port in address"

def tooManyColons : String := "too many colons in address"

/-- The index of the last occurrence. -/
def lastIndex (c : Char) (s : List Char) : Option ℕ :=
  (s.reverse.idxOf? c).map fun i => s.length - 1 - i

/-- The brackets that are left over once the host and the port are found: an opening one
from `j` on, or a closing one from `k` on. -/
def splitAt (hostport host : List Char) (i j k : ℕ) : Except String (List Char × List Char) :=
  if '[' ∈ hostport.drop j then .error (addrError hostport "unexpected '[' in address")
  else if ']' ∈ hostport.drop k then .error (addrError hostport "unexpected ']' in address")
  else .ok (host, hostport.drop (i + 1))

/-- `net.SplitHostPort`. -/
def splitHostPort (hostport : List Char) : Except String (List Char × List Char) :=
  match lastIndex ':' hostport with
  | none => .error (addrError hostport missingPort)
  | some i =>
      if hostport.head? = some '[' then
        match hostport.idxOf? ']' with
        | none => .error (addrError hostport "missing ']' in address")
        | some close =>
            if close + 1 = hostport.length then .error (addrError hostport missingPort)
            else if close + 1 = i then splitAt hostport ((hostport.take close).drop 1) i 1 (close + 1)
            else if hostport[close + 1]? = some ':' then .error (addrError hostport tooManyColons)
            else .error (addrError hostport missingPort)
      else if ':' ∈ hostport.take i then .error (addrError hostport tooManyColons)
      else splitAt hostport (hostport.take i) i 0 0

/-! ### Validation -/

def require (p : Prop) [Decidable p] (text : String) : Except String Unit :=
  if p then .ok () else .error text

def validateAddress (rt : Runtime) (field addr : String) : Except String Unit :=
  match splitHostPort addr.toList with
  | .ok _ => .ok ()
  | .error err => .error (field ++ ": invalid address " ++ rt.quote addr ++ ": " ++ err)

def validateFile (rt : Runtime) (field path : String) : Except String Unit :=
  if path = "" then .ok ()
  else
    match rt.stat path with
    | .ok _ => .ok ()
    | .error err => .error (field ++ ": " ++ err)

def TLS.validate (rt : Runtime) (block : String) (t : TLS) : Except String Unit := do
  require (t.certFile = "" ↔ t.keyFile = "")
    (block ++ ": cert_file and key_file must be set together")
  require (¬ (t.clientCAFile ≠ "" ∧ t.certFile = ""))
    (block ++ ": client_ca_file requires cert_file and key_file")
  validateFile rt (block ++ ".cert_file") t.certFile
  validateFile rt (block ++ ".key_file") t.keyFile
  validateFile rt (block ++ ".client_ca_file") t.clientCAFile

def Config.validate (rt : Runtime) (c : Config) : Except String Unit := do
  validateAddress rt "listeners.opamp" c.listeners.opamp
  validateAddress rt "listeners.ui" c.listeners.ui
  validateAddress rt "listeners.telemetry" c.listeners.telemetry
  c.opampTLS.validate rt "opamp_tls"
  c.uiTLS.validate rt "ui_tls"
  c.telemetryTLS.validate rt "telemetry_tls"
  c.auth.validate rt.quote
  require (c.log.level ∈ ["debug", "info", "warn", "error"])
    ("log.level: " ++ rt.quote c.log.level ++ " is not one of debug, info, warn, error")
  require (c.log.format ∈ ["text", "json"])
    ("log.format: " ++ rt.quote c.log.format ++ " is not one of text, json")
  c.fleet.validate
  require (0 ≤ c.perAgentSeriesLimit.toInt)
    ("metrics.per_agent_series_limit: must be non-negative, got " ++
      toString c.perAgentSeriesLimit.toInt)
  require (0 < c.pollInterval.toInt)
    ("ui.poll_interval: must be positive, got " ++ durationString c.pollInterval.toInt)
  require (1 ≤ c.database.port.toInt ∧ c.database.port.toInt ≤ 65535)
    ("database.port: must be between 1 and 65535, got " ++ toString c.database.port.toInt)

def load (rt : Runtime) (readFile : String → Except String Bytes)
    (decode : Bytes → Config → Except String Config) (env : String → Option String)
    (path : String) : Except String Config := do
  let raw ← (readFile path).mapError fun err => "read config: " ++ err
  let file ← (decode raw defaults).mapError fun err => "parse config " ++ path ++ ": " ++ err
  let c ← override env (envOverrides rt) file
  c.validate rt
  return c

/-! ### Each setting for itself -/

/-- The value of a setting: what the environment says, if it says anything. -/
def Value (env : String → Option String) (name : String) (parse : String → Except String σ)
    (old new : σ) : Prop :=
  match env name with
  | none => new = old
  | some v => parse v = .ok new

variable {env : String → Option String}

theorem override_cons_eq_ok {s : Setting γ} {rest : List (Setting γ)} {c c' : γ} :
    override env (s :: rest) c = .ok c' ↔ ∃ x, Value env s.name s.parse (s.place.get c) x ∧
      override env rest (s.place.set c x) = .ok c' := by
  unfold Value
  rw [override]
  cases env s.name with
  | none => simp [s.place.set_get]
  | some v =>
    dsimp only
    cases s.parse v <;> simp

/-- The overrides of a section stay within it. -/
theorem override_section_eq_ok (block : Place γ σ) {l : List (Setting σ)} {rest : List (Setting γ)}
    {c c' : γ} : override env (l.map (Setting.within block) ++ rest) c = .ok c' ↔
      ∃ x, override env l (block.get c) = .ok x ∧ override env rest (block.set c x) = .ok c' := by
  induction l generalizing c with
  | nil => simp [override, block.set_get]
  | cons s l ih =>
    simp only [List.map_cons, List.cons_append, override_cons_eq_ok, ih]
    constructor
    · rintro ⟨x, hx, y, hy, hrest⟩
      simp only [Setting.within, block.get_set, block.set_set] at hx hy hrest
      exact ⟨y, ⟨x, hx, hy⟩, hrest⟩
    · rintro ⟨y, ⟨x, hx, hy⟩, hrest⟩
      refine ⟨x, hx, y, ?_, ?_⟩
      · simp only [Setting.within, block.get_set]
        exact hy
      · simp only [Setting.within, block.set_set]
        exact hrest

theorem override_last_section_eq_ok (block : Place γ σ) {l : List (Setting σ)} {c c' : γ} :
    override env (l.map (Setting.within block)) c = .ok c' ↔
      ∃ x, override env l (block.get c) = .ok x ∧ block.set c x = c' := by
  rw [← List.append_nil (l.map _), override_section_eq_ok block]
  simp [override]

/-- A write to the one does not show in the other. -/
def Setting.Apart (s t : Setting γ) : Prop := ∀ c x, t.place.get (s.place.set c x) = t.place.get c

/-- Settings that lie apart and together are the whole record. -/
structure Fields (l : List (Setting γ)) : Prop where
  apart : l.Pairwise fun s t => s.Apart t ∧ t.Apart s
  whole : ∀ a b : γ, (∀ s ∈ l, s.place.get a = s.place.get b) → a = b

/-- Write a setting of one record into another. -/
def copy (new c : γ) (s : Setting γ) : γ := s.place.set c (s.place.get new)

theorem get_copied {s : Setting γ} {l : List (Setting γ)} (h : ∀ t ∈ l, t.Apart s) (new c : γ) :
    s.place.get (l.foldl (copy new) c) = s.place.get c := by
  induction l generalizing c with
  | nil => rfl
  | cons t l ih =>
    rw [List.foldl_cons, ih fun t' ht' => h t' (List.mem_cons_of_mem t ht')]
    exact h t List.mem_cons_self c _

theorem get_copied_of_mem {l : List (Setting γ)}
    (h : l.Pairwise fun s t => s.Apart t ∧ t.Apart s) (new c : γ) :
    ∀ s ∈ l, s.place.get (l.foldl (copy new) c) = s.place.get new := by
  induction l generalizing c with
  | nil => exact fun s hs => absurd hs List.not_mem_nil
  | cons t l ih =>
    obtain ⟨hhead, htail⟩ := List.pairwise_cons.mp h
    intro s hs
    rw [List.foldl_cons]
    rcases List.mem_cons.mp hs with rfl | hs
    · rw [get_copied fun t ht => (hhead t ht).2]
      exact s.place.get_set c _
    · exact ih htail _ s hs

/-- The overrides of settings that lie apart give each one its value and write nothing else. -/
theorem override_eq_ok_iff_copied {l : List (Setting γ)}
    (h : l.Pairwise fun s t => s.Apart t ∧ t.Apart s) {old new : γ} :
    override env l old = .ok new ↔
      (∀ s ∈ l, Value env s.name s.parse (s.place.get old) (s.place.get new)) ∧
        l.foldl (copy new) old = new := by
  induction l generalizing old with
  | nil => simp [override]
  | cons s l ih =>
    obtain ⟨hhead, htail⟩ := List.pairwise_cons.mp h
    have hlater : ∀ x, (∀ t ∈ l, Value env t.name t.parse (t.place.get (s.place.set old x))
          (t.place.get new)) ↔
        ∀ t ∈ l, Value env t.name t.parse (t.place.get old) (t.place.get new) := by
      intro x
      exact forall₂_congr fun t ht => by rw [(hhead t ht).1 old x]
    simp only [override_cons_eq_ok, ih htail, hlater, List.forall_mem_cons, List.foldl_cons]
    constructor
    · rintro ⟨x, hx, hrest, hnew⟩
      have hvalue : s.place.get new = x := by
        rw [← hnew, get_copied fun t ht => (hhead t ht).2, s.place.get_set]
      rw [copy, hvalue]
      exact ⟨⟨hx, hrest⟩, hnew⟩
    · rintro ⟨⟨hx, hrest⟩, hnew⟩
      exact ⟨_, hx, hrest, hnew⟩

/-- Where the settings are the whole record, each has its value by itself. -/
theorem Fields.override_eq_ok_iff {l : List (Setting γ)} (h : Fields l) {old new : γ} :
    override env l old = .ok new ↔
      ∀ s ∈ l, Value env s.name s.parse (s.place.get old) (s.place.get new) := by
  rw [override_eq_ok_iff_copied h.apart, and_iff_left]
  exact h.whole _ _ (get_copied_of_mem h.apart new old)

@[mk_iff]
structure ListenersOverridden (env : String → Option String) (old new : Listeners) : Prop where
  opamp : Value env "GREX_LISTENERS_OPAMP" .ok old.opamp new.opamp
  ui : Value env "GREX_LISTENERS_UI" .ok old.ui new.ui
  telemetry : Value env "GREX_LISTENERS_TELEMETRY" .ok old.telemetry new.telemetry

theorem fields_listeners : Fields listenersOverrides where
  apart := by simp [listenersOverrides, Setting.Apart, setString]
  whole a b h := by
    cases a
    cases b
    simp_all [listenersOverrides, setString]

theorem override_listeners_iff {old new : Listeners} :
    override env listenersOverrides old = .ok new ↔ ListenersOverridden env old new := by
  rw [fields_listeners.override_eq_ok_iff, listenersOverridden_iff]
  simp [listenersOverrides, setString]

@[mk_iff]
structure TLSOverridden (env : String → Option String) (certFile keyFile clientCAFile : String)
    (old new : TLS) : Prop where
  cert : Value env certFile .ok old.certFile new.certFile
  key : Value env keyFile .ok old.keyFile new.keyFile
  clientCA : Value env clientCAFile .ok old.clientCAFile new.clientCAFile

theorem fields_tls (certFile keyFile clientCAFile : String) :
    Fields (tlsOverrides certFile keyFile clientCAFile) where
  apart := by simp [tlsOverrides, Setting.Apart, setString]
  whole a b h := by
    cases a
    cases b
    simp_all [tlsOverrides, setString]

theorem override_tls_iff {certFile keyFile clientCAFile : String} {old new : TLS} :
    override env (tlsOverrides certFile keyFile clientCAFile) old = .ok new ↔
      TLSOverridden env certFile keyFile clientCAFile old new := by
  rw [(fields_tls certFile keyFile clientCAFile).override_eq_ok_iff, tLSOverridden_iff]
  simp [tlsOverrides, setString]

/-- The role rules are the file's. -/
structure AuthOverridden (env : String → Option String) (old new : Auth) : Prop where
  defaultRole : Value env "GREX_AUTH_DEFAULT_ROLE" .ok old.defaultRole new.defaultRole
  roleMapping : new.roleMapping = old.roleMapping

theorem override_auth_iff {old new : Auth} :
    override env authOverrides old = .ok new ↔ AuthOverridden env old new := by
  unfold authOverrides
  simp only [override_cons_eq_ok]
  constructor
  · rintro ⟨_, hrole, hend⟩
    obtain rfl := Except.ok.inj hend
    exact ⟨hrole, rfl⟩
  · rintro ⟨hrole, hmapping⟩
    obtain ⟨roles, role⟩ := new
    obtain rfl : roles = old.roleMapping := hmapping
    exact ⟨_, hrole, rfl⟩

@[mk_iff]
structure FleetOverridden (rt : Runtime) (env : String → Option String) (old new : Fleet) :
    Prop where
  heartbeatInterval : Value env "GREX_FLEET_HEARTBEAT_INTERVAL" rt.parseDuration
    old.heartbeatInterval new.heartbeatInterval
  staleMissedHeartbeats : Value env "GREX_FLEET_STALE_MISSED_HEARTBEATS" (parseInt rt)
    old.staleMissedHeartbeats new.staleMissedHeartbeats
  requiredAttributes : Value env "GREX_FLEET_REQUIRED_ATTRIBUTES" (fun v => .ok (stringList v))
    old.requiredAttributes new.requiredAttributes
  shardCount : Value env "GREX_FLEET_SHARD_COUNT" (parseInt rt) old.shardCount new.shardCount
  softDeleteDuration : Value env "GREX_FLEET_SOFT_DELETE_DURATION" rt.parseDuration
    old.softDeleteDuration new.softDeleteDuration

theorem fields_fleet (rt : Runtime) : Fields (fleetOverrides rt) where
  apart := by simp [fleetOverrides, Setting.Apart, setDuration, setInt, setStringList]
  whole a b h := by
    cases a
    cases b
    simp_all [fleetOverrides, setDuration, setInt, setStringList]

theorem override_fleet_iff {rt : Runtime} {old new : Fleet} :
    override env (fleetOverrides rt) old = .ok new ↔ FleetOverridden rt env old new := by
  rw [(fields_fleet rt).override_eq_ok_iff, fleetOverridden_iff]
  simp [fleetOverrides, setDuration, setInt, setStringList]

@[mk_iff]
structure LogOverridden (env : String → Option String) (old new : Log) : Prop where
  level : Value env "GREX_LOG_LEVEL" .ok old.level new.level
  format : Value env "GREX_LOG_FORMAT" .ok old.format new.format

theorem fields_log : Fields logOverrides where
  apart := by simp [logOverrides, Setting.Apart, setString]
  whole a b h := by
    cases a
    cases b
    simp_all [logOverrides, setString]

theorem override_log_iff {old new : Log} :
    override env logOverrides old = .ok new ↔ LogOverridden env old new := by
  rw [fields_log.override_eq_ok_iff, logOverridden_iff]
  simp [logOverrides, setString]

@[mk_iff]
structure DatabaseOverridden (rt : Runtime) (env : String → Option String) (old new : Database) :
    Prop where
  host : Value env "GREX_DATABASE_HOST" .ok old.host new.host
  port : Value env "GREX_DATABASE_PORT" (parseInt rt) old.port new.port
  user : Value env "GREX_DATABASE_USER" .ok old.user new.user
  password : Value env "GREX_DATABASE_PASSWORD" .ok old.password new.password
  dbname : Value env "GREX_DATABASE_DBNAME" .ok old.dbname new.dbname
  sslmode : Value env "GREX_DATABASE_SSLMODE" .ok old.sslmode new.sslmode

theorem fields_database (rt : Runtime) : Fields (databaseOverrides rt) where
  apart := by simp [databaseOverrides, Setting.Apart, setString, setInt]
  whole a b h := by
    cases a
    cases b
    simp_all [databaseOverrides, setString, setInt]

theorem override_database_iff {rt : Runtime} {old new : Database} :
    override env (databaseOverrides rt) old = .ok new ↔ DatabaseOverridden rt env old new := by
  rw [(fields_database rt).override_eq_ok_iff, databaseOverridden_iff]
  simp [databaseOverrides, setString, setInt]

/-- Every setting of the configuration has its value by itself. -/
structure Overridden (rt : Runtime) (env : String → Option String) (file c : Config) : Prop where
  listeners : ListenersOverridden env file.listeners c.listeners
  opampTLS : TLSOverridden env "GREX_OPAMP_TLS_CERT_FILE" "GREX_OPAMP_TLS_KEY_FILE"
    "GREX_OPAMP_TLS_CLIENT_CA_FILE" file.opampTLS c.opampTLS
  uiTLS : TLSOverridden env "GREX_UI_TLS_CERT_FILE" "GREX_UI_TLS_KEY_FILE"
    "GREX_UI_TLS_CLIENT_CA_FILE" file.uiTLS c.uiTLS
  telemetryTLS : TLSOverridden env "GREX_TELEMETRY_TLS_CERT_FILE" "GREX_TELEMETRY_TLS_KEY_FILE"
    "GREX_TELEMETRY_TLS_CLIENT_CA_FILE" file.telemetryTLS c.telemetryTLS
  auth : AuthOverridden env file.auth c.auth
  fleet : FleetOverridden rt env file.fleet c.fleet
  perAgentSeriesLimit : Value env "GREX_METRICS_PER_AGENT_SERIES_LIMIT" (parseInt rt)
    file.perAgentSeriesLimit c.perAgentSeriesLimit
  pollInterval :
    Value env "GREX_UI_POLL_INTERVAL" rt.parseDuration file.pollInterval c.pollInterval
  pprofEnabled :
    Value env "GREX_DEBUG_PPROF_ENABLED" (parseSwitch rt) file.pprofEnabled c.pprofEnabled
  log : LogOverridden env file.log c.log
  database : DatabaseOverridden rt env file.database c.database

theorem override_eq_ok_iff {rt : Runtime} {file c : Config} :
    override env (envOverrides rt) file = .ok c ↔ Overridden rt env file c := by
  unfold envOverrides
  simp only [override_section_eq_ok, override_last_section_eq_ok, override_cons_eq_ok,
    override_listeners_iff, override_tls_iff, override_auth_iff, override_fleet_iff,
    override_log_iff, override_database_iff, setInt, setDuration, setBool, listenersPlace,
    opampPlace, uiPlace, telemetryPlace, authPlace, fleetPlace, limitPlace, pollPlace, pprofPlace,
    logPlace, databasePlace]
  constructor
  · rintro ⟨_, hlisteners, _, hopamp, _, hui, _, htelemetry, _, hauth, _, hfleet, _, hlimit,
      _, hpoll, _, hpprof, _, hlog, _, hdatabase, rfl⟩
    exact ⟨hlisteners, hopamp, hui, htelemetry, hauth, hfleet, hlimit, hpoll, hpprof, hlog,
      hdatabase⟩
  · rintro ⟨hlisteners, hopamp, hui, htelemetry, hauth, hfleet, hlimit, hpoll, hpprof, hlog,
      hdatabase⟩
    exact ⟨_, hlisteners, _, hopamp, _, hui, _, htelemetry, _, hauth, _, hfleet, _, hlimit,
      _, hpoll, _, hpprof, _, hlog, _, hdatabase, rfl⟩

/-! ### Well-formed configurations -/

/-- A port after a host without colons and brackets, or after a host in brackets. -/
inductive Address : List Char → Prop
  | plain (host port : List Char) (hhost : ∀ c ∈ host, c ∉ [':', '[', ']'])
      (hport : ∀ c ∈ port, c ∉ [':', '[', ']']) : Address (host ++ ':' :: port)
  | bracketed (host port : List Char) (hhost : ∀ c ∈ host, c ∉ ['[', ']'])
      (hport : ∀ c ∈ port, c ∉ [':', '[', ']']) : Address ('[' :: host ++ ']' :: ':' :: port)

theorem idxOf_append {c : Char} {l : List Char} (hl : c ∉ l) (r : List Char) :
    (l ++ c :: r).idxOf? c = some l.length := by
  induction l with
  | nil => simp [List.idxOf?_cons]
  | cons a l ih =>
    rw [List.mem_cons, not_or] at hl
    simp [List.idxOf?_cons, Ne.symm hl.1, ih hl.2]

theorem exists_of_idxOf {c : Char} {s : List Char} {i : ℕ} (h : s.idxOf? c = some i) :
    ∃ l r, s = l ++ c :: r ∧ c ∉ l ∧ i = l.length := by
  have hmem : c ∈ s := by
    by_contra hnot
    rw [List.idxOf?_eq_none_iff.mpr hnot] at h
    cases h
  obtain ⟨l, r, rfl, hl⟩ := List.eq_append_cons_of_mem hmem
  rw [idxOf_append hl] at h
  exact ⟨l, r, rfl, hl, (Option.some.inj h).symm⟩

theorem lastIndex_append {c : Char} (l : List Char) {r : List Char} (hr : c ∉ r) :
    lastIndex c (l ++ c :: r) = some l.length := by
  have hreverse : (l ++ c :: r).reverse = r.reverse ++ c :: l.reverse := by simp
  unfold lastIndex
  rw [hreverse, idxOf_append (by simpa using hr)]
  simp only [Option.map_some, List.length_append, List.length_cons, List.length_reverse]
  congr 1
  omega

theorem exists_of_lastIndex {c : Char} {s : List Char} {i : ℕ} (h : lastIndex c s = some i) :
    ∃ l r, s = l ++ c :: r ∧ c ∉ r ∧ i = l.length := by
  obtain ⟨j, hj, -⟩ := Option.map_eq_some_iff.mp h
  obtain ⟨r, l, hs, hr, -⟩ := exists_of_idxOf hj
  have hsplit : s = l.reverse ++ c :: r.reverse := by
    rw [← List.reverse_reverse s, hs]
    simp
  have hr' : c ∉ r.reverse := by simpa using hr
  rw [hsplit, lastIndex_append _ hr'] at h
  exact ⟨l.reverse, r.reverse, hsplit, hr', (Option.some.inj h).symm⟩

theorem splitAt_ok_iff {hostport host : List Char} {i j k : ℕ} :
    (∃ r, splitAt hostport host i j k = .ok r) ↔ '[' ∉ hostport.drop j ∧ ']' ∉ hostport.drop k := by
  unfold splitAt
  split_ifs with hopen hclose
  · simp [hopen]
  · simp [hclose]
  · simp [hopen, hclose]

theorem notMem_marks {s : List Char} (hcolon : ':' ∉ s) (hopen : '[' ∉ s) (hclose : ']' ∉ s) :
    ∀ c ∈ s, c ∉ [':', '[', ']'] := by
  intro c hc hmark
  simp only [List.mem_cons, List.not_mem_nil, or_false] at hmark
  obtain rfl | rfl | rfl := hmark
  · exact hcolon hc
  · exact hopen hc
  · exact hclose hc

theorem address_of_bracketed {l port : List Char} {close : ℕ} (hport : ':' ∉ port)
    (hhead : (l ++ ':' :: port).head? = some '[')
    (hclose : (l ++ ':' :: port).idxOf? ']' = some close) (hlength : close + 1 = l.length)
    (hopens : '[' ∉ (l ++ ':' :: port).drop 1) (hcloses : ']' ∉ (l ++ ':' :: port).drop (close + 1)) :
    Address (l ++ ':' :: port) := by
  obtain ⟨before, after, hsplit, hbefore, rfl⟩ := exists_of_idxOf hclose
  have hsame : l ++ ':' :: port = (before ++ [']']) ++ after := by
    rw [hsplit, List.append_assoc]
    rfl
  obtain ⟨rfl, -⟩ := List.append_inj hsame (by simpa using hlength.symm)
  rw [hlength, List.drop_left] at hcloses
  cases before with
  | nil => cases hhead
  | cons c host =>
    obtain rfl : c = '[' := Option.some.inj hhead
    simp only [List.cons_append, List.drop_succ_cons, List.drop_zero, List.append_assoc,
      List.mem_append, List.mem_cons, not_or] at hopens hcloses hbefore ⊢
    refine .bracketed host port (fun c hc hmark => ?_) (notMem_marks hport hopens.2.2.2.2 hcloses.2)
    simp only [List.mem_cons, List.not_mem_nil, or_false] at hmark
    obtain rfl | rfl := hmark
    · exact hopens.1 hc
    · exact hbefore.2 hc

/-- The host and the port are found in exactly the well-formed addresses. -/
theorem splitHostPort_ok_iff {s : List Char} : (∃ r, splitHostPort s = .ok r) ↔ Address s := by
  constructor
  · rintro ⟨r, h⟩
    unfold splitHostPort at h
    cases hlast : lastIndex ':' s with
    | none =>
      rw [hlast] at h
      cases h
    | some i =>
      obtain ⟨l, port, rfl, hport, rfl⟩ := exists_of_lastIndex hlast
      rw [hlast] at h
      dsimp only at h
      by_cases hhead : (l ++ ':' :: port).head? = some '['
      · rw [if_pos hhead] at h
        cases hclose : (l ++ ':' :: port).idxOf? ']' with
        | none =>
          rw [hclose] at h
          cases h
        | some close =>
          rw [hclose] at h
          dsimp only at h
          split_ifs at h with hend hlength
          obtain ⟨hopens, hcloses⟩ := splitAt_ok_iff.mp ⟨r, h⟩
          exact address_of_bracketed hport hhead hclose hlength hopens hcloses
      · rw [if_neg hhead, List.take_left] at h
        split_ifs at h with hcolon
        obtain ⟨hopens, hcloses⟩ := splitAt_ok_iff.mp ⟨r, h⟩
        simp only [List.drop_zero, List.mem_append, List.mem_cons, not_or] at hopens hcloses
        exact .plain l port (notMem_marks hcolon hopens.1 hcloses.1)
          (notMem_marks hport hopens.2.2 hcloses.2.2)
  · rintro (⟨host, port, hhost, hport⟩ | ⟨host, port, hhost, hport⟩)
    · have hlast : lastIndex ':' (host ++ ':' :: port) = some host.length :=
        lastIndex_append host fun h => hport _ h (by decide)
      have hhead : (host ++ ':' :: port).head? ≠ some '[' := by
        cases host with
        | nil => simp
        | cons c host =>
          intro hc
          exact hhost c List.mem_cons_self (by simp [Option.some.inj hc])
      unfold splitHostPort
      rw [hlast]
      dsimp only
      rw [if_neg hhead, List.take_left, if_neg fun h => hhost _ h (by decide), splitAt_ok_iff,
        List.drop_zero]
      simp only [List.mem_append, List.mem_cons, not_or]
      exact ⟨⟨fun h => hhost _ h (by decide), by decide, fun h => hport _ h (by decide)⟩,
        fun h => hhost _ h (by decide), by decide, fun h => hport _ h (by decide)⟩
    · have hsplit : '[' :: host ++ ']' :: ':' :: port = ('[' :: host ++ [']']) ++ ':' :: port := by simp
      have hlast : lastIndex ':' ('[' :: host ++ ']' :: ':' :: port) = some (host.length + 2) := by
        rw [hsplit, lastIndex_append _ fun h => hport _ h (by decide)]
        simp
      have hclose : ('[' :: host ++ ']' :: ':' :: port).idxOf? ']' = some (host.length + 1) := by
        rw [idxOf_append]
        · rfl
        · rw [List.mem_cons, not_or]
          exact ⟨by decide, fun h => hhost _ h (by decide)⟩
      have hhead : ('[' :: host ++ ']' :: ':' :: port).head? = some '[' := rfl
      have hend : host.length + 1 + 1 ≠ ('[' :: host ++ ']' :: ':' :: port).length := by simp
      have hlength : host.length + 1 + 1 = host.length + 2 := rfl
      unfold splitHostPort
      rw [hlast, hclose]
      dsimp only
      rw [if_pos hhead, if_neg hend, if_pos hlength, splitAt_ok_iff]
      have hdrop : ('[' :: host ++ ']' :: ':' :: port).drop (host.length + 1 + 1) = ':' :: port := by
        rw [hsplit]
        exact List.drop_left' (by simp)
      rw [hdrop]
      simp only [List.cons_append, List.drop_succ_cons, List.drop_zero, List.mem_append,
        List.mem_cons, not_or]
      exact ⟨⟨fun h => hhost _ h (by decide), by decide, by decide, fun h => hport _ h (by decide)⟩,
        by decide, fun h => hport _ h (by decide)⟩

section Sequences

variable {ε α β : Type}

theorem bind_eq_ok {x : Except ε α} {f : α → Except ε β} {b : β} :
    (x >>= f) = .ok b ↔ ∃ a, x = .ok a ∧ f a = .ok b := by
  cases x <;> simp [bind, Except.bind]

theorem seq_eq_ok {x : Except ε Unit} {f : Unit → Except ε β} {b : β} :
    (x >>= f) = .ok b ↔ x = .ok () ∧ f () = .ok b := by
  cases x <;> simp [bind, Except.bind]

theorem mapError_eq_ok {ε' : Type} {f : ε → ε'} {x : Except ε α} {a : α} :
    x.mapError f = .ok a ↔ x = .ok a := by
  cases x <;> simp [Except.mapError]

end Sequences

theorem require_eq_ok {p : Prop} [Decidable p] {text : String} : require p text = .ok () ↔ p := by
  unfold require
  split_ifs with hp <;> simp [hp]

theorem validateAddress_eq_ok {rt : Runtime} {field addr : String} :
    validateAddress rt field addr = .ok () ↔ Address addr.toList := by
  rw [← splitHostPort_ok_iff]
  unfold validateAddress
  cases splitHostPort addr.toList <;> simp

theorem validateFile_eq_ok {rt : Runtime} {field path : String} :
    validateFile rt field path = .ok () ↔ (path ≠ "" → rt.stat path = .ok ()) := by
  unfold validateFile
  split_ifs with hpath
  · simp [hpath]
  · cases rt.stat path <;> simp [hpath]

/-- The certificate comes with its key and the authority with both, and the files are
there. -/
structure TLS.Valid (rt : Runtime) (t : TLS) : Prop where
  pair : t.certFile = "" ↔ t.keyFile = ""
  clientCA : t.clientCAFile ≠ "" → t.certFile ≠ ""
  files : ∀ path ∈ [t.certFile, t.keyFile, t.clientCAFile], path ≠ "" → rt.stat path = .ok ()

theorem TLS.validate_eq_ok {rt : Runtime} {block : String} {t : TLS} :
    t.validate rt block = .ok () ↔ t.Valid rt := by
  unfold TLS.validate
  simp only [seq_eq_ok, require_eq_ok, validateFile_eq_ok]
  constructor
  · rintro ⟨hpair, hclientCA, hcert, hkey, hca⟩
    refine ⟨hpair, fun hne hempty => hclientCA ⟨hne, hempty⟩, ?_⟩
    simpa using ⟨hcert, hkey, hca⟩
  · rintro ⟨hpair, hclientCA, hfiles⟩
    refine ⟨hpair, fun h => hclientCA h.1 h.2, ?_⟩
    simpa using hfiles

/-- The roles are known, and each rule is of a known kind with a text. -/
structure AuthValid (auth : Auth) : Prop where
  defaultRole : auth.defaultRole ∈ validRoles
  rules : ∀ r ∈ auth.roleMapping, (r.matchKind = "exact" ∨ r.matchKind = "prefix") ∧
    r.spiffeID ≠ [] ∧ (r.role = "viewer" ∨ r.role = "admin")

theorem validateRules_eq_ok {quote : String → String} {i : ℕ} {rules : List RoleRule} :
    validateRules quote i rules = .ok () ↔
      ∀ r ∈ rules, (r.matchKind = "exact" ∨ r.matchKind = "prefix") ∧ r.spiffeID ≠ [] ∧
        (r.role = "viewer" ∨ r.role = "admin") := by
  induction rules generalizing i with
  | nil => simp [validateRules]
  | cons r rules ih =>
    have hrule : validateRule quote i r = .ok () ↔ (r.matchKind = "exact" ∨ r.matchKind = "prefix") ∧
        r.spiffeID ≠ [] ∧ (r.role = "viewer" ∨ r.role = "admin") := by
      unfold validateRule
      split_ifs with hkind hempty hrole
      · simp [hkind]
      · simp [hempty]
      · simp [hrole]
      · simp only [not_and_or, not_not] at hkind hrole
        simp [hkind, hempty, hrole]
    rw [validateRules, seq_eq_ok, List.forall_mem_cons, hrule, ih]

theorem validate_auth_eq_ok {quote : String → String} {auth : Auth} :
    auth.validate quote = .ok () ↔ AuthValid auth := by
  unfold Auth.validate
  split_ifs with hrole
  · rw [validateRules_eq_ok]
    exact ⟨fun h => ⟨hrole, h⟩, fun h => h.rules⟩
  · exact ⟨False.elim, fun h => absurd h.defaultRole hrole⟩

structure FleetValid (fleet : Fleet) : Prop where
  heartbeatInterval : 0 < fleet.heartbeatInterval.toInt
  staleMissedHeartbeats : 0 < fleet.staleMissedHeartbeats.toInt
  softDeleteDuration : 0 < fleet.softDeleteDuration.toInt
  shardCount : 0 ≤ fleet.shardCount.toInt

theorem validate_fleet_eq_ok {fleet : Fleet} : fleet.validate = .ok () ↔ FleetValid fleet := by
  unfold Fleet.validate
  split_ifs with hinterval hmissed hduration hshards
  · exact ⟨False.elim, fun h => absurd h.heartbeatInterval (not_lt.mpr hinterval)⟩
  · exact ⟨False.elim, fun h => absurd h.staleMissedHeartbeats (not_lt.mpr hmissed)⟩
  · exact ⟨False.elim, fun h => absurd h.softDeleteDuration (not_lt.mpr hduration)⟩
  · exact ⟨False.elim, fun h => absurd h.shardCount (not_le.mpr hshards)⟩
  · exact ⟨fun _ => ⟨not_le.mp hinterval, not_le.mp hmissed, not_le.mp hduration, not_lt.mp hshards⟩,
      fun _ => rfl⟩

/-- What is accepted. -/
structure Valid (rt : Runtime) (c : Config) : Prop where
  addresses : ∀ addr ∈ [c.listeners.opamp, c.listeners.ui, c.listeners.telemetry],
    Address addr.toList
  opampTLS : c.opampTLS.Valid rt
  uiTLS : c.uiTLS.Valid rt
  telemetryTLS : c.telemetryTLS.Valid rt
  auth : AuthValid c.auth
  level : c.log.level ∈ ["debug", "info", "warn", "error"]
  format : c.log.format ∈ ["text", "json"]
  fleet : FleetValid c.fleet
  perAgentSeriesLimit : 0 ≤ c.perAgentSeriesLimit.toInt
  pollInterval : 0 < c.pollInterval.toInt
  port : 1 ≤ c.database.port.toInt ∧ c.database.port.toInt ≤ 65535

theorem validate_eq_ok {rt : Runtime} {c : Config} : c.validate rt = .ok () ↔ Valid rt c := by
  unfold Config.validate
  simp only [seq_eq_ok, validateAddress_eq_ok, TLS.validate_eq_ok,
    validate_auth_eq_ok, validate_fleet_eq_ok, require_eq_ok]
  constructor
  · rintro ⟨hopamp, hui, htelemetry, hopampTLS, huiTLS, htelemetryTLS, hauth, hlevel, hformat,
      hfleet, hlimit, hpoll, hport⟩
    refine ⟨?_, hopampTLS, huiTLS, htelemetryTLS, hauth, hlevel, hformat, hfleet, hlimit, hpoll,
      hport⟩
    simpa using ⟨hopamp, hui, htelemetry⟩
  · rintro ⟨haddresses, hopampTLS, huiTLS, htelemetryTLS, hauth, hlevel, hformat, hfleet, hlimit,
      hpoll, hport⟩
    obtain ⟨hopamp, hui, htelemetry⟩ : Address c.listeners.opamp.toList ∧
        Address c.listeners.ui.toList ∧ Address c.listeners.telemetry.toList := by
      simpa using haddresses
    exact ⟨hopamp, hui, htelemetry, hopampTLS, huiTLS, htelemetryTLS, hauth, hlevel, hformat,
      hfleet, hlimit, hpoll, hport⟩

/-- A configuration is loaded exactly if the file can be read over the defaults, every override
that is set can be read, and the settings with their overrides are well formed. -/
theorem load_eq_ok_iff (rt : Runtime) (readFile : String → Except String Bytes)
    (decode : Bytes → Config → Except String Config) (env : String → Option String)
    (path : String) (c : Config) : load rt readFile decode env path = .ok c ↔
      ∃ raw file, readFile path = .ok raw ∧ decode raw defaults = .ok file ∧
        Overridden rt env file c ∧ Valid rt c := by
  unfold load
  simp only [bind_eq_ok, mapError_eq_ok, override_eq_ok_iff]
  constructor
  · rintro ⟨raw, hraw, file, hfile, _, hover, ⟨⟩, hvalid, hend⟩
    obtain rfl := Except.ok.inj hend
    exact ⟨raw, file, hraw, hfile, hover, validate_eq_ok.mp hvalid⟩
  · rintro ⟨raw, file, hraw, hfile, hover, hvalid⟩
    exact ⟨raw, hraw, file, hfile, c, hover, (), validate_eq_ok.mpr hvalid, rfl⟩

/-- The defaults are accepted as they are. -/
example : (load ⟨id, fun _ => .error "", id, id, fun _ => .error ""⟩ (fun _ => .ok [])
    (fun _ c => .ok c) (fun _ => none) "config.yaml").toBool := by
  decide +kernel

end Grex.Settings
