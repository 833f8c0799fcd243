import Grex.Reads
import Grex.SortedWindows
import Grex.Sql

/-!
The statements of the Postgres store, column by column. An agent is spread over
positional argument lists, JSON objects, signed integers and nullable timestamps, and
is put together again by a positional scan of a join. Here the tables hold plain
values; the rows of the other modules are what these values stand for.
-/

namespace Grex.Statements

open GoTime AgentState Sql

/-! ### Agents in memory -/

/-- A map or a slice that may be nil. -/
abbrev GoMap (α : Type) := Option (FinMap String α)

abbrev GoSlice := Option (List String)

/-- An agent as the registry and the store hand it to each other, nil maps and slices
told apart from empty ones. -/
structure AgentValue where
  instanceUID : String := ""
  sequenceNum : UInt64 := 0
  identifying : GoMap String := none
  nonIdentifying : GoMap String := none
  capabilities : UInt64 := 0
  healthy : Bool := false
  healthError : String := ""
  healthStatus : String := ""
  healthStartTime : ℤ := zeroTime
  healthStatusTime : ℤ := zeroTime
  healthReported : Bool := false
  descriptionReported : Bool := false
  effectiveConfig : GoMap String := none
  packages : GoMap Package := none
  conn : ConnMeta := {}
  connected : Bool := false
  firstSeen : ℤ := zeroTime
  lastSeen : ℤ := zeroTime
  missingAttributes : GoSlice := none
  reservedAttributeConflicts : GoSlice := none
  evictedAt : Option ℤ := none
  sessionUpdatedAt : ℤ := zeroTime

/-- The agent with nil and empty identified. -/
def AgentValue.toAgent (a : AgentValue) : Agent where
  instanceUID := a.instanceUID
  sequenceNum := a.sequenceNum
  identifying := a.identifying.getD ∅
  nonIdentifying := a.nonIdentifying.getD ∅
  capabilities := a.capabilities
  healthy := a.healthy
  healthError := a.healthError
  healthStatus := a.healthStatus
  healthStartTime := a.healthStartTime
  healthStatusTime := a.healthStatusTime
  healthReported := a.healthReported
  descriptionReported := a.descriptionReported
  effectiveConfig := a.effectiveConfig.getD ∅
  packages := a.packages.getD ∅
  conn := a.conn
  connected := a.connected
  firstSeen := a.firstSeen
  lastSeen := a.lastSeen
  missingAttributes := a.missingAttributes.getD []
  reservedAttributeConflicts := a.reservedAttributeConflicts.getD []
  evictedAt := a.evictedAt
  sessionUpdatedAt := a.sessionUpdatedAt

/-! ### Columns -/

inductive AgentColumn
  | instanceUID
  | firstSeen
  | lastSeen
  | healthy
  | healthError
  | healthStatus
  | healthStartTime
  | healthStatusTime
  | healthReported
  | capabilities
  | identifying
  | nonIdentifying
  | missingAttributes
  | reservedAttributeConflicts
  | evictedAt
  | packages
  | updatedAt
  deriving DecidableEq

inductive SessionColumn
  | instanceUID
  | connected
  | remoteAddr
  | tlsSubject
  | viaGateway
  | transport
  | descriptionReported
  | sequenceNum
  | updatedAt
  deriving DecidableEq

inductive ConfigColumn
  | instanceUID
  | filename
  | body
  | updatedAt
  deriving DecidableEq

def agentsSchema : Schema AgentColumn where
  columns := [.instanceUID, .firstSeen, .lastSeen, .healthy, .healthError, .healthStatus,
    .healthStartTime, .healthStatusTime, .healthReported, .capabilities, .identifying,
    .nonIdentifying, .missingAttributes, .reservedAttributeConflicts, .evictedAt, .packages,
    .updatedAt]
  type
    | .instanceUID | .healthError | .healthStatus => .text
    | .healthy | .healthReported => .bool
    | .capabilities => .bigint
    | .firstSeen | .lastSeen | .healthStartTime | .healthStatusTime | .evictedAt | .updatedAt =>
        .timestamptz
    | .identifying | .nonIdentifying | .packages => .jsonb
    | .missingAttributes | .reservedAttributeConflicts => .textArray
  nullable
    | .healthStartTime | .healthStatusTime | .evictedAt => true
    | _ => false

def sessionSchema : Schema SessionColumn where
  columns := [.instanceUID, .connected, .remoteAddr, .tlsSubject, .viaGateway, .transport,
    .descriptionReported, .sequenceNum, .updatedAt]
  type
    | .instanceUID | .remoteAddr | .tlsSubject | .transport => .text
    | .connected | .viaGateway | .descriptionReported => .bool
    | .sequenceNum => .bigint
    | .updatedAt => .timestamptz
  nullable _ := false

def configSchema : Schema ConfigColumn where
  columns := [.instanceUID, .filename, .body, .updatedAt]
  type
    | .instanceUID | .filename | .body => .text
    | .updatedAt => .timestamptz
  nullable _ := false

structure Store where
  agents : FinMap String (Row AgentColumn) := ∅
  sessions : FinMap String (Row SessionColumn) := ∅
  configs : FinMap (String × String) (Row ConfigColumn) := ∅

/-! ### Arguments -/

/-- `json.Marshal` of one package; an empty text is left out, the name apart. -/
def marshalPackage (p : Package) : FinMap String String :=
  [("agent_has_version", p.agentHasVersion), ("server_offered_version", p.serverOfferedVersion),
    ("status", p.status), ("error_message", p.errorMessage)].foldl
    (fun m field => if field.2 = "" then m else m.insert field.1 field.2)
    ((∅ : FinMap String String).insert "name" p.name)

def marshalTexts (m : GoMap String) : Value :=
  .jsonb ((m.getD ∅).filterMap fun _ s => some (.text s))

def marshalPackages (m : GoMap Package) : Value :=
  .jsonb ((m.getD ∅).filterMap fun _ p => some (.object (marshalPackage p)))

/-- The driver sends a nil slice as NULL. -/
def sliceValue : GoSlice → Value
  | none => .null
  | some l => .textArray l

def nonNilStringSlice (s : GoSlice) : GoSlice := some (s.getD [])

def timeValue (t : ℤ) : Value := .timestamptz (micros t)

def nullTime (t : ℤ) : Value := if t = zeroTime then .null else timeValue t

def agentColumns : List AgentColumn :=
  [.instanceUID, .firstSeen, .lastSeen, .healthy, .healthError,
    .healthStatus, .healthStartTime, .healthStatusTime, .healthReported,
    .capabilities, .identifying, .nonIdentifying, .missingAttributes,
    .reservedAttributeConflicts, .packages, .updatedAt]

def agentArgs (a : AgentValue) : List Value :=
  [.text a.instanceUID, timeValue a.firstSeen, timeValue a.lastSeen, .bool a.healthy,
    .text a.healthError,
    .text a.healthStatus, nullTime a.healthStartTime, nullTime a.healthStatusTime,
    .bool a.healthReported,
    .bigint a.capabilities.toInt64,
    marshalTexts a.identifying, marshalTexts a.nonIdentifying,
    sliceValue (nonNilStringSlice a.missingAttributes),
    sliceValue (nonNilStringSlice a.reservedAttributeConflicts), marshalPackages a.packages,
    timeValue a.lastSeen]

/-- The columns of `DO UPDATE SET`; neither `first_seen` nor `evicted_at` is one. -/
def agentUpdates : List AgentColumn :=
  [.lastSeen, .healthy, .healthError, .healthStatus, .healthStartTime, .healthStatusTime,
    .healthReported, .capabilities, .identifying, .nonIdentifying, .missingAttributes,
    .reservedAttributeConflicts, .packages, .updatedAt]

def sessionColumns : List SessionColumn :=
  [.instanceUID, .connected, .remoteAddr, .tlsSubject, .viaGateway,
    .transport, .descriptionReported, .sequenceNum, .updatedAt]

def sessionArgs (a : AgentValue) : List Value :=
  [.text a.instanceUID, .bool a.connected, .text a.conn.remoteAddr, .text a.conn.tlsSubject,
    .bool a.conn.viaGateway,
    .text a.conn.transport, .bool a.descriptionReported, .bigint a.sequenceNum.toInt64,
    timeValue a.lastSeen]

def sessionUpdates : List SessionColumn :=
  [.connected, .remoteAddr, .tlsSubject, .viaGateway, .transport, .descriptionReported,
    .sequenceNum, .updatedAt]

def configColumns : List ConfigColumn := [.instanceUID, .filename, .body, .updatedAt]

def configArgs (a : AgentValue) (filename body : String) : List Value :=
  [.text a.instanceUID, .text filename, .text body, timeValue a.lastSeen]

/-! ### Writes -/

/-- The agents upsert of `SaveAgent`; the flag is `RowsAffected() > 0`. -/
def upsertAgents (db : Store) (a : AgentValue) : Option (Store × Bool) :=
  (insertRow agentsSchema agentColumns (agentArgs a)).map fun excluded =>
    let (agents, agentsUpdated) := upsert db.agents a.instanceUID excluded agentUpdates
      fun row excluded => (row .updatedAt).before (excluded .updatedAt)
    ({ db with agents := agents }, agentsUpdated)

/-- `saveSessionUpsert`; a new row has to refer to an agents row. -/
def saveSession (db : Store) (a : AgentValue) : Option Store :=
  (insertRow sessionSchema sessionColumns (sessionArgs a)).bind fun excluded =>
    if a.instanceUID ∈ db.agents.keys then
      some { db with
        sessions := (upsert db.sessions a.instanceUID excluded sessionUpdates
          fun row excluded => (row .updatedAt).notAfter (excluded .updatedAt)).1 }
    else none

/-- `DELETE FROM agent_effective_config WHERE instance_uid = $1`. -/
def clearConfig (db : Store) (id : String) : Store :=
  { db with configs := db.configs.filterMap fun key row => if key.1 = id then none else some row }

/-- One insert into `agent_effective_config`; a second row of the same file is refused. -/
def insertConfig (a : AgentValue) (db : Store) (file : String × String) : Option Store :=
  (insertRow configSchema configColumns (configArgs a file.1 file.2)).bind fun row =>
    if a.instanceUID ∈ db.agents.keys ∧ (a.instanceUID, file.1) ∉ db.configs.keys then
      some { db with configs := db.configs.insert (a.instanceUID, file.1) row }
    else none

/-- The files in the order the map is iterated over. -/
def filesInOrder (a : AgentValue) (order : List String) : List (String × String) :=
  order.filterMap fun file => ((a.effectiveConfig.getD ∅).find file).map fun body => (file, body)

/-- `SaveAgent`, in one transaction: `none` is rolled back. -/
def saveAgent (db : Store) (a : AgentValue) (order : List String) : Option Store := do
  let (db, agentsUpdated) ← upsertAgents db a
  let db ← saveSession db a
  if agentsUpdated then
    (filesInOrder a order).foldlM (insertConfig a) (clearConfig db a.instanceUID)
  else some db

/-- `UPDATE agents SET evicted_at = $2 WHERE instance_uid = $1 AND evicted_at IS NULL`. -/
def softDeleteAgent (db : Store) (id : String) (evictedAt : ℤ) : Option Store :=
  if storableText id ∧ (timeValue evictedAt).storable then
    some { db with
      agents := db.agents.set id ((db.agents.find id).map fun row =>
        if row .evictedAt = .null then
          fun c => if c = .evictedAt then timeValue evictedAt else row c
        else row) }
  else none

/-- Delete the chosen agents rows; the rows that refer to them go with them. -/
def deleteWhere (db : Store) (chosen : String → Row AgentColumn → Bool) : Store :=
  let kept := fun id => (db.agents.find id).any fun row => !chosen id row
  { agents := db.agents.filterMap fun id row => if chosen id row then none else some row
    sessions := db.sessions.filterMap fun id row => if kept id then some row else none
    configs := db.configs.filterMap fun key row => if kept key.1 then some row else none }

def deleteAgent (db : Store) (id : String) : Option Store :=
  if storableText id then some (deleteWhere db fun j _ => decide (j = id)) else none

/-- `PurgeWorker.Work`: `evicted_at IS NOT NULL AND evicted_at < $1`. -/
def purge (db : Store) (before : ℤ) : Option Store :=
  if (timeValue before).storable then
    some (deleteWhere db fun _ row => (row .evictedAt).before (timeValue before))
  else none

/-! ### Reads -/

/-- The variables of `scanAgent`. -/
structure Scanned where
  a : AgentValue := {}
  healthStartTime : Option ℤ := none
  healthStatusTime : Option ℤ := none
  evictedAt : Option ℤ := none
  capabilities : Int64 := 0
  sequenceNum : Int64 := 0
  identifying : FinMap String Json := ∅
  nonIdentifying : FinMap String Json := ∅
  packages : FinMap String Json := ∅
  connected : Option Bool := none
  viaGateway : Option Bool := none
  remoteAddr : Option String := none
  tlsSubject : Option String := none
  transport : Option String := none
  sessionUpdatedAt : Option ℤ := none

/-- The columns of the query: those of the agents row, and those of the session row,
which are NULL where the join found none. -/
def selectColumns : List (AgentColumn ⊕ SessionColumn) :=
  [.inl .instanceUID, .inl .firstSeen, .inl .lastSeen, .inl .healthy, .inl .healthError,
    .inl .healthStatus, .inl .healthStartTime, .inl .healthStatusTime, .inl .healthReported,
    .inl .capabilities, .inl .identifying, .inl .nonIdentifying, .inl .missingAttributes,
    .inl .reservedAttributeConflicts, .inl .packages, .inl .evictedAt,
    .inr .connected, .inr .remoteAddr, .inr .tlsSubject, .inr .viaGateway, .inr .transport,
    .inr .descriptionReported, .inr .sequenceNum, .inr .updatedAt]

def joined (row : Row AgentColumn) (session : Option (Row SessionColumn)) :
    AgentColumn ⊕ SessionColumn → Value
  | .inl c => row c
  | .inr c => (session.map fun s => s c).getD .null

/-- The arguments of `rows.Scan`. -/
def scanTargets : List (Target Scanned) :=
  [target readText fun x s => { s with a := { s.a with instanceUID := x } },
    target readTime fun x s => { s with a := { s.a with firstSeen := x } },
    target readTime fun x s => { s with a := { s.a with lastSeen := x } },
    target readBool fun x s => { s with a := { s.a with healthy := x } },
    target readText fun x s => { s with a := { s.a with healthError := x } },
    target readText fun x s => { s with a := { s.a with healthStatus := x } },
    target (pointer readTime) fun x s => { s with healthStartTime := x },
    target (pointer readTime) fun x s => { s with healthStatusTime := x },
    target readBool fun x s => { s with a := { s.a with healthReported := x } },
    target readInt fun x s => { s with capabilities := x },
    target readJson fun x s => { s with identifying := x },
    target readJson fun x s => { s with nonIdentifying := x },
    target readTexts fun x s => { s with a := { s.a with missingAttributes := some x } },
    target readTexts fun x s => { s with a := { s.a with reservedAttributeConflicts := some x } },
    target readJson fun x s => { s with packages := x },
    target (pointer readTime) fun x s => { s with evictedAt := x },
    target (pointer readBool) fun x s => { s with connected := x },
    target (pointer readText) fun x s => { s with remoteAddr := x },
    target (pointer readText) fun x s => { s with tlsSubject := x },
    target (pointer readBool) fun x s => { s with viaGateway := x },
    target (pointer readText) fun x s => { s with transport := x },
    target readBool fun x s => { s with a := { s.a with descriptionReported := x } },
    target readInt fun x s => { s with sequenceNum := x },
    target (pointer readTime) fun x s => { s with sessionUpdatedAt := x }]

def leafText : Json → Option String
  | .text s => some s
  | .object _ => none

def unmarshalPackage : Json → Option Package
  | .text _ => none
  | .object fields => some {
      name := (fields.find "name").getD ""
      agentHasVersion := (fields.find "agent_has_version").getD ""
      serverOfferedVersion := (fields.find "server_offered_version").getD ""
      status := (fields.find "status").getD ""
      errorMessage := (fields.find "error_message").getD "" }

/-- `json.Unmarshal` into a map; an empty one is set to nil. -/
def unmarshal {α : Type} (leaf : Json → Option α) (object : FinMap String Json) :
    Option (GoMap α) :=
  if ∀ k ∈ object.keys, ((object.find k).bind leaf).isSome then
    some (if object.size = 0 then none else some (object.filterMap fun _ j => leaf j))
  else none

/-- `scanAgent` on the values of one row. -/
def scanAgent (values : List Value) : Option AgentValue := do
  let s ← scan scanTargets values {}
  let identifying ← unmarshal leafText s.identifying
  let nonIdentifying ← unmarshal leafText s.nonIdentifying
  let packages ← unmarshal unmarshalPackage s.packages
  return { s.a with
    capabilities := s.capabilities.toUInt64
    sequenceNum := s.sequenceNum.toUInt64
    evictedAt := s.evictedAt
    healthStartTime := s.healthStartTime.getD s.a.healthStartTime
    healthStatusTime := s.healthStatusTime.getD s.a.healthStatusTime
    connected := s.connected.getD s.a.connected
    conn := {
      viaGateway := s.viaGateway.getD s.a.conn.viaGateway
      remoteAddr := s.remoteAddr.getD s.a.conn.remoteAddr
      tlsSubject := s.tlsSubject.getD s.a.conn.tlsSubject
      transport := s.transport.getD s.a.conn.transport }
    sessionUpdatedAt := s.sessionUpdatedAt.getD s.a.sessionUpdatedAt
    identifying := identifying
    nonIdentifying := nonIdentifying
    packages := packages }

/-- The config files of one agent; nil where there are none. -/
def effectiveConfig (db : Store) (id : String) : Option (GoMap String) :=
  let files := (db.configs.keys.filter fun key => key.1 = id).image Prod.snd
  let body := fun file => (db.configs.find (id, file)).bind fun row => readText (row .body)
  if ∀ file ∈ files, (body file).isSome then
    some (if files = ∅ then none else some
      { find := fun file => if file ∈ files then body file else none
        keys := files.filter fun file => (body file).isSome
        mem_keys := fun file => by
          rw [Finset.mem_filter]
          by_cases hfile : file ∈ files <;> simp [hfile] })
  else none

/-- One agent of a query: its row scanned, then its config files. -/
def readAgent (db : Store) (id : String) (row : Row AgentColumn) : Option AgentValue := do
  let a ← scanAgent (selectColumns.map (joined row (db.sessions.find id)))
  let config ← effectiveConfig db a.instanceUID
  return { a with effectiveConfig := config }

/-- `GetAgent`; the outer `none` is an error. -/
def getAgent (db : Store) (id : String) : Option (Option AgentValue) :=
  if storableText id then
    match db.agents.find id with
    | none => some none
    | some row => (readAgent db id row).map some
  else none

/-- `ListAgents`, in the order of the uids. -/
def listAgents (db : Store) : Option (List AgentValue) :=
  (SortedWindows.sorted db.agents.keys).mapM fun id => (db.agents.find id).bind (readAgent db id)

end Grex.Statements
