import Grex.AgentState
import Grex.Message

/-!
Registry operations on one agent's slot, as the sequences of assignments and
notifications the code performs under the shard lock. A stage is a block of
assignments followed by the notifications fired before the next assignment, so
an observer of the notifications can be interleaved between stages. Running
all stages at once is the whole operation.
-/

namespace Grex.AgentProgram

open GoTime AgentState Message

/-- The agent stored in a slot is the one the slot is named after. -/
def Keyed (id : String) (slot : Option Agent) : Prop :=
  ∀ a, slot = some a → a.instanceUID = id

/-- One block of assignments to the slot of `id` and the notifications that
follow it. The slot stays named after its agent. -/
structure Stage (id : String) where
  run : Option Agent → Option Agent × List Event
  keeps : ∀ slot, Keyed id slot → Keyed id (run slot).1
  about : ∀ slot, Keyed id slot → ∀ e ∈ (run slot).2, e.about = id

/-- A stage that acts on a present agent and leaves an empty slot alone. -/
def Stage.onAgent {id : String} (f : Agent → Agent × List Event)
    (hid : ∀ a, (f a).1.instanceUID = a.instanceUID)
    (hev : ∀ a, a.instanceUID = id → ∀ e ∈ (f a).2, e.about = id) : Stage id where
  run
    | none => (none, [])
    | some a => (some (f a).1, (f a).2)
  keeps slot hslot a ha := by
    cases slot with
    | none => simp at ha
    | some b =>
      have hab : (f b).1 = a := Option.some.inj ha
      rw [← hab, hid b, hslot b rfl]
  about slot hslot e he := by
    cases slot with
    | none => simp at he
    | some b => exact hev b (hslot b rfl) e he

/-- An assignment that fires nothing. -/
def Stage.assign {id : String} (f : Agent → Agent)
    (hid : ∀ a, (f a).instanceUID = a.instanceUID) : Stage id :=
  Stage.onAgent (fun a => (f a, [])) hid (by simp)

/-- Notifications that assign nothing. -/
def Stage.fire {id : String} (f : Agent → List Event)
    (hev : ∀ a, a.instanceUID = id → ∀ e ∈ f a, e.about = id) : Stage id :=
  Stage.onAgent (fun a => (a, f a)) (fun _ => rfl) hev

def runProgram {id : String} : List (Stage id) → Option Agent → Option Agent × List Event
  | [], slot => (slot, [])
  | st :: rest, slot =>
      ((runProgram rest (st.run slot).1).1, (st.run slot).2 ++ (runProgram rest (st.run slot).1).2)

theorem runProgram_append {id : String} (p q : List (Stage id)) (slot : Option Agent) :
    runProgram (p ++ q) slot =
      ((runProgram q (runProgram p slot).1).1,
        (runProgram p slot).2 ++ (runProgram q (runProgram p slot).1).2) := by
  induction p generalizing slot with
  | nil => rfl
  | cons st rest ih =>
    have htail := ih (st.run slot).1
    simp only [List.cons_append, runProgram, htail, List.append_assoc]

theorem runProgram_keyed {id : String} (p : List (Stage id)) (slot : Option Agent)
    (h : Keyed id slot) : Keyed id (runProgram p slot).1 := by
  induction p generalizing slot with
  | nil => exact h
  | cons st rest ih => exact ih (st.run slot).1 (st.keeps slot h)

theorem runProgram_about {id : String} (p : List (Stage id)) (slot : Option Agent)
    (h : Keyed id slot) : ∀ e ∈ (runProgram p slot).2, e.about = id := by
  induction p generalizing slot with
  | nil =>
    intro e he
    simp [runProgram] at he
  | cons st rest ih =>
    intro e he
    rcases List.mem_append.mp he with hhead | htail
    · exact st.about slot h e hhead
    · exact ih (st.run slot).1 (st.keeps slot h) e htail

/-! ### Report -/

def anyValueString : AnyValue → String
  | .stringValue text => text
  | .other printed => printed

/-- Later entries overwrite earlier ones with the same key. -/
def attrsToMap (attrs : List KeyValue) : FinMap String String :=
  attrs.foldl (fun m kv => m.insert kv.key (anyValueString kv.value)) ∅

/-- A timestamp of zero means the field is unset and keeps the old value. -/
def unixNano (ns : UInt64) (old : ℤ) : ℤ :=
  if ns ≠ 0 then int64 ns.toNat else old

def registered (id : String) (now : ℤ) : Agent := { instanceUID := id, firstSeen := now }

def touched (now : ℤ) (msg : AgentToServer) (conn : ConnMeta) (a : Agent) : Agent :=
  { a with
    lastSeen := now
    connected := true
    conn := conn
    sequenceNum := msg.sequenceNum
    capabilities := if msg.capabilities ≠ 0 then msg.capabilities else a.capabilities }

def described (desc : AgentDescription) (a : Agent) : Agent :=
  { a with
    descriptionReported := true
    identifying := attrsToMap desc.identifyingAttributes
    nonIdentifying := attrsToMap desc.nonIdentifyingAttributes }

def healthSet (health : ComponentHealth) (a : Agent) : Agent :=
  { a with
    healthReported := true
    healthy := health.healthy
    healthError := health.lastError
    healthStatus := health.status
    healthStartTime := unixNano health.startTimeUnixNano a.healthStartTime
    healthStatusTime := unixNano health.statusTimeUnixNano a.healthStatusTime }

def packageOf (p : PackageStatus) : Package where
  name := p.name
  agentHasVersion := p.agentHasVersion
  serverOfferedVersion := p.serverOfferedVersion
  status := p.status.string
  errorMessage := p.errorMessage

def packagesSet (pkgs : FinMap String PackageStatus) (a : Agent) : Agent :=
  { a with packages := pkgs.filterMap fun _ p => some (packageOf p) }

def configSet (cfgMap : FinMap String String) (a : Agent) : Agent :=
  { a with effectiveConfig := cfgMap }

def carries (a : Agent) (key : String) : Bool :=
  (a.identifying.find key).isSome || (a.nonIdentifying.find key).isSome

def missingRequired (cfg : Config) (a : Agent) : List String :=
  cfg.requiredAttributes.filter fun key => !carries a key

def reservedConflicts (a : Agent) : List String :=
  reservedAttributeKeys.filter fun key => carries a key

/-- Keys are announced only when the whole list changed. -/
def announced (old new : List String) (event : String → Event) : List Event :=
  if 0 < new.length ∧ old ≠ new then new.map event else []

theorem announced_about (old new : List String) (event : String → Event) (id : String)
    (h : ∀ key, (event key).about = id) : ∀ e ∈ announced old new event, e.about = id := by
  intro e he
  unfold announced at he
  split at he
  · obtain ⟨key, _, rfl⟩ := List.mem_map.mp he
    exact h key
  · simp at he

theorem not_mem_announced {old new : List String} {event : String → Event} {e : Event}
    (h : ∀ key, event key ≠ e) : e ∉ announced old new event := by
  intro he
  unfold announced at he
  split at he
  · obtain ⟨key, _, hkey⟩ := List.mem_map.mp he
    exact h key hkey
  · cases he

def checkRequiredAttributes {id : String} (cfg : Config) : Stage id :=
  Stage.onAgent
    (fun a => ({ a with missingAttributes := missingRequired cfg a },
      announced a.missingAttributes (missingRequired cfg a) (.missingAttribute a.instanceUID)))
    (fun _ => rfl)
    (fun _ ha => announced_about _ _ _ id fun _ => ha)

def checkReservedAttributeConflicts {id : String} : Stage id :=
  Stage.onAgent
    (fun a => ({ a with reservedAttributeConflicts := reservedConflicts a },
      announced a.reservedAttributeConflicts (reservedConflicts a)
        (.reservedAttributeConflict a.instanceUID)))
    (fun _ => rfl)
    (fun _ ha => announced_about _ _ _ id fun _ => ha)

def register (id : String) (now : ℤ) : Stage id where
  run
    | none => (some (registered id now), [])
    | some a => (some a, [])
  keeps slot hslot a ha := by
    cases slot with
    | none =>
      have hab : registered id now = a := Option.some.inj ha
      rw [← hab]
      rfl
    | some b => exact hslot a ha
  about slot _ e he := by
    cases slot <;> simp at he

def connectEvents (id : String) (a : Agent) : List Event :=
  if !a.connected then [.agentConnected id] else []

def received (id : String) (kind : ReportKind) : Stage id :=
  Stage.fire (fun _ => [.reportReceived id kind]) (by simp [Event.about])

def descriptionStages (cfg : Config) (id : String) : Option AgentDescription → List (Stage id)
  | none => []
  | some desc =>
      [received id .status, Stage.assign (described desc) fun _ => rfl,
        checkRequiredAttributes cfg, checkReservedAttributeConflicts]

def healthStages (id : String) : Option ComponentHealth → List (Stage id)
  | none => []
  | some health => [received id .health, Stage.assign (healthSet health) fun _ => rfl]

def packageStages (id : String) (pkgs : FinMap String PackageStatus) : List (Stage id) :=
  if 0 < pkgs.size then
    [received id .packageStatuses, Stage.assign (packagesSet pkgs) fun _ => rfl]
  else []

def configStages (id : String) (cfgMap : FinMap String String) : List (Stage id) :=
  if 0 < cfgMap.size then
    [received id .effectiveConfig, Stage.assign (configSet cfgMap) fun _ => rfl]
  else []

/-- `Registry.Report` after the uid is parsed, the clock read and the lock taken. -/
def reportProgram (cfg : Config) (id : String) (now : ℤ) (msg : AgentToServer)
    (conn : ConnMeta) : List (Stage id) :=
  [register id now,
    Stage.fire (connectEvents id) (by
      intro a _ e he
      unfold connectEvents at he
      split at he
      · obtain rfl := List.mem_singleton.mp he
        rfl
      · simp at he),
    Stage.assign (touched now msg conn) fun _ => rfl] ++
  descriptionStages cfg id msg.agentDescription ++ healthStages id msg.health ++
  packageStages id msg.getPackages ++ configStages id msg.getConfigMap

/-! What a report leaves in the slot, part by part. -/

def descriptionApplied (cfg : Config) : Option AgentDescription → Agent → Agent
  | none, a => a
  | some desc, a =>
      { described desc a with
        missingAttributes := missingRequired cfg (described desc a)
        reservedAttributeConflicts := reservedConflicts (described desc a) }

def healthApplied : Option ComponentHealth → Agent → Agent
  | none, a => a
  | some health, a => healthSet health a

def packagesApplied (pkgs : FinMap String PackageStatus) (a : Agent) : Agent :=
  if 0 < pkgs.size then packagesSet pkgs a else a

def configApplied (cfgMap : FinMap String String) (a : Agent) : Agent :=
  if 0 < cfgMap.size then configSet cfgMap a else a

/-- The agent a report leaves, from the one it found or has just registered. -/
def reported (cfg : Config) (now : ℤ) (msg : AgentToServer) (conn : ConnMeta)
    (a : Agent) : Agent :=
  configApplied msg.getConfigMap (packagesApplied msg.getPackages
    (healthApplied msg.health (descriptionApplied cfg msg.agentDescription
      (touched now msg conn a))))

/-- Applying what a message reports leaves the agent's presence as the message
itself set it. -/
theorem reported_presence (cfg : Config) (now : ℤ) (msg : AgentToServer) (conn : ConnMeta)
    (a : Agent) :
    (reported cfg now msg conn a).connected = true ∧ (reported cfg now msg conn a).lastSeen = now ∧
      (reported cfg now msg conn a).conn = conn := by
  unfold reported configApplied packagesApplied
  cases msg.agentDescription <;> cases msg.health <;> split <;> split <;> exact ⟨rfl, rfl, rfl⟩

theorem descriptionStages_slot (cfg : Config) (id : String) (desc : Option AgentDescription)
    (a : Agent) :
    (runProgram (descriptionStages cfg id desc) (some a)).1 =
      some (descriptionApplied cfg desc a) := by
  cases desc <;> rfl

theorem healthStages_slot (id : String) (health : Option ComponentHealth) (a : Agent) :
    (runProgram (healthStages id health) (some a)).1 = some (healthApplied health a) := by
  cases health <;> rfl

theorem packageStages_slot (id : String) (pkgs : FinMap String PackageStatus) (a : Agent) :
    (runProgram (packageStages id pkgs) (some a)).1 = some (packagesApplied pkgs a) := by
  unfold packageStages packagesApplied
  split <;> rfl

theorem configStages_slot (id : String) (cfgMap : FinMap String String) (a : Agent) :
    (runProgram (configStages id cfgMap) (some a)).1 = some (configApplied cfgMap a) := by
  unfold configStages configApplied
  split <;> rfl

/-- The agent found by a report: the stored one, or a freshly registered one. -/
def found (id : String) (now : ℤ) (slot : Option Agent) : Agent :=
  slot.getD (registered id now)

/-- The notifications of a report, in the order they are fired. -/
def reportEvents (cfg : Config) (id : String) (msg : AgentToServer) (a b : Agent) : List Event :=
  connectEvents id a ++
    (runProgram (descriptionStages cfg id msg.agentDescription) (some b)).2 ++
    (runProgram (healthStages id msg.health)
      (some (descriptionApplied cfg msg.agentDescription b))).2 ++
    (if 0 < msg.getPackages.size then [.reportReceived id .packageStatuses] else []) ++
    (if 0 < msg.getConfigMap.size then [.reportReceived id .effectiveConfig] else [])

theorem runProgram_reportProgram (cfg : Config) (id : String) (now : ℤ) (msg : AgentToServer)
    (conn : ConnMeta) (slot : Option Agent) :
    runProgram (reportProgram cfg id now msg conn) slot =
      (some (reported cfg now msg conn (found id now slot)),
        reportEvents cfg id msg (found id now slot) (touched now msg conn (found id now slot))) := by
  have hpackages : ∀ a, (runProgram (packageStages id msg.getPackages) (some a)).2 =
      if 0 < msg.getPackages.size then [.reportReceived id .packageStatuses] else [] := by
    intro a
    unfold packageStages
    split <;> rfl
  have hconfig : ∀ a, (runProgram (configStages id msg.getConfigMap) (some a)).2 =
      if 0 < msg.getConfigMap.size then [.reportReceived id .effectiveConfig] else [] := by
    intro a
    unfold configStages
    split <;> rfl
  unfold reportProgram
  simp only [runProgram_append]
  cases slot with
  | none =>
    simp only [runProgram, register, Stage.fire, Stage.assign, Stage.onAgent,
      descriptionStages_slot, healthStages_slot, packageStages_slot, configStages_slot,
      hpackages, hconfig]
    simp [reported, reportEvents, found]
  | some a =>
    simp only [runProgram, register, Stage.fire, Stage.assign, Stage.onAgent,
      descriptionStages_slot, healthStages_slot, packageStages_slot, configStages_slot,
      hpackages, hconfig]
    simp [reported, reportEvents, found]

/-! ### SetConnected and Sweep -/

def setConnectedEvents (id : String) (connected : Bool) (a : Agent) : List Event :=
  if a.connected && !connected then [.agentDisconnected id]
  else if !a.connected && connected then [.agentConnected id]
  else []

def setConnectedProgram (id : String) (connected : Bool) : List (Stage id) :=
  [Stage.fire (setConnectedEvents id connected) (by
      intro a _ e he
      unfold setConnectedEvents at he
      split at he
      · obtain rfl := List.mem_singleton.mp he
        rfl
      · split at he
        · obtain rfl := List.mem_singleton.mp he
          rfl
        · simp at he),
    Stage.assign (fun a => { a with connected := connected }) fun _ => rfl]

def age (now : ℤ) (a : Agent) : ℤ := sub now a.lastSeen

def sweepDisconnect (cfg : Config) (id : String) (now : ℤ) : Stage id :=
  Stage.onAgent
    (fun a =>
      if a.connected ∧ age now a > cfg.disconnectThreshold then
        ({ a with connected := false }, [.agentDisconnected id])
      else (a, []))
    (by
      intro a
      split <;> rfl)
    (by
      intro a _ e he
      split at he
      · obtain rfl := List.mem_singleton.mp he
        rfl
      · simp at he)

/-- The entry is deleted first and its eviction announced afterwards. -/
def sweepEvict (cfg : Config) (id : String) (now : ℤ) : Stage id where
  run
    | none => (none, [])
    | some a => if age now a > cfg.evictAfter then (none, [.agentEvicted id]) else (some a, [])
  keeps slot hslot a ha := by
    cases slot with
    | none => simp at ha
    | some b =>
      by_cases hage : age now b > cfg.evictAfter
      · simp [hage] at ha
      · simp only [hage, if_false] at ha
        exact hslot a ha
  about slot _ e he := by
    cases slot with
    | none => simp at he
    | some b =>
      by_cases hage : age now b > cfg.evictAfter
      · simp only [hage, if_true, List.mem_singleton] at he
        subst he
        rfl
      · simp [hage] at he

def sweepProgram (cfg : Config) (id : String) (now : ℤ) : List (Stage id) :=
  [sweepDisconnect cfg id now, sweepEvict cfg id now]

theorem runProgram_setConnected (id : String) (connected : Bool) (a : Agent) :
    runProgram (setConnectedProgram id connected) (some a) =
      (some { a with connected := connected }, setConnectedEvents id connected a) := by
  simp [runProgram, setConnectedProgram, Stage.fire, Stage.assign, Stage.onAgent]

@[simp] theorem runProgram_setConnected_none (id : String) (connected : Bool) :
    runProgram (setConnectedProgram id connected) none = (none, []) := rfl

/-- What a sweep at `now` does to a registered agent, in one formula. -/
theorem runProgram_sweep (cfg : Config) (id : String) (now : ℤ) (a : Agent) :
    runProgram (sweepProgram cfg id now) (some a) =
      (if age now a > cfg.evictAfter then none
        else some { a with
          connected := a.connected && !decide (age now a > cfg.disconnectThreshold) },
      (if a.connected ∧ age now a > cfg.disconnectThreshold then [.agentDisconnected id] else []) ++
        if age now a > cfg.evictAfter then [.agentEvicted id] else []) := by
  have hage : ∀ b, age now { a with connected := b } = age now a := fun _ => rfl
  cases hconn : a.connected with
  | false =>
    have hsame : { a with connected := false } = a := by rw [← hconn]
    by_cases hevict : age now a > cfg.evictAfter <;>
      simp [runProgram, sweepProgram, sweepDisconnect, sweepEvict, Stage.onAgent, hconn, hevict,
        hsame]
  | true =>
    have hsame : { a with connected := true } = a := by rw [← hconn]
    by_cases hlate : age now a > cfg.disconnectThreshold <;>
      by_cases hevict : age now a > cfg.evictAfter <;>
      simp [runProgram, sweepProgram, sweepDisconnect, sweepEvict, Stage.onAgent, hconn, hlate,
        hevict, hage, hsame]

end Grex.AgentProgram
