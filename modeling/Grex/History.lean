import Grex.Registry

/-!
The messages an agent has sent since it was last registered, newest first, and
the registry's record of the agent as a function of them: every field is that of
the last message that carried it. The messages are told apart by the bytes of
their uid, not by its rendering.
-/

namespace Grex.History

open GoTime AgentState Message AgentProgram

/-- A report of a message with a valid uid, with the clock reading it took. -/
structure Call where
  id : String
  now : ℤ
  msg : AgentToServer
  conn : ConnMeta
  valid : instanceUID msg.instanceUid = .ok id

/-- The messages applied since the registration of their agent, by uid. -/
abbrev Heard := List UInt8 → List Call

theorem Call.uid_ne {call : Call} {raw : List UInt8} {id : String} (hraw : instanceUID raw = .ok id)
    (hid : id ≠ call.id) : raw ≠ call.msg.instanceUid := by
  rintro rfl
  exact hid (Except.ok.inj (hraw.symm.trans call.valid))

/-- Apply a report to the registry, once it holds the lock. -/
def Call.apply (call : Call) (r : Registry) : Registry :=
  (r.report call.now call.msg call.conn).1

/-- The agent a report leaves. -/
def Call.result (call : Call) (r : Registry) : Agent :=
  reported r.cfg call.now call.msg call.conn (found call.id call.now (r.get call.id))

theorem get_apply (r : Registry) (call : Call) (id : String) :
    (call.apply r).get id = if id = call.id then some (call.result r) else r.get id :=
  r.get_report call.now call.msg call.conn call.id id call.valid

theorem get_apply_self (r : Registry) (call : Call) :
    (call.apply r).get call.id = some (call.result r) := by
  rw [get_apply, if_pos rfl]

theorem cfg_apply (r : Registry) (call : Call) : (call.apply r).cfg = r.cfg :=
  r.cfg_report call.now call.msg call.conn

theorem lastSeen_result (r : Registry) (call : Call) : (call.result r).lastSeen = call.now :=
  (reported_presence _ _ _ _ _).2.1

/-- The report of a message; one with an invalid uid is dropped. -/
def callOf (now : ℤ) (msg : AgentToServer) (conn : ConnMeta) : Option Call :=
  match h : instanceUID msg.instanceUid with
  | .error _ => none
  | .ok id => some ⟨id, now, msg, conn, h⟩

theorem callOf_eq_some {now : ℤ} {msg : AgentToServer} {conn : ConnMeta} {call : Call}
    (h : callOf now msg conn = some call) : call.now = now ∧ call.msg = msg := by
  unfold callOf at h
  split at h
  · cases h
  · obtain rfl := Option.some.inj h
    exact ⟨rfl, rfl⟩

theorem callOf_eq_none {now : ℤ} {msg : AgentToServer} {conn : ConnMeta} {err : String}
    (h : instanceUID msg.instanceUid = .error err) : callOf now msg conn = none := by
  unfold callOf
  split
  · rfl
  · rename_i id hid
    rw [h] at hid
    cases hid

theorem report_callOf (r : Registry) (now : ℤ) (msg : AgentToServer) (conn : ConnMeta) :
    (r.report now msg conn).1 = (callOf now msg conn).elim r fun call => call.apply r := by
  unfold callOf
  split
  · rename_i err herr
    simp only [Registry.report, herr]
    rfl
  · rfl

/-- Apply one more message; a message that registers its agent is the first. -/
def record (hist : Heard) (r : Registry) (call : Call) : Heard :=
  Function.update hist call.msg.instanceUid
    (match r.get call.id with
      | none => [call]
      | some _ => call :: hist call.msg.instanceUid)

theorem mem_record_self {hist : Heard} {r : Registry} {call c : Call} :
    c ∈ record hist r call call.msg.instanceUid ↔
      c = call ∨ (r.get call.id).isSome ∧ c ∈ hist call.msg.instanceUid := by
  rw [record, Function.update_self]
  cases r.get call.id with
  | none => simp
  | some a => simp

theorem record_of_ne {hist : Heard} {r : Registry} {call : Call} {raw : List UInt8}
    (h : raw ≠ call.msg.instanceUid) : record hist r call raw = hist raw := by
  rw [record, Function.update_of_ne h]

def observe (hist : Heard) (r : Registry) (call : Option Call) : Heard :=
  call.elim hist (record hist r)

/-- What one step of a system around the registry does to it: it applies one
report, or changes nothing but presence. -/
def Effect (call : Option Call) (r r' : Registry) : Prop :=
  (∃ c, call = some c ∧ r' = c.apply r) ∨ (call = none ∧ Registry.OnlyPresence r r')

theorem Effect.observed {call : Option Call} {r r' : Registry} (h : Effect call r r')
    (hist : Heard) :
    (∃ c, call = some c ∧ r' = c.apply r ∧ observe hist r call = record hist r c) ∨
      (call = none ∧ Registry.OnlyPresence r r' ∧ observe hist r call = hist) := by
  rcases h with ⟨c, rfl, happly⟩ | ⟨rfl, hpresence⟩
  · exact Or.inl ⟨c, rfl, happly, rfl⟩
  · exact Or.inr ⟨rfl, hpresence, rfl⟩

theorem Effect.cfg {call : Option Call} {r r' : Registry} (h : Effect call r r') :
    r'.cfg = r.cfg := by
  rcases h with ⟨c, _, rfl⟩ | ⟨_, hpresence⟩
  · exact cfg_apply r c
  · exact hpresence.cfg

theorem effect_report (r : Registry) (now : ℤ) (msg : AgentToServer) (conn : ConnMeta) :
    Effect (callOf now msg conn) r (r.report now msg conn).1 := by
  rw [report_callOf]
  cases callOf now msg conn with
  | none => exact Or.inr ⟨rfl, r.onlyPresence_refl⟩
  | some c => exact Or.inl ⟨c, rfl, rfl⟩

/-- What the last message that carries something carries. -/
def latest {α : Type} (f : AgentToServer → Option α) (calls : List Call) : Option α :=
  calls.findSome? fun call => f call.msg

theorem latest_cons {α : Type} (f : AgentToServer → Option α) (call : Call) (calls : List Call) :
    latest f (call :: calls) = (f call.msg).or (latest f calls) := by
  unfold latest
  rw [List.findSome?_cons]
  cases f call.msg <;> rfl

def mask (msg : AgentToServer) : Option UInt64 :=
  if msg.capabilities ≠ 0 then some msg.capabilities else none

/-- A timestamp that is set. -/
def stamp (ns : UInt64) : Option ℤ := if ns ≠ 0 then some (int64 ns.toNat) else none

def startTime (msg : AgentToServer) : Option ℤ :=
  msg.health.bind fun health => stamp health.startTimeUnixNano

def statusTime (msg : AgentToServer) : Option ℤ :=
  msg.health.bind fun health => stamp health.statusTimeUnixNano

def somePackages (msg : AgentToServer) : Option (FinMap String PackageStatus) :=
  if 0 < msg.getPackages.size then some msg.getPackages else none

def someConfig (msg : AgentToServer) : Option (FinMap String String) :=
  if 0 < msg.getConfigMap.size then some msg.getConfigMap else none

/-- The packages of a report, each with its own fields. -/
def packagesOf (pkgs : FinMap String PackageStatus) : FinMap String Package :=
  pkgs.filterMap fun _ p => some
    { name := p.name
      agentHasVersion := p.agentHasVersion
      serverOfferedVersion := p.serverOfferedVersion
      status := p.status.string
      errorMessage := p.errorMessage }

/-- The last value listed for a key. -/
def lastValue (attrs : List KeyValue) (key : String) : Option AnyValue :=
  (attrs.reverse.find? fun kv => decide (kv.key = key)).map KeyValue.value

/-- A value as text: a string value is its own text, any other is printed. -/
def textOf : AnyValue → String
  | .stringValue text => text
  | .other printed => printed

theorem anyValueString_eq (v : AnyValue) : anyValueString v = textOf v := by
  cases v <;> rfl

theorem find_attrsToMap (attrs : List KeyValue) (key : String) :
    (attrsToMap attrs).find key = (lastValue attrs key).map textOf := by
  have hfold : ∀ l : List KeyValue,
      (l.foldr (fun kv m => FinMap.insert m kv.key (anyValueString kv.value)) ∅).find key =
        ((l.find? fun kv => decide (kv.key = key)).map KeyValue.value).map textOf := by
    intro l
    induction l with
    | nil => rfl
    | cons kv l ih =>
      rw [List.foldr_cons, FinMap.find_set, List.find?_cons]
      by_cases hkey : kv.key = key
      · rw [if_pos hkey.symm, decide_eq_true hkey, anyValueString_eq]
        rfl
      · rw [if_neg fun h => hkey h.symm, decide_eq_false hkey]
        exact ih
  have hrev := hfold attrs.reverse
  rw [List.foldr_reverse] at hrev
  exact hrev

theorem touched_fields (now : ℤ) (msg : AgentToServer) (conn : ConnMeta) (a : Agent) :
    touched now msg conn a = { a with
      lastSeen := now
      connected := true
      conn := conn
      sequenceNum := msg.sequenceNum
      capabilities := (mask msg).getD a.capabilities } := by
  unfold touched mask
  split <;> rfl

theorem healthApplied_fields (msg : AgentToServer) (a : Agent) :
    healthApplied msg.health a = { a with
      healthReported := msg.health.isSome || a.healthReported
      healthy := msg.health.elim a.healthy ComponentHealth.healthy
      healthError := msg.health.elim a.healthError ComponentHealth.lastError
      healthStatus := msg.health.elim a.healthStatus ComponentHealth.status
      healthStartTime := (startTime msg).getD a.healthStartTime
      healthStatusTime := (statusTime msg).getD a.healthStatusTime } := by
  unfold startTime statusTime
  cases msg.health with
  | none => rfl
  | some health =>
    have hstamp : ∀ ns old, unixNano ns old = (stamp ns).getD old := by
      intro ns old
      unfold unixNano stamp
      split
      · rw [Option.getD_some]
      · rw [Option.getD_none]
    simp only [healthApplied, healthSet, hstamp]
    rfl

theorem packagesApplied_fields (msg : AgentToServer) (a : Agent) :
    packagesApplied msg.getPackages a =
      { a with packages := (somePackages msg).elim a.packages packagesOf } := by
  unfold packagesApplied somePackages
  split <;> rfl

theorem configApplied_fields (msg : AgentToServer) (a : Agent) :
    configApplied msg.getConfigMap a =
      { a with effectiveConfig := (someConfig msg).getD a.effectiveConfig } := by
  unfold configApplied someConfig
  split <;> rfl

/-- A report's effect, field by field. -/
theorem reported_fields (cfg : Config) (now : ℤ) (msg : AgentToServer) (conn : ConnMeta)
    (a : Agent) :
    reported cfg now msg conn a = { a with
      lastSeen := now
      connected := true
      conn := conn
      sequenceNum := msg.sequenceNum
      capabilities := (mask msg).getD a.capabilities
      descriptionReported := msg.agentDescription.isSome || a.descriptionReported
      identifying := msg.agentDescription.elim a.identifying fun desc =>
        attrsToMap desc.identifyingAttributes
      nonIdentifying := msg.agentDescription.elim a.nonIdentifying fun desc =>
        attrsToMap desc.nonIdentifyingAttributes
      missingAttributes := msg.agentDescription.elim a.missingAttributes fun desc =>
        missingRequired cfg (described desc a)
      reservedAttributeConflicts :=
        msg.agentDescription.elim a.reservedAttributeConflicts fun desc =>
          reservedConflicts (described desc a)
      healthReported := msg.health.isSome || a.healthReported
      healthy := msg.health.elim a.healthy ComponentHealth.healthy
      healthError := msg.health.elim a.healthError ComponentHealth.lastError
      healthStatus := msg.health.elim a.healthStatus ComponentHealth.status
      healthStartTime := (startTime msg).getD a.healthStartTime
      healthStatusTime := (statusTime msg).getD a.healthStatusTime
      packages := (somePackages msg).elim a.packages packagesOf
      effectiveConfig := (someConfig msg).getD a.effectiveConfig } := by
  unfold reported
  rw [configApplied_fields, packagesApplied_fields, healthApplied_fields, touched_fields]
  cases msg.agentDescription <;> rfl

/-- The fields that later messages may leave alone, in terms of the messages
applied, newest first. -/
structure Folded (cfg : Config) (calls : List Call) (a : Agent) : Prop where
  capabilities : a.capabilities = (latest mask calls).getD 0
  descriptionReported :
    a.descriptionReported = (latest AgentToServer.agentDescription calls).isSome
  identifying : ∀ key, a.identifying.find key =
    (latest AgentToServer.agentDescription calls).bind fun desc =>
      (lastValue desc.identifyingAttributes key).map textOf
  nonIdentifying : ∀ key, a.nonIdentifying.find key =
    (latest AgentToServer.agentDescription calls).bind fun desc =>
      (lastValue desc.nonIdentifyingAttributes key).map textOf
  missingAttributes : a.missingAttributes =
    if a.descriptionReported then cfg.requiredAttributes.filter fun key => !carries a key else []
  reservedAttributeConflicts : a.reservedAttributeConflicts =
    reservedAttributeKeys.filter fun key => carries a key
  healthReported : a.healthReported = (latest AgentToServer.health calls).isSome
  healthy : a.healthy = (latest AgentToServer.health calls).elim false ComponentHealth.healthy
  healthError :
    a.healthError = (latest AgentToServer.health calls).elim "" ComponentHealth.lastError
  healthStatus :
    a.healthStatus = (latest AgentToServer.health calls).elim "" ComponentHealth.status
  healthStartTime : a.healthStartTime = (latest startTime calls).getD zeroTime
  healthStatusTime : a.healthStatusTime = (latest statusTime calls).getD zeroTime
  packages : a.packages = (latest somePackages calls).elim ∅ packagesOf
  effectiveConfig : a.effectiveConfig = (latest someConfig calls).getD ∅

/-- The registry's record of an agent is the fold of its messages. -/
structure Mirrors (cfg : Config) (calls : List Call) (a : Agent) : Prop
    extends Folded cfg calls a where
  last : (calls.head?.map fun call => (call.conn, call.msg.sequenceNum, call.now)) =
    some (a.conn, a.sequenceNum, a.lastSeen)
  firstSeen : calls.getLast?.map Call.now = some a.firstSeen

theorem folded_registered (cfg : Config) (id : String) (now : ℤ) :
    Folded cfg [] (registered id now) where
  capabilities := rfl
  descriptionReported := rfl
  identifying _ := rfl
  nonIdentifying _ := rfl
  missingAttributes := rfl
  reservedAttributeConflicts := rfl
  healthReported := rfl
  healthy := rfl
  healthError := rfl
  healthStatus := rfl
  healthStartTime := rfl
  healthStatusTime := rfl
  packages := rfl
  effectiveConfig := rfl

/-- What is read from the last message that carries it is read from the new
message, or else as before. -/
theorem elim_latest_cons {α β : Type} (f : AgentToServer → Option α) (call : Call)
    (calls : List Call) (d : β) (g : α → β) :
    (latest f (call :: calls)).elim d g = (f call.msg).elim ((latest f calls).elim d g) g := by
  rw [latest_cons]
  cases f call.msg <;> rfl

theorem find_described (attrs : AgentDescription → List KeyValue) (call : Call)
    (calls : List Call) (old : FinMap String String) (key : String)
    (h : old.find key = (latest AgentToServer.agentDescription calls).bind fun desc =>
      (lastValue (attrs desc) key).map textOf) :
    (call.msg.agentDescription.elim old fun desc => attrsToMap (attrs desc)).find key =
      (latest AgentToServer.agentDescription (call :: calls)).bind fun desc =>
        (lastValue (attrs desc) key).map textOf := by
  rw [latest_cons]
  cases call.msg.agentDescription with
  | none => exact h
  | some desc => exact find_attrsToMap (attrs desc) key

theorem folded_reported {cfg : Config} {calls : List Call} {a : Agent} (h : Folded cfg calls a)
    (call : Call) : Folded cfg (call :: calls) (reported cfg call.now call.msg call.conn a) := by
  rw [reported_fields]
  constructor
  case capabilities => rw [latest_cons, Option.getD_or, ← h.capabilities]
  case descriptionReported => rw [latest_cons, Option.isSome_or, ← h.descriptionReported]
  case identifying => exact fun key => find_described _ call calls _ key (h.identifying key)
  case nonIdentifying => exact fun key => find_described _ call calls _ key (h.nonIdentifying key)
  case missingAttributes =>
    cases call.msg.agentDescription with
    | none => exact h.missingAttributes
    | some desc => rfl
  case reservedAttributeConflicts =>
    cases call.msg.agentDescription with
    | none => exact h.reservedAttributeConflicts
    | some desc => rfl
  case healthReported => rw [latest_cons, Option.isSome_or, ← h.healthReported]
  case healthy => rw [elim_latest_cons, ← h.healthy]
  case healthError => rw [elim_latest_cons, ← h.healthError]
  case healthStatus => rw [elim_latest_cons, ← h.healthStatus]
  case healthStartTime => rw [latest_cons, Option.getD_or, ← h.healthStartTime]
  case healthStatusTime => rw [latest_cons, Option.getD_or, ← h.healthStatusTime]
  case packages => rw [elim_latest_cons, ← h.packages]
  case effectiveConfig => rw [latest_cons, Option.getD_or, ← h.effectiveConfig]

theorem mirrors_first (cfg : Config) (call : Call) :
    Mirrors cfg [call]
      (reported cfg call.now call.msg call.conn (registered call.id call.now)) := by
  refine { folded_reported (folded_registered cfg call.id call.now) call with
    last := ?_
    firstSeen := ?_ }
  · rw [reported_fields]
    rfl
  · rw [reported_fields]
    rfl

theorem mirrors_next {cfg : Config} {calls : List Call} {a : Agent} (h : Mirrors cfg calls a)
    (call : Call) : Mirrors cfg (call :: calls) (reported cfg call.now call.msg call.conn a) := by
  refine { folded_reported h.toFolded call with
    last := ?_
    firstSeen := ?_ }
  · rw [reported_fields]
    rfl
  · rw [reported_fields]
    obtain ⟨first, hfirst, hseen⟩ := Option.map_eq_some_iff.mp h.firstSeen
    rw [List.getLast?_cons, hfirst, Option.getD_some, Option.map_some, hseen]

/-- Presence is no part of what is mirrored. -/
theorem mirrors_presence {cfg : Config} {calls : List Call} {a : Agent} (h : Mirrors cfg calls a)
    (connected : Bool) : Mirrors cfg calls { a with connected := connected } where
  capabilities := h.capabilities
  descriptionReported := h.descriptionReported
  identifying := h.identifying
  nonIdentifying := h.nonIdentifying
  missingAttributes := h.missingAttributes
  reservedAttributeConflicts := h.reservedAttributeConflicts
  healthReported := h.healthReported
  healthy := h.healthy
  healthError := h.healthError
  healthStatus := h.healthStatus
  healthStartTime := h.healthStartTime
  healthStatusTime := h.healthStatusTime
  packages := h.packages
  effectiveConfig := h.effectiveConfig
  last := h.last
  firstSeen := h.firstSeen

/-- Every registered agent mirrors the messages that carried its uid. -/
def Mirrored (hist : Heard) (r : Registry) : Prop :=
  ∀ id a, r.get id = some a → ∃ raw, instanceUID raw = .ok id ∧ Mirrors r.cfg (hist raw) a

theorem Mirrored.mirrors {hist : Heard} {r : Registry} (h : Mirrored hist r)
    {raw : List UInt8} {id : String} {a : Agent} (hraw : instanceUID raw = .ok id)
    (ha : r.get id = some a) : Mirrors r.cfg (hist raw) a := by
  obtain ⟨other, hother, hmirrors⟩ := h id a ha
  obtain rfl := instanceUID_inj hother hraw
  exact hmirrors

theorem mirrored_new (hist : Heard) (cfg : Config) : Mirrored hist (Registry.new cfg) := by
  intro id a ha
  cases ha

theorem mirrored_apply {hist : Heard} {r : Registry} (h : Mirrored hist r) (call : Call) :
    Mirrored (record hist r call) (call.apply r) := by
  intro id a ha
  rw [get_apply] at ha
  rw [cfg_apply]
  by_cases hid : id = call.id
  · subst hid
    rw [if_pos rfl] at ha
    obtain rfl := Option.some.inj ha
    refine ⟨call.msg.instanceUid, call.valid, ?_⟩
    rw [record, Function.update_self, Call.result]
    cases hget : r.get call.id with
    | none => exact mirrors_first r.cfg call
    | some old => exact mirrors_next (h.mirrors call.valid hget) call
  · rw [if_neg hid] at ha
    obtain ⟨raw, hraw, hmirrors⟩ := h id a ha
    refine ⟨raw, hraw, ?_⟩
    rw [record_of_ne (Call.uid_ne hraw hid)]
    exact hmirrors

theorem mirrored_presence {hist : Heard} {r r' : Registry} (h : Mirrored hist r)
    (hpresence : Registry.OnlyPresence r r') : Mirrored hist r' := by
  intro id a' ha'
  obtain ⟨a, connected, ha, rfl⟩ := hpresence.agent id a' ha'
  obtain ⟨raw, hraw, hmirrors⟩ := h id a ha
  rw [hpresence.cfg]
  exact ⟨raw, hraw, mirrors_presence hmirrors connected⟩

theorem mirrored_effect {hist : Heard} {call : Option Call} {r r' : Registry}
    (h : Mirrored hist r) (heffect : Effect call r r') : Mirrored (observe hist r call) r' := by
  rcases heffect.observed hist with ⟨c, _, happly, hrecord⟩ | ⟨_, hpresence, hsame⟩
  · rw [hrecord, happly]
    exact mirrored_apply h c
  · rw [hsame]
    exact mirrored_presence h hpresence

end Grex.History
