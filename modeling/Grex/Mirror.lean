import Grex.Calls

/-!
What the registry remembers of an agent. Every field is that of the last message
that carried it, over every interleaving of calls. The fields of one kind of
report come from one and the same message exactly as long as no message leaves a
part empty that an earlier one had filled: an empty package or config map and an
unset health timestamp count as absent.
-/

namespace Grex.Mirror

open GoTime AgentState Message AgentProgram History Calls Machine

/-- Two messages of one agent, the second one after the first was applied. -/
def inTurn (first second : AgentToServer) : List Act :=
  [.enter first {}, .apply 0, .tick 5000000000, .enter second {}, .apply 0]

def onePackage : PackageStatuses where
  packages := FinMap.insert ∅ "otelcol-contrib"
    { name := "otelcol-contrib"
      agentHasVersion := "0.157.0"
      serverOfferedVersion := ""
      status := .installed
      errorMessage := "" }

def presentPackages (msg : AgentToServer) : Option (FinMap String PackageStatus) :=
  msg.packageStatuses.map PackageStatuses.packages

def presentConfig (msg : AgentToServer) : Option (FinMap String String) :=
  msg.effectiveConfig.bind EffectiveConfig.configMap

/-- The time a health report gives, the zero time where it gives none. -/
def timeOf (ns : UInt64) : ℤ := (stamp ns).getD zeroTime

/-- All fields of a kind come from the last message in which that kind's
sub-message is present. -/
structure Whole (calls : List Call) (a : Agent) : Prop where
  healthReported : a.healthReported = (latest AgentToServer.health calls).isSome
  healthy : a.healthy = (latest AgentToServer.health calls).elim false ComponentHealth.healthy
  healthError :
    a.healthError = (latest AgentToServer.health calls).elim "" ComponentHealth.lastError
  healthStatus :
    a.healthStatus = (latest AgentToServer.health calls).elim "" ComponentHealth.status
  healthStartTime : a.healthStartTime =
    (latest AgentToServer.health calls).elim zeroTime fun health => timeOf health.startTimeUnixNano
  healthStatusTime : a.healthStatusTime =
    (latest AgentToServer.health calls).elim zeroTime fun health => timeOf health.statusTimeUnixNano
  packages : a.packages = (latest presentPackages calls).elim ∅ packagesOf
  effectiveConfig : a.effectiveConfig = (latest presentConfig calls).getD ∅

/-- What the message leaves empty is empty in the stored agent. -/
def Replaces (msg : AgentToServer) (a : Agent) : Prop :=
  (∀ pkgs ∈ presentPackages msg, pkgs.size = 0 → a.packages = ∅) ∧
  (∀ cfgMap ∈ presentConfig msg, cfgMap.size = 0 → a.effectiveConfig = ∅) ∧
  (∀ health ∈ msg.health, health.startTimeUnixNano = 0 → a.healthStartTime = zeroTime) ∧
  ∀ health ∈ msg.health, health.statusTimeUnixNano = 0 → a.healthStatusTime = zeroTime

instance (msg : AgentToServer) (a : Agent) : Decidable (Replaces msg a) :=
  inferInstanceAs (Decidable (_ ∧ _ ∧ _ ∧ _))

theorem whole_registered (id : String) (now : ℤ) : Whole [] (registered id now) :=
  ⟨rfl, rfl, rfl, rfl, rfl, rfl, rfl, rfl⟩

theorem replaces_registered (msg : AgentToServer) (id : String) (now : ℤ) :
    Replaces msg (registered id now) :=
  ⟨fun _ _ _ => rfl, fun _ _ _ => rfl, fun _ _ _ => rfl, fun _ _ _ => rfl⟩

/-- An empty package map counts as absent. -/
theorem packages_replaced_iff (msg : AgentToServer) (old : FinMap String Package) :
    (somePackages msg).elim old packagesOf = (presentPackages msg).elim old packagesOf ↔
      ∀ pkgs ∈ presentPackages msg, pkgs.size = 0 → old = ∅ := by
  unfold somePackages presentPackages AgentToServer.getPackages
  cases msg.packageStatuses with
  | none => simp
  | some statuses =>
    simp only [Option.map_some, Option.elim_some, Option.mem_some_iff, forall_eq']
    by_cases hsize : statuses.packages.size = 0
    · have hempty := FinMap.size_eq_zero.mp hsize
      have hnone : packagesOf statuses.packages = ∅ := by
        rw [hempty]
        rfl
      rw [if_neg (by omega), hnone]
      simp [hsize]
    · rw [if_pos (by omega)]
      simp [hsize]

theorem config_replaced_iff (msg : AgentToServer) (old : FinMap String String) :
    (someConfig msg).getD old = (presentConfig msg).getD old ↔
      ∀ cfgMap ∈ presentConfig msg, cfgMap.size = 0 → old = ∅ := by
  have hget : msg.getConfigMap = (presentConfig msg).getD ∅ := by
    unfold presentConfig AgentToServer.getConfigMap
    cases msg.effectiveConfig <;> rfl
  unfold someConfig
  rw [hget]
  cases presentConfig msg with
  | none => simp
  | some cfgMap =>
    simp only [Option.getD_some, Option.mem_some_iff, forall_eq']
    by_cases hsize : cfgMap.size = 0
    · rw [if_neg (by omega), FinMap.size_eq_zero.mp hsize]
      simp
    · rw [if_pos (by omega)]
      simp [hsize]

/-- A timestamp of zero counts as absent. -/
theorem time_replaced_iff (msg : AgentToServer) (field : ComponentHealth → UInt64) (old : ℤ) :
    ((msg.health.bind fun health => stamp (field health)).getD old =
        msg.health.elim old fun health => timeOf (field health)) ↔
      ∀ health ∈ msg.health, field health = 0 → old = zeroTime := by
  cases msg.health with
  | none => simp
  | some health =>
    simp only [Option.bind_some, Option.elim_some, Option.mem_some_iff, forall_eq', timeOf]
    by_cases hzero : field health = 0
    · have hstamp : stamp (field health) = none := if_neg (not_not.mpr hzero)
      rw [hstamp, Option.getD_none, Option.getD_none]
      exact ⟨fun h _ => h, fun h => h hzero⟩
    · have hstamp : stamp (field health) = some (int64 (field health).toNat) := if_pos hzero
      rw [hstamp, Option.getD_some, Option.getD_some]
      exact ⟨fun _ h => absurd h hzero, fun _ => rfl⟩

/-- A message keeps the reports whole exactly when it replaces all it reports
on. -/
theorem whole_reported_iff {calls : List Call} {a : Agent} (h : Whole calls a) (cfg : Config)
    (call : Call) :
    Whole (call :: calls) (reported cfg call.now call.msg call.conn a) ↔
      Replaces call.msg a := by
  rw [reported_fields]
  constructor
  · intro hwhole
    have hpackages := hwhole.packages
    have hconfig := hwhole.effectiveConfig
    have hstart := hwhole.healthStartTime
    have hstatus := hwhole.healthStatusTime
    rw [elim_latest_cons, ← h.packages] at hpackages
    rw [latest_cons, Option.getD_or, ← h.effectiveConfig] at hconfig
    rw [elim_latest_cons, ← h.healthStartTime] at hstart
    rw [elim_latest_cons, ← h.healthStatusTime] at hstatus
    exact ⟨(packages_replaced_iff _ _).mp hpackages, (config_replaced_iff _ _).mp hconfig,
      (time_replaced_iff _ _ _).mp hstart, (time_replaced_iff _ _ _).mp hstatus⟩
  · intro hreplaces
    obtain ⟨hpackages, hconfig, hstart, hstatus⟩ := hreplaces
    constructor
    case healthReported => rw [latest_cons, Option.isSome_or, ← h.healthReported]
    case healthy => rw [elim_latest_cons, ← h.healthy]
    case healthError => rw [elim_latest_cons, ← h.healthError]
    case healthStatus => rw [elim_latest_cons, ← h.healthStatus]
    case healthStartTime =>
      rw [elim_latest_cons, ← h.healthStartTime]
      exact (time_replaced_iff _ _ _).mpr hstart
    case healthStatusTime =>
      rw [elim_latest_cons, ← h.healthStatusTime]
      exact (time_replaced_iff _ _ _).mpr hstatus
    case packages =>
      rw [elim_latest_cons, ← h.packages]
      exact (packages_replaced_iff _ _).mpr hpackages
    case effectiveConfig =>
      rw [latest_cons, Option.getD_or, ← h.effectiveConfig]
      exact (config_replaced_iff _ _).mpr hconfig

theorem whole_presence {calls : List Call} {a : Agent} (h : Whole calls a) (connected : Bool) :
    Whole calls { a with connected := connected } :=
  ⟨h.healthReported, h.healthy, h.healthError, h.healthStatus, h.healthStartTime,
    h.healthStatusTime, h.packages, h.effectiveConfig⟩

/-- Every registered agent holds whole reports. -/
def WholeReports (p : Calls × Heard) : Prop :=
  ∀ raw id a, instanceUID raw = .ok id → p.1.registry.get id = some a → Whole (p.2 raw) a

/-- The message applied, if any, leaves nothing empty that is stored. -/
def ReplacesStored (p : Calls × Heard) (act : Act) : Prop :=
  ∀ call ∈ applied p.1 act, ∀ a ∈ p.1.registry.get call.id, Replaces call.msg a

instance (p : Calls × Heard) (act : Act) : Decidable (ReplacesStored p act) :=
  inferInstanceAs (Decidable (∀ call ∈ applied p.1 act, _))

/-- A report leaves its agent whole exactly when it replaces all it reports on. -/
theorem whole_record_iff {hist : Heard} {r : Registry} {call : Call}
    (h : ∀ a, r.get call.id = some a → Whole (hist call.msg.instanceUid) a) :
    Whole (record hist r call call.msg.instanceUid) (call.result r) ↔
      ∀ a ∈ r.get call.id, Replaces call.msg a := by
  rw [record, Function.update_self, Call.result]
  cases hget : r.get call.id with
  | none =>
    have hiff := whole_reported_iff (whole_registered call.id call.now) r.cfg call
    refine ⟨fun _ a ha => ?_, fun _ => ?_⟩
    · cases ha
    · exact hiff.mpr (replaces_registered call.msg call.id call.now)
  | some a =>
    have hiff := whole_reported_iff (h a hget) r.cfg call
    simp only [Option.mem_some_iff, forall_eq']
    exact hiff

theorem wholeReports_step {p q : Calls × Heard} {act : Act} (hp : WholeReports p)
    (hreplaces : ReplacesStored p act) (hstep : machine p act = some q) : WholeReports q := by
  refine agents_step Whole hp (fun call hcall => ?_)
    (fun _ _ connected hwhole => whole_presence hwhole connected) hstep
  exact (whole_record_iff fun old hold => hp _ _ old call.valid hold).mpr (hreplaces call hcall)

theorem not_wholeReports_step {p q : Calls × Heard} {act : Act} (hp : WholeReports p)
    (hreplaces : ¬ ReplacesStored p act) (hstep : machine p act = some q) : ¬ WholeReports q := by
  intro hq
  apply hreplaces
  intro call hcall
  obtain ⟨hget, hhist⟩ := machine_applied hstep hcall
  have hwhole := hq call.msg.instanceUid call.id _ call.valid hget
  rw [hhist] at hwhole
  exact (whole_record_iff fun old hold => hp _ _ old call.valid hold).mp hwhole

/-- Each kind of report is mirrored as a whole in every state of a run exactly
when each message applied leaves nothing empty that its agent had stored. -/
theorem whole_reports_iff (cfg : Config) (clock : ℤ) (acts : List Act)
    (final : Calls × Heard) (hrun : run machine (Calls.start cfg clock) acts = some final) :
    (∀ p, Visits machine (Calls.start cfg clock) acts p → WholeReports p) ↔
      Along machine ReplacesStored (Calls.start cfg clock) acts :=
  visits_good_iff_along WholeReports WholeReports (fun _ hp => hp)
    (fun _ _ _ hp hreplaces hstep => wholeReports_step hp hreplaces hstep)
    (fun _ _ _ hp hreplaces hstep => not_wholeReports_step hp hreplaces hstep)
    (fun _ _ _ _ ha => nomatch ha) hrun

def noPackages : PackageStatuses where
  packages := ∅

theorem whole_reports_package_then_heartbeat :
    ∃ final, run machine (Calls.start ⟨30000000000, 3, [], 1⟩ 0)
        (inTurn { heartbeat with packageStatuses := some onePackage } heartbeat) = some final ∧
      ∀ p, Visits machine (Calls.start ⟨30000000000, 3, [], 1⟩ 0)
        (inTurn { heartbeat with packageStatuses := some onePackage } heartbeat) p →
          WholeReports p := by
  obtain ⟨final, hrun, _⟩ : ∃ final, run machine (Calls.start ⟨30000000000, 3, [], 1⟩ 0)
      (inTurn { heartbeat with packageStatuses := some onePackage } heartbeat) = some final ∧
      True :=
    exists_run_of_any (by decide +kernel)
  have hreplaces : Along machine ReplacesStored (Calls.start ⟨30000000000, 3, [], 1⟩ 0)
      (inTurn { heartbeat with packageStatuses := some onePackage } heartbeat) := by
    decide +kernel
  exact ⟨final, hrun, (whole_reports_iff _ _ _ final hrun).mpr hreplaces⟩

/-- An agent that had a package and now reports none keeps it. -/
theorem removed_package_survives :
    ∃ final, run machine (Calls.start ⟨30000000000, 3, [], 1⟩ 0)
        (inTurn { heartbeat with packageStatuses := some onePackage }
          { heartbeat with packageStatuses := some noPackages }) = some final ∧
      (latest presentPackages (final.2 heartbeat.instanceUid)).map FinMap.size = some 0 ∧
      (final.1.registry.get zeroUID).map (fun a => a.packages.size) = some 1 :=
  exists_run_of_any (by decide +kernel)

end Grex.Mirror
