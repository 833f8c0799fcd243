import Grex.Registry

/-!
Which registry changes are announced. The dirty tracker records the agent of
every notification, so an unannounced change is one no flush will pick up. A
message that carries no description, health, packages or config files is bare:
it fires at most the connect notification. Everything a flush persists about an
agent's own reports changes only together with a notification, but a bare
message can move connection data silently.
-/

namespace Grex.DirtyMarks

open AgentState Message AgentProgram

/-- The tracker after a sequence of notifications. -/
def markAll (dirty : Finset String) (events : List Event) : Finset String :=
  events.foldl (fun d e => insert e.about d) dirty

theorem mem_markAll (dirty : Finset String) (events : List Event) (id : String) :
    id ∈ markAll dirty events ↔ id ∈ dirty ∨ ∃ e ∈ events, e.about = id := by
  unfold markAll
  induction events generalizing dirty with
  | nil => simp
  | cons e events ih =>
    rw [List.foldl_cons, ih, Finset.mem_insert]
    constructor
    · intro h
      rcases h with (heq | hold) | ⟨e', he', habout⟩
      · exact Or.inr ⟨e, List.mem_cons_self, heq.symm⟩
      · exact Or.inl hold
      · exact Or.inr ⟨e', List.mem_cons_of_mem e he', habout⟩
    · intro h
      rcases h with hold | ⟨e', he', habout⟩
      · exact Or.inl (Or.inr hold)
      · rcases List.mem_cons.mp he' with rfl | hmem
        · exact Or.inl (Or.inl habout.symm)
        · exact Or.inr ⟨e', hmem, habout⟩

/-- The message reports nothing but the agent's presence. -/
structure Bare (msg : AgentToServer) : Prop where
  no_description : msg.agentDescription = none
  no_health : msg.health = none
  no_packages : msg.getPackages.size = 0
  no_config : msg.getConfigMap.size = 0

theorem reported_of_bare (cfg : Config) (now : ℤ) (msg : AgentToServer) (conn : ConnMeta)
    (a : Agent) (hbare : Bare msg) : reported cfg now msg conn a = touched now msg conn a := by
  simp [reported, configApplied, packagesApplied, hbare.no_description, hbare.no_health,
    hbare.no_packages, hbare.no_config, descriptionApplied, healthApplied]

theorem reportEvents_of_bare (cfg : Config) (id : String) (msg : AgentToServer) (a b : Agent)
    (hbare : Bare msg) : reportEvents cfg id msg a b = connectEvents id a := by
  simp [reportEvents, hbare.no_description, hbare.no_health, hbare.no_packages, hbare.no_config,
    descriptionStages, healthStages, runProgram]

/-- Each reportable part of a message has a notification of its own. -/
theorem reportEvents_ne_nil (cfg : Config) (id : String) (msg : AgentToServer) (a b : Agent)
    (hbare : ¬ Bare msg) : reportEvents cfg id msg a b ≠ [] := by
  intro hnil
  unfold reportEvents at hnil
  simp only [List.append_eq_nil_iff] at hnil
  obtain ⟨⟨⟨⟨_, hdesc⟩, hhealth⟩, hpackages⟩, hconfig⟩ := hnil
  apply hbare
  constructor
  · cases h : msg.agentDescription with
    | none => rfl
    | some desc => simp [h, descriptionStages, runProgram, received, Stage.fire, Stage.onAgent]
        at hdesc
  · cases h : msg.health with
    | none => rfl
    | some health => simp [h, healthStages, runProgram, received, Stage.fire, Stage.onAgent]
        at hhealth
  · by_contra hsize
    simp [Nat.pos_of_ne_zero hsize] at hpackages
  · by_contra hsize
    simp [Nat.pos_of_ne_zero hsize] at hconfig

/-! ### What a flush persists of an agent's own reports -/

/-- The part of an agent that every flush must have saved: its liveness and all
it has reported about itself. -/
structure Flushed where
  connected : Bool
  descriptionReported : Bool
  identifying : FinMap String String
  nonIdentifying : FinMap String String
  missingAttributes : List String
  reservedAttributeConflicts : List String
  healthy : Bool
  healthError : String
  healthStatus : String
  healthStartTime : ℤ
  healthStatusTime : ℤ
  healthReported : Bool
  packages : FinMap String Package
  effectiveConfig : FinMap String String
  deriving DecidableEq

def flushed (a : Agent) : Flushed where
  connected := a.connected
  descriptionReported := a.descriptionReported
  identifying := a.identifying
  nonIdentifying := a.nonIdentifying
  missingAttributes := a.missingAttributes
  reservedAttributeConflicts := a.reservedAttributeConflicts
  healthy := a.healthy
  healthError := a.healthError
  healthStatus := a.healthStatus
  healthStartTime := a.healthStartTime
  healthStatusTime := a.healthStatusTime
  healthReported := a.healthReported
  packages := a.packages
  effectiveConfig := a.effectiveConfig

/-- A silent slot program leaves what a flush persists as it was. -/
def Announces {id : String} (p : List (Stage id)) : Prop :=
  ∀ slot, (runProgram p slot).2 = [] → (runProgram p slot).1.map flushed = slot.map flushed

theorem report_announces (cfg : Config) (id : String) (now : ℤ) (msg : AgentToServer)
    (conn : ConnMeta) : Announces (reportProgram cfg id now msg conn) := by
  intro slot hsilent
  rw [runProgram_reportProgram] at hsilent ⊢
  by_cases hbare : Bare msg
  · rw [reported_of_bare cfg now msg conn _ hbare]
    rw [reportEvents_of_bare cfg id msg _ _ hbare] at hsilent
    cases slot with
    | none => simp [connectEvents, found, registered] at hsilent
    | some a =>
      have hconn : a.connected = true := by
        simpa [connectEvents, found] using hsilent
      simp [found, touched, flushed, hconn]
  · exact absurd hsilent (reportEvents_ne_nil cfg id msg _ _ hbare)

theorem setConnected_announces (id : String) (connected : Bool) :
    Announces (setConnectedProgram id connected) := by
  intro slot hsilent
  cases slot with
  | none => rfl
  | some a =>
    rw [runProgram_setConnected] at hsilent ⊢
    have hsame : a.connected = connected := by
      cases ha : a.connected <;> cases connected <;> simp [setConnectedEvents, ha] at hsilent ⊢
    subst hsame
    rfl

theorem sweep_announces (cfg : Config) (id : String) (now : ℤ) :
    Announces (sweepProgram cfg id now) := by
  intro slot hsilent
  cases slot with
  | none => rfl
  | some a =>
    rw [runProgram_sweep] at hsilent ⊢
    simp only [List.append_eq_nil_iff] at hsilent
    obtain ⟨hdisconnect, hevict⟩ := hsilent
    have hkept : ¬ age now a > cfg.evictAfter := by
      intro h
      simp [h] at hevict
    have hconn : (a.connected && !decide (age now a > cfg.disconnectThreshold)) = a.connected := by
      cases hc : a.connected
      · rfl
      · have hlate : ¬ age now a > cfg.disconnectThreshold := by
          intro h
          simp [hc, h] at hdisconnect
        simp [hlate]
    rw [if_neg hkept, hconn]

/-! ### Connection-level changes -/

/-- The fields a session row holds besides the sequence number, and the
capability mask. -/
def connectionLevel (a : Agent) : Bool × ConnMeta × Bool × UInt64 :=
  (a.connected, a.conn, a.descriptionReported, a.capabilities)

/-- The step changes connection-level data of an agent registered before it. -/
def Changes (r r' : Registry) (id : String) : Prop :=
  ∃ a, r.get id = some a ∧ (r'.get id).map connectionLevel ≠ some (connectionLevel a)

/-- A bare message of a connected agent that arrives with other connection
metadata, or with another non-zero capability mask. -/
def SilentMove (r : Registry) (op : Registry.Op) (id : String) : Prop :=
  ∃ now msg conn a, op = .report now msg conn ∧ instanceUID msg.instanceUid = .ok id ∧
    r.get id = some a ∧ a.connected = true ∧ Bare msg ∧
    (conn ≠ a.conn ∨ (msg.capabilities ≠ 0 ∧ msg.capabilities ≠ a.capabilities))

theorem flushed_connectionLevel {a b : Agent} (hflushed : flushed a = flushed b)
    (hconn : a.conn = b.conn) (hcap : a.capabilities = b.capabilities) :
    connectionLevel a = connectionLevel b := by
  have hconnected : a.connected = b.connected := congrArg Flushed.connected hflushed
  have hdesc : a.descriptionReported = b.descriptionReported :=
    congrArg Flushed.descriptionReported hflushed
  simp [connectionLevel, hconnected, hdesc, hconn, hcap]

/-- A slot program that fires nothing about `id` either does not concern `id`
or runs silently. -/
theorem execAll_silent (r : Registry) {j : String} (p : List (Stage j)) (id : String)
    (hsilent : ∀ e ∈ (r.execAll p).2, e.about ≠ id) :
    (id ≠ j ∧ (r.execAll p).1.get id = r.get id) ∨
      (id = j ∧ (runProgram p (r.get j)).2 = [] ∧
        (r.execAll p).1.get id = (runProgram p (r.get j)).1) := by
  by_cases hid : id = j
  · refine Or.inr ⟨hid, ?_, ?_⟩
    · apply List.eq_nil_iff_forall_not_mem.mpr
      intro e he
      have habout := runProgram_about p _ (r.get_keyed j) e he
      exact hsilent e he (habout.trans hid.symm)
    · rw [Registry.get_execAll, if_pos hid]
  · refine Or.inl ⟨hid, ?_⟩
    rw [Registry.get_execAll, if_neg hid]

/-- The connection metadata and capabilities of a slot survive the program. -/
def KeepsConn {id : String} (p : List (Stage id)) : Prop :=
  ∀ a b, (runProgram p (some a)).1 = some b → b.conn = a.conn ∧ b.capabilities = a.capabilities

theorem setConnected_keepsConn (id : String) (connected : Bool) :
    KeepsConn (setConnectedProgram id connected) := by
  intro a b h
  rw [runProgram_setConnected] at h
  obtain rfl := Option.some.inj h
  exact ⟨rfl, rfl⟩

theorem sweep_keepsConn (cfg : Config) (id : String) (now : ℤ) :
    KeepsConn (sweepProgram cfg id now) := by
  intro a b h
  rw [runProgram_sweep] at h
  by_cases hevict : age now a > cfg.evictAfter
  · simp [hevict] at h
  · simp only [hevict, if_false] at h
    obtain rfl := Option.some.inj h
    exact ⟨rfl, rfl⟩

theorem connectionLevel_of_silent {id : String} (p : List (Stage id)) (hann : Announces p)
    (hconn : KeepsConn p) (a : Agent) (hsilent : (runProgram p (some a)).2 = []) :
    (runProgram p (some a)).1.map connectionLevel = some (connectionLevel a) := by
  have hflushed := hann (some a) hsilent
  cases hslot : (runProgram p (some a)).1 with
  | none => simp [hslot] at hflushed
  | some b =>
    have hb := hconn a b hslot
    rw [hslot] at hflushed
    have hfl : flushed b = flushed a := Option.some.inj hflushed
    exact congrArg some (flushed_connectionLevel hfl hb.1 hb.2)

theorem not_changes_execAll (r : Registry) {j : String} (p : List (Stage j))
    (hann : Announces p) (hconn : KeepsConn p) (id : String)
    (hsilent : ∀ e ∈ (r.execAll p).2, e.about ≠ id) : ¬ Changes r (r.execAll p).1 id := by
  intro h
  obtain ⟨a, ha, hchanged⟩ := h
  apply hchanged
  rcases execAll_silent r p id hsilent with ⟨_, hget⟩ | ⟨rfl, hnil, hget⟩
  · rw [hget, ha]
    rfl
  · rw [ha] at hnil hget
    rw [hget]
    exact connectionLevel_of_silent p hann hconn a hnil

theorem not_changes_sweep (r : Registry) (now : ℤ) (orders : ℕ → List String)
    (horders : r.Orders orders) (id : String)
    (hsilent : ∀ e ∈ (r.sweep now orders).2, e.about ≠ id) :
    ¬ Changes r (r.sweep now orders).1 id := by
  intro h
  obtain ⟨a, ha, hchanged⟩ := h
  apply hchanged
  rw [Registry.get_sweep r now orders horders id, ha]
  apply connectionLevel_of_silent _ (sweep_announces r.cfg id now) (sweep_keepsConn r.cfg id now)
  apply List.eq_nil_iff_forall_not_mem.mpr
  intro e he
  have hmem : e ∈ Registry.sweptEvents r.cfg id now (r.get id) := by
    rw [ha]
    exact he
  have habout := runProgram_about (sweepProgram r.cfg id now) _ (r.get_keyed id) e hmem
  exact hsilent e ((Registry.mem_events_sweep r now orders horders e).mpr ⟨id, hmem⟩) habout

/-- A report fires nothing only when it is bare and its agent is connected;
then the metadata and a non-zero mask are still overwritten. -/
theorem report_silent (cfg : Config) (id : String) (now : ℤ) (msg : AgentToServer)
    (conn : ConnMeta) (a : Agent) :
    (runProgram (reportProgram cfg id now msg conn) (some a)).2 = [] ↔
      Bare msg ∧ a.connected = true := by
  rw [runProgram_reportProgram]
  constructor
  · intro hsilent
    have hbare : Bare msg := by
      by_contra hbare
      exact reportEvents_ne_nil cfg id msg _ _ hbare hsilent
    rw [reportEvents_of_bare cfg id msg _ _ hbare] at hsilent
    exact ⟨hbare, by simpa [connectEvents, found] using hsilent⟩
  · intro h
    obtain ⟨hbare, hconn⟩ := h
    rw [reportEvents_of_bare cfg id msg _ _ hbare]
    simp [connectEvents, found, hconn]

theorem changes_report_iff (r : Registry) (now : ℤ) (msg : AgentToServer) (conn : ConnMeta)
    (id : String) (a : Agent) (hid : instanceUID msg.instanceUid = .ok id)
    (ha : r.get id = some a) (hbare : Bare msg) (hconn : a.connected = true) :
    Changes r (r.report now msg conn).1 id ↔
      conn ≠ a.conn ∨ (msg.capabilities ≠ 0 ∧ msg.capabilities ≠ a.capabilities) := by
  have hget : (r.report now msg conn).1.get id = some (touched now msg conn a) := by
    rw [Registry.get_report r now msg conn id id hid, if_pos rfl, ha,
      reported_of_bare _ _ _ _ _ hbare]
    rfl
  unfold Changes
  rw [ha, hget]
  simp only [Option.some.injEq, exists_eq_left', Option.map_some, connectionLevel, touched,
    Prod.mk.injEq, hconn, true_and, ne_eq]
  by_cases hsame : conn = a.conn
  · by_cases hzero : msg.capabilities = 0
    · simp [hsame, hzero]
    · simp [hsame, hzero]
  · simp [hsame]

/-- A report that changes an agent without a notification about it is a silent
move. -/
theorem silentMove_of_report (r : Registry) (now : ℤ) (msg : AgentToServer) (conn : ConnMeta)
    (id : String) (hchanges : Changes r (r.report now msg conn).1 id)
    (hsilent : ∀ e ∈ (r.report now msg conn).2, e.about ≠ id) :
    SilentMove r (.report now msg conn) id := by
  obtain ⟨a, ha, hchanged⟩ := hchanges
  cases huid : instanceUID msg.instanceUid with
  | error text =>
    simp only [Registry.report, huid] at hchanged
    rw [ha] at hchanged
    exact absurd rfl hchanged
  | ok j =>
    have hexec : r.report now msg conn = r.execAll (reportProgram r.cfg j now msg conn) := by
      simp only [Registry.report, huid]
    rw [hexec] at hsilent hchanged
    rcases execAll_silent r _ id hsilent with ⟨_, hget⟩ | ⟨rfl, hnil, _⟩
    · rw [hget, ha] at hchanged
      exact absurd rfl hchanged
    · rw [ha] at hnil
      obtain ⟨hbare, hconn⟩ := (report_silent r.cfg id now msg conn a).mp hnil
      have hmoved := (changes_report_iff r now msg conn id a huid ha hbare hconn).mp
        ⟨a, ha, by rw [hexec]; exact hchanged⟩
      exact ⟨now, msg, conn, a, rfl, huid, ha, hconn, hbare, hmoved⟩

/-- Every connection-level change of a registered agent is announced, except by
the bare messages that move a connected agent silently. -/
theorem connection_changes_marked_iff (r : Registry) (op : Registry.Op) (r' : Registry)
    (events : List Event) (hstep : r.step op = some (r', events)) (id : String) :
    (Changes r r' id →
      (∃ e ∈ events, e.about = id) ∧ ∀ dirty, id ∈ markAll dirty events) ↔
        ¬ SilentMove r op id := by
  have hmark : (∃ e ∈ events, e.about = id) → ∀ dirty, id ∈ markAll dirty events :=
    fun h dirty => (mem_markAll dirty events id).mpr (Or.inr h)
  constructor
  · intro hmarked hsilent
    obtain ⟨now, msg, conn, a, rfl, hid, ha, hconn, hbare, hmoved⟩ := hsilent
    obtain ⟨rfl, rfl⟩ : (r.report now msg conn).1 = r' ∧ (r.report now msg conn).2 = events :=
      Prod.mk.inj (Option.some.inj hstep)
    have hchanges := (changes_report_iff r now msg conn id a hid ha hbare hconn).mpr hmoved
    obtain ⟨⟨e, he, _⟩, _⟩ := hmarked hchanges
    have hnil : (r.report now msg conn).2 = [] := by
      rw [Registry.events_report r now msg conn id hid, ha]
      exact (report_silent r.cfg id now msg conn a).mpr ⟨hbare, hconn⟩
    rw [hnil] at he
    simp at he
  · intro hloud hchanges
    suffices h : ∃ e ∈ events, e.about = id from ⟨h, hmark h⟩
    by_contra hnone
    have hsilent : ∀ e ∈ events, e.about ≠ id := fun e he habout => hnone ⟨e, he, habout⟩
    cases op with
    | report now msg conn =>
      obtain ⟨rfl, rfl⟩ : (r.report now msg conn).1 = r' ∧ (r.report now msg conn).2 = events :=
        Prod.mk.inj (Option.some.inj hstep)
      exact hloud (silentMove_of_report r now msg conn id hchanges hsilent)
    | setConnected j connected =>
      obtain ⟨rfl, rfl⟩ : (r.setConnected j connected).1 = r' ∧
          (r.setConnected j connected).2 = events := Prod.mk.inj (Option.some.inj hstep)
      exact not_changes_execAll r _ (setConnected_announces j connected)
        (setConnected_keepsConn j connected) id hsilent hchanges
    | sweep now orders =>
      simp only [Registry.step] at hstep
      split at hstep
      · rename_i horders
        obtain ⟨rfl, rfl⟩ : (r.sweep now orders).1 = r' ∧ (r.sweep now orders).2 = events :=
          Prod.mk.inj (Option.some.inj hstep)
        exact not_changes_sweep r now orders horders id hsilent hchanges
      · simp at hstep

/-- The registry of a replica with one connected agent. -/
def oneAgent : Registry :=
  ((Registry.new { heartbeatInterval := 30000000000, staleMissedHeartbeats := 3 }).report 0
    { instanceUid := List.replicate 16 0 } { remoteAddr := "10.0.0.1:4320", transport := "ws" }).1

theorem get_oneAgent : oneAgent.get "00000000-0000-0000-0000-000000000000" =
    some (touched 0 { instanceUid := List.replicate 16 0 }
      { remoteAddr := "10.0.0.1:4320", transport := "ws" }
      (registered "00000000-0000-0000-0000-000000000000" 0)) := by
  have hid : instanceUID (List.replicate 16 0) = .ok "00000000-0000-0000-0000-000000000000" := by
    decide
  unfold oneAgent
  rw [Registry.get_report _ _ _ _ _ _ hid, if_pos rfl, reported_of_bare _ _ _ _ _ (by
    constructor <;> decide)]
  rfl

/-- The same heartbeat over a new connection changes the remote address of a
registered agent and fires nothing. -/
theorem heartbeat_on_new_connection_unmarked :
    Changes oneAgent (oneAgent.report 1 { instanceUid := List.replicate 16 0 }
        { remoteAddr := "10.0.0.2:4320", transport := "ws" }).1
        "00000000-0000-0000-0000-000000000000" ∧
      ¬ ∃ e ∈ (oneAgent.report 1 { instanceUid := List.replicate 16 0 }
          { remoteAddr := "10.0.0.2:4320", transport := "ws" }).2,
        e.about = "00000000-0000-0000-0000-000000000000" := by
  have hid : instanceUID (List.replicate 16 0) = .ok "00000000-0000-0000-0000-000000000000" := by
    decide
  have hbare : Bare { instanceUid := List.replicate 16 0 } := by
    constructor <;> decide
  constructor
  · apply (changes_report_iff oneAgent 1 _ _ _ _ hid get_oneAgent hbare rfl).mpr
    exact Or.inl (by decide)
  · rw [Registry.events_report _ _ _ _ _ hid, get_oneAgent,
      (report_silent _ _ _ _ _ _).mpr ⟨hbare, rfl⟩]
    simp

theorem connection_changes_marked_disconnect :
    Changes oneAgent (oneAgent.setConnected "00000000-0000-0000-0000-000000000000" false).1
        "00000000-0000-0000-0000-000000000000" ∧
      ∃ e ∈ (oneAgent.setConnected "00000000-0000-0000-0000-000000000000" false).2,
        e.about = "00000000-0000-0000-0000-000000000000" := by
  have hchanges : Changes oneAgent
      (oneAgent.setConnected "00000000-0000-0000-0000-000000000000" false).1
      "00000000-0000-0000-0000-000000000000" := by
    refine ⟨_, get_oneAgent, ?_⟩
    rw [Registry.get_setConnected, if_pos rfl, get_oneAgent]
    decide
  refine ⟨hchanges, ?_⟩
  apply ((connection_changes_marked_iff oneAgent
    (.setConnected "00000000-0000-0000-0000-000000000000" false) _ _ rfl _).mpr ?_ hchanges).1
  intro h
  obtain ⟨now, msg, conn, a, hop, _⟩ := h
  cases hop

end Grex.DirtyMarks
