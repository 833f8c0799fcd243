import Grex.Machine
import Grex.Registry

/-!
The notifications of missing attributes. The missing keys are compared as a whole list,
and when it changed all of them are announced: a key that stays missing while another
one comes or goes is announced again. Every announcement since the registration of an
agent is one of a key that became missing, or one of a key that stayed missing so.
-/

namespace Grex.Compliance

open AgentState Message AgentProgram Machine

/-! ### What is counted -/

/-- The message an operation reports for an agent. -/
def messageOf (id : String) : Registry.Op → Option AgentToServer
  | .report _ msg _ =>
      match instanceUID msg.instanceUid with
      | .error _ => none
      | .ok k => if k = id then some msg else none
  | .setConnected _ _ => none
  | .sweep _ _ => none

/-- The description an operation reports for an agent. -/
def descriptionOf (id : String) (op : Registry.Op) : Option AgentDescription :=
  (messageOf id op).bind AgentToServer.agentDescription

/-- The missing attributes stored for an agent, none for one that is not registered. -/
def stored (r : Registry) (id : String) : List String :=
  ((r.get id).map Agent.missingAttributes).getD []

/-- The required attributes an agent carries in neither of its maps. -/
def lacking (r : Registry) (id : String) : List String :=
  ((r.get id).map (missingRequired r.cfg)).getD []

/-- The required attributes that a description leaves out. -/
def omitted (cfg : Config) (desc : AgentDescription) : List String :=
  cfg.requiredAttributes.filter fun key =>
    !((attrsToMap desc.identifyingAttributes).find key).isSome &&
      !((attrsToMap desc.nonIdentifyingAttributes).find key).isSome

/-- The key is stored as missing, the description leaves it out, and it leaves out other
keys than those stored. -/
def restates (id key : String) (r : Registry) (op : Registry.Op) : Bool :=
  (descriptionOf id op).any fun desc =>
    (stored r id).contains key && (omitted r.cfg desc).contains key &&
      decide (stored r id ≠ omitted r.cfg desc)

/-- Counts about one key of one agent since its latest registration. -/
structure Tally where
  /-- Notifications that the key is missing. -/
  fired : ℕ := 0
  /-- Description reports at which the key became missing. -/
  became : ℕ := 0
  /-- Description reports at which the key stayed missing and others did not. -/
  restated : ℕ := 0
  deriving DecidableEq

/-- A message of an agent that is not registered registers it. -/
def registers (id : String) (r : Registry) (op : Registry.Op) : Bool :=
  (messageOf id op).isSome && (r.get id).isNone

def becomesMissing (id key : String) (r : Registry) (op : Registry.Op) (r' : Registry) : Bool :=
  (descriptionOf id op).isSome && (lacking r' id).contains key && !(stored r id).contains key

def Tally.next (id key : String) (t : Tally) (r : Registry) (op : Registry.Op)
    (q : Registry × List Event) : Tally :=
  let t := if registers id r op then {} else t
  { fired := t.fired + q.2.count (.missingAttribute id key)
    became := t.became + (becomesMissing id key r op q.1).toNat
    restated := t.restated + (restates id key r op).toNat }

/-- The registry with the counts about a key. -/
def tallied (id key : String) (p : Registry × Tally) (op : Registry.Op) :
    Option (Registry × Tally) :=
  (p.1.step op).map fun q => (q.1, p.2.next id key p.1 op q)

/-! ### One report -/

/-- A key is announced once, if the list changed. -/
theorem count_announced {old new : List String} (hnew : new.Nodup) {event : String → Event}
    (hevent : Function.Injective event) (key : String) :
    (announced old new event).count (event key) = (decide (key ∈ new ∧ old ≠ new)).toNat := by
  unfold announced
  split_ifs with hchanged
  · rw [List.count_map_of_injective _ _ hevent, hnew.count]
    by_cases hkey : key ∈ new <;> simp [hkey, hchanged.2]
  · have hnone : ¬ (key ∈ new ∧ old ≠ new) := fun h =>
      hchanged ⟨List.length_pos_of_mem h.1, h.2⟩
    rw [decide_eq_false hnone]
    rfl

theorem missingRequired_eq (cfg : Config) (desc : AgentDescription) {a : Agent}
    (hid : a.identifying = attrsToMap desc.identifyingAttributes)
    (hnon : a.nonIdentifying = attrsToMap desc.nonIdentifyingAttributes) :
    missingRequired cfg a = omitted cfg desc := by
  unfold missingRequired omitted carries
  simp only [hid, hnon, Bool.not_or]

/-- After a description report the agent lacks what the description leaves out. -/
theorem missingRequired_reported (cfg : Config) (now : ℤ) {msg : AgentToServer}
    {desc : AgentDescription} (hdesc : msg.agentDescription = some desc) (conn : ConnMeta)
    (a : Agent) : missingRequired cfg (reported cfg now msg conn a) = omitted cfg desc := by
  apply missingRequired_eq
  · unfold reported configApplied packagesApplied
    rw [hdesc]
    cases msg.health <;> split <;> split <;> rfl
  · unfold reported configApplied packagesApplied
    rw [hdesc]
    cases msg.health <;> split <;> split <;> rfl

/-- What is stored as missing after a report. -/
theorem missingAttributes_reported (cfg : Config) (now : ℤ) (msg : AgentToServer) (conn : ConnMeta)
    (a : Agent) : (reported cfg now msg conn a).missingAttributes =
      (msg.agentDescription.map (omitted cfg)).getD a.missingAttributes := by
  unfold reported configApplied packagesApplied
  cases msg.agentDescription with
  | none => cases msg.health <;> split <;> split <;> rfl
  | some desc =>
    rw [Option.map_some, Option.getD_some, ← missingRequired_eq cfg desc
      (rfl : (described desc (touched now msg conn a)).identifying = _) rfl]
    cases msg.health <;> split <;> split <;> rfl

/-- Of a report's notifications only those of the description are of missing keys. -/
theorem count_reportEvents (cfg : Config) (hnodup : cfg.requiredAttributes.Nodup) {id : String}
    (key : String) (msg : AgentToServer) (a b : Agent) (hb : b.instanceUID = id) :
    (reportEvents cfg id msg a b).count (.missingAttribute id key) =
      (msg.agentDescription.any fun desc => decide (key ∈ omitted cfg desc ∧
        b.missingAttributes ≠ omitted cfg desc)).toNat := by
  have hconnect : (connectEvents id a).count (.missingAttribute id key) = 0 := by
    unfold connectEvents
    split <;> rfl
  have hhealth : (runProgram (healthStages id msg.health)
      (some (descriptionApplied cfg msg.agentDescription b))).2.count
        (.missingAttribute id key) = 0 := by
    cases msg.health <;> rfl
  have hpackages : (if 0 < msg.getPackages.size then [Event.reportReceived id .packageStatuses]
      else []).count (.missingAttribute id key) = 0 := by
    split <;> rfl
  have hconfig : (if 0 < msg.getConfigMap.size then [Event.reportReceived id .effectiveConfig]
      else []).count (.missingAttribute id key) = 0 := by
    split <;> rfl
  unfold reportEvents
  simp only [List.count_append, hconnect, hhealth, hpackages, hconfig, Nat.zero_add, Nat.add_zero]
  cases msg.agentDescription with
  | none => rfl
  | some desc =>
    show ([Event.reportReceived id .status] ++ (announced b.missingAttributes
      (missingRequired cfg (described desc b)) (.missingAttribute b.instanceUID) ++ (announced
        b.reservedAttributeConflicts (reservedConflicts (described desc b))
          (.reservedAttributeConflict b.instanceUID) ++ []))).count _ = _
    rw [missingRequired_eq cfg desc rfl rfl, hb]
    have hreserved : (announced b.reservedAttributeConflicts (reservedConflicts (described desc b))
        (.reservedAttributeConflict id)).count (.missingAttribute id key) = 0 :=
      List.count_eq_zero_of_not_mem (not_mem_announced fun _ => by simp)
    have homitted : (omitted cfg desc).Nodup := hnodup.filter _
    have hmissing : (announced b.missingAttributes (omitted cfg desc)
        (.missingAttribute id)).count (.missingAttribute id key) =
          (decide (key ∈ omitted cfg desc ∧ b.missingAttributes ≠ omitted cfg desc)).toNat :=
      count_announced homitted (fun _ _ h => (Event.missingAttribute.inj h).2) key
    rw [List.count_append, List.count_append, List.count_append, hreserved, hmissing]
    simp

/-- Every announcement of a key is that of a key that became missing, or that stayed
missing while the list changed. -/
theorem announces_iff {old new : List String} (key : String) :
    (decide (key ∈ new ∧ old ≠ new)).toNat = (new.contains key && !old.contains key).toNat +
      (old.contains key && new.contains key && decide (old ≠ new)).toNat := by
  by_cases hnew : key ∈ new
  · by_cases hold : key ∈ old
    · simp [hnew, hold]
    · have hchanged : old ≠ new := fun h => hold (h ▸ hnew)
      simp [hnew, hold, hchanged]
  · simp [hnew]

/-- A report of the agent. -/
theorem count_report {r : Registry} (hnodup : r.cfg.requiredAttributes.Nodup) {id : String}
    (key : String) (now : ℤ) {msg : AgentToServer} (huid : instanceUID msg.instanceUid = .ok id)
    (conn : ConnMeta) {r' : Registry}
    (hget : r'.get id = some (reported r.cfg now msg conn (found id now (r.get id))))
    (hcfg : r'.cfg = r.cfg) :
    (reportEvents r.cfg id msg (found id now (r.get id))
      (touched now msg conn (found id now (r.get id)))).count (.missingAttribute id key) =
      (becomesMissing id key r (.report now msg conn) r').toNat +
        (restates id key r (.report now msg conn)).toNat := by
  have hmessage : messageOf id (.report now msg conn) = some msg := by
    simp only [messageOf, huid, if_true]
  have hfound : (touched now msg conn (found id now (r.get id))).instanceUID = id ∧
      (touched now msg conn (found id now (r.get id))).missingAttributes = stored r id := by
    unfold stored
    cases hslot : r.get id with
    | none => exact ⟨rfl, rfl⟩
    | some a => exact ⟨r.get_keyed id a hslot, rfl⟩
  rw [count_reportEvents r.cfg hnodup key msg _ _ hfound.1, hfound.2]
  unfold becomesMissing restates descriptionOf lacking
  rw [hmessage, Option.bind_some, hget]
  cases hdesc : msg.agentDescription with
  | none => rfl
  | some desc =>
    simp only [Option.any_some, Option.isSome_some, Bool.true_and, Option.map_some,
      Option.getD_some, hcfg, missingRequired_reported r.cfg now hdesc]
    exact announces_iff key

theorem eq_report_of_messageOf {id : String} {op : Registry.Op} {msg : AgentToServer}
    (h : messageOf id op = some msg) :
    ∃ now conn, op = .report now msg conn ∧ instanceUID msg.instanceUid = .ok id := by
  cases op with
  | report now msg' conn =>
    cases huid : instanceUID msg'.instanceUid with
    | error err =>
      simp only [messageOf, huid] at h
      cases h
    | ok k =>
      simp only [messageOf, huid] at h
      split_ifs at h with hk
      obtain rfl := Option.some.inj h
      exact ⟨now, conn, rfl, hk ▸ huid⟩
  | setConnected k connected => cases h
  | sweep now orders => cases h

/-- Only a report of the agent itself announces its attributes. -/
theorem count_program {id : String} {op : Registry.Op} (hmessage : messageOf id op = none)
    (cfg : Config) (key : String) (slot : Option Agent) :
    (runProgram (op.program cfg id) slot).2.count (.missingAttribute id key) = 0 := by
  cases op with
  | report now msg conn =>
    cases huid : instanceUID msg.instanceUid with
    | error err =>
      simp only [Registry.Op.program, huid]
      rfl
    | ok k =>
      simp only [messageOf, huid] at hmessage
      split_ifs at hmessage with hk
      simp only [Registry.Op.program, huid, if_neg hk]
      rfl
  | setConnected k connected =>
    simp only [Registry.Op.program]
    split
    · cases slot with
      | none => rfl
      | some a =>
        rw [runProgram_setConnected]
        simp only [setConnectedEvents]
        split
        · rfl
        · split <;> rfl
    · rfl
  | sweep now orders =>
    simp only [Registry.Op.program]
    cases slot with
    | none => rfl
    | some a =>
      rw [runProgram_sweep, List.count_append]
      split <;> split <;> rfl

theorem count_step {r : Registry} (hnodup : r.cfg.requiredAttributes.Nodup) {op : Registry.Op}
    {q : Registry × List Event} (hstep : r.step op = some q) (id key : String) :
    q.2.count (.missingAttribute id key) =
      (becomesMissing id key r op q.1).toNat + (restates id key r op).toNat := by
  obtain ⟨hget, hevents⟩ := Registry.step_program hstep id
  have hcount := @count_eventsOf (.missingAttribute id key) q.2
  simp only [Event.about] at hcount
  rw [← hcount, hevents]
  cases hmessage : messageOf id op with
  | none =>
    rw [count_program hmessage]
    unfold becomesMissing restates descriptionOf
    rw [hmessage]
    rfl
  | some msg =>
    obtain ⟨now, conn, rfl, huid⟩ := eq_report_of_messageOf hmessage
    simp only [Registry.Op.program, huid, if_true, runProgram_reportProgram] at hget ⊢
    exact count_report hnodup key now huid conn hget (Registry.cfg_step hstep)

/-! ### Whole runs -/

/-- Every announcement since the registration is accounted for. -/
theorem fired_eq {cfg : Config} (hnodup : cfg.requiredAttributes.Nodup) {id key : String}
    {ops : List Registry.Op} {final : Registry × Tally}
    (hrun : run (tallied id key) (Registry.new cfg, {}) ops = some final) :
    final.2.fired = final.2.became + final.2.restated := by
  have hboth : final.1.cfg = cfg ∧ final.2.fired = final.2.became + final.2.restated := by
    refine run_invariant (fun p => p.1.cfg = cfg ∧ p.2.fired = p.2.became + p.2.restated) ?_
      ⟨rfl, rfl⟩ hrun
    intro p op q hp hstep
    obtain ⟨⟨r, events⟩, hop, rfl⟩ := Option.map_eq_some_iff.mp hstep
    refine ⟨(Registry.cfg_step hop).trans hp.1, ?_⟩
    have hcount := count_step (by rw [hp.1]; exact hnodup) hop id key
    have hreset : (if registers id p.1 op then {} else p.2 : Tally).fired =
        (if registers id p.1 op then {} else p.2 : Tally).became +
          (if registers id p.1 op then {} else p.2 : Tally).restated := by
      split
      · rfl
      · exact hp.2
    simp only [Tally.next, hreset, hcount]
    omega
  exact hboth.2

/-! ### One required attribute -/

/-- What an operation leaves stored as missing. -/
theorem stored_step {r : Registry} {op : Registry.Op} {q : Registry × List Event}
    (hstep : r.step op = some q) (id : String) :
    (∃ desc, stored q.1 id = omitted r.cfg desc) ∨ stored q.1 id = stored r id ∨
      stored q.1 id = [] := by
  have hget := (Registry.step_program hstep id).1
  unfold stored
  rw [hget]
  cases op with
  | report now msg conn =>
    simp only [Registry.Op.program]
    split
    · exact Or.inr (Or.inl rfl)
    · split
      · rw [runProgram_reportProgram, Option.map_some, Option.getD_some, missingAttributes_reported]
        cases msg.agentDescription with
        | none =>
          refine Or.inr (Or.inl ?_)
          cases r.get id <;> rfl
        | some desc => exact Or.inl ⟨desc, rfl⟩
      · exact Or.inr (Or.inl rfl)
  | setConnected k connected =>
    simp only [Registry.Op.program]
    split
    · refine Or.inr (Or.inl ?_)
      cases r.get id with
      | none => rfl
      | some a => rw [runProgram_setConnected, Option.map_some, Option.map_some]
    · exact Or.inr (Or.inl rfl)
  | sweep now orders =>
    simp only [Registry.Op.program]
    cases r.get id with
    | none => exact Or.inr (Or.inl rfl)
    | some a =>
      rw [runProgram_sweep]
      split
      · exact Or.inr (Or.inr rfl)
      · exact Or.inr (Or.inl rfl)

theorem sublist_stored_step {r : Registry} {op : Registry.Op} {q : Registry × List Event}
    (hstored : ∀ id, (stored r id).Sublist r.cfg.requiredAttributes) (hstep : r.step op = some q)
    (id : String) : (stored q.1 id).Sublist r.cfg.requiredAttributes := by
  rcases stored_step hstep id with ⟨desc, hdesc⟩ | hsame | hnone
  · rw [hdesc]
    exact List.filter_sublist
  · rw [hsame]
    exact hstored id
  · rw [hnone]
    exact List.nil_sublist _

/-- Of at most one required attribute, two lists that have it are the same. -/
theorem eq_of_sublist {l l' required : List String} (hone : required.length ≤ 1)
    (hl : l.Sublist required) (hl' : l'.Sublist required) {key : String} (hkey : key ∈ l)
    (hkey' : key ∈ l') : l = l' := by
  have hfull : ∀ m : List String, m.Sublist required → key ∈ m → m = required := by
    intro m hm hmem
    apply hm.eq_of_length_le
    exact le_trans hone (List.length_pos_of_mem hmem)
  rw [hfull l hl hkey, hfull l' hl' hkey']

theorem restated_eq_zero {cfg : Config} (hone : cfg.requiredAttributes.length ≤ 1)
    {id key : String} {ops : List Registry.Op} {final : Registry × Tally}
    (hrun : run (tallied id key) (Registry.new cfg, {}) ops = some final) :
    final.2.restated = 0 := by
  have hstart : ∀ id, (stored (Registry.new cfg) id).Sublist cfg.requiredAttributes := fun _ =>
    List.nil_sublist _
  have hall : final.1.cfg = cfg ∧
      (∀ id, (stored final.1 id).Sublist cfg.requiredAttributes) ∧ final.2.restated = 0 := by
    refine run_invariant (fun p => p.1.cfg = cfg ∧
      (∀ id, (stored p.1 id).Sublist cfg.requiredAttributes) ∧ p.2.restated = 0) ?_
      ⟨rfl, hstart, rfl⟩ hrun
    rintro p op q ⟨rfl, hstored, hzero⟩ hstep
    obtain ⟨⟨r, events⟩, hop, rfl⟩ := Option.map_eq_some_iff.mp hstep
    refine ⟨Registry.cfg_step hop, sublist_stored_step hstored hop, ?_⟩
    have hrestates : restates id key p.1 op = false := by
      unfold restates
      cases descriptionOf id op with
      | none => rfl
      | some desc =>
        rw [Option.any_some, Bool.eq_false_iff]
        intro h
        rw [Bool.and_eq_true, Bool.and_eq_true, List.contains_iff_mem, List.contains_iff_mem,
          decide_eq_true_eq] at h
        exact h.2 (eq_of_sublist hone (hstored id) List.filter_sublist h.1.1 h.1.2)
    simp only [Tally.next, hrestates]
    split
    · rfl
    · exact hzero
  exact hall.2.2

/-! ### Two required attributes -/

/-- A description with the given keys. -/
def describing (keys : List String) : AgentToServer :=
  { heartbeat with agentDescription := some ⟨keys.map fun key => ⟨key, .stringValue ""⟩, []⟩ }

/-- An agent that leaves out every required attribute, and then all but one. -/
theorem exists_restated {cfg : Config} (hnodup : cfg.requiredAttributes.Nodup) {key other : String}
    (hkey : key ∈ cfg.requiredAttributes) (hother : other ∈ cfg.requiredAttributes)
    (hne : key ≠ other) : ∃ ops final, run (tallied zeroUID key) (Registry.new cfg, {}) ops =
      some final ∧ final.2.fired ≠ final.2.became := by
  have hcfg : ((Registry.new cfg).report 0 (describing []) {}).1.cfg = cfg :=
    (Registry.new cfg).cfg_report 0 (describing []) {}
  have hall : stored ((Registry.new cfg).report 0 (describing []) {}).1 zeroUID =
      cfg.requiredAttributes := by
    unfold stored
    rw [Registry.get_report _ 0 (describing []) {} zeroUID zeroUID Registry.uid_heartbeat,
      if_pos rfl, Option.map_some, Option.getD_some, missingAttributes_reported]
    exact List.filter_eq_self.mpr fun _ _ => rfl
  have hrestates : restates zeroUID key ((Registry.new cfg).report 0 (describing []) {}).1
      (.report 1 (describing [other]) {}) = true := by
    have homitted : ∀ k, k ∈ omitted cfg ⟨[⟨other, .stringValue ""⟩], []⟩ ↔
        k ∈ cfg.requiredAttributes ∧ k ≠ other := by
      intro k
      simp [omitted, attrsToMap, FinMap.find_set]
    have hmessage : descriptionOf zeroUID (.report 1 (describing [other]) {}) =
        some ⟨[⟨other, .stringValue ""⟩], []⟩ := rfl
    unfold restates
    rw [hmessage, Option.any_some, hall, hcfg]
    have hchanged : cfg.requiredAttributes ≠ omitted cfg ⟨[⟨other, .stringValue ""⟩], []⟩ :=
      fun h => ((homitted other).mp (h ▸ hother)).2 rfl
    simp [hkey, (homitted key).mpr ⟨hkey, hne⟩, hchanged]
  obtain ⟨final, hfinal, hrestated⟩ : ∃ final, run (tallied zeroUID key) (Registry.new cfg, {})
      [.report 0 (describing []) {}, .report 1 (describing [other]) {}] = some final ∧
        final.2.restated ≠ 0 := by
    refine ⟨_, rfl, ?_⟩
    show _ + (restates zeroUID key ((Registry.new cfg).report 0 (describing []) {}).1
      (.report 1 (describing [other]) {})).toNat ≠ 0
    rw [hrestates]
    exact Nat.succ_ne_zero _
  refine ⟨_, final, hfinal, ?_⟩
  have haccount := fired_eq hnodup hfinal
  omega

/-- The announcements of a key count the reports at which it became missing exactly if,
since the registration, it never stayed missing in a list that changed. So they do in
every run exactly if no more than one attribute is required. -/
theorem missing_events_iff (cfg : Config) (hnodup : cfg.requiredAttributes.Nodup) :
    (∀ id key ops final, run (tallied id key) (Registry.new cfg, {}) ops = some final →
        (final.2.fired = final.2.became ↔ final.2.restated = 0)) ∧
      ((∀ id key ops final, run (tallied id key) (Registry.new cfg, {}) ops = some final →
        final.2.fired = final.2.became) ↔ cfg.requiredAttributes.length ≤ 1) := by
  have hiff : ∀ id key ops final, run (tallied id key) (Registry.new cfg, {}) ops = some final →
      (final.2.fired = final.2.became ↔ final.2.restated = 0) := by
    intro id key ops final hrun
    have haccount := fired_eq hnodup hrun
    omega
  refine ⟨hiff, fun hall => ?_, fun hone id key ops final hrun => ?_⟩
  · by_contra hmore
    obtain ⟨key, hkey, other, hother, hne⟩ :
        ∃ key ∈ cfg.requiredAttributes, ∃ other ∈ cfg.requiredAttributes, key ≠ other := by
      rcases hlist : cfg.requiredAttributes with _ | ⟨key, _ | ⟨other, rest⟩⟩
      · simp [hlist] at hmore
      · simp [hlist] at hmore
      · rw [hlist, List.nodup_cons] at hnodup
        exact ⟨key, by simp, other, by simp, fun h => hnodup.1 (by simp [h])⟩
    obtain ⟨ops, final, hrun, hfired⟩ := exists_restated hnodup hkey hother hne
    exact hfired (hall _ _ _ _ hrun)
  · exact (hiff id key ops final hrun).mpr (restated_eq_zero hone hrun)

/-- With one required attribute every announcement is of a key that became missing. -/
theorem missing_events_one_required : ["team"].Nodup ∧ ∀ id key ops final,
    run (tallied id key) (Registry.new ⟨30, 3, ["team"], 4⟩, {}) ops = some final →
      final.2.fired = final.2.became :=
  ⟨by decide, (missing_events_iff ⟨30, 3, ["team"], 4⟩ (by decide)).2.mpr (by decide)⟩

/-- The team stays missing while the environment arrives: it became missing once and is
announced twice. -/
theorem team_announced_twice :
    (run (tallied zeroUID "team")
      (Registry.new ⟨30, 3, ["team", "deployment.environment"], 4⟩, {})
      [.report 0 (describing []) {},
        .report 1 (describing ["deployment.environment"]) {}]).map Prod.snd =
      some { fired := 2, became := 1, restated := 1 } := by
  decide +kernel

end Grex.Compliance
