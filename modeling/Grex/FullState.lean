import Grex.Handler
import Grex.History

/-!
When the handler asks for an agent's full state. The flag is read off the
registry after the report, and an observer keeps the messages applied since each
agent's registration and the agents lost while their answer was under way. The
flag is set exactly while no message of the registration has carried a
description. Messages with an invalid uid and gateway connects pass the registry
by.
-/

namespace Grex.FullState

open AgentState Message History Handler Machine

/-- The report a step of the handler applies. -/
def reportCall (h : Handler) : Act → Option Call
  | .report c now remoteAddr tlsSubject =>
      match h.conns.find c with
      | some ⟨cs, .reporting msg⟩ => callOf now msg (connMeta cs remoteAddr tlsSubject)
      | _ => none
  | _ => none

theorem toOption_eq_some {ε α : Type} {e : Except ε α} {x : α} :
    e.toOption = some x ↔ e = .ok x := by
  cases e with
  | error err => simp [Except.toOption]
  | ok y => simp [Except.toOption]

/-- The agent whose message a connection has reported and is about to answer. -/
def Phase.answering : Phase → Option String
  | .replying msg => (instanceUID msg.instanceUid).toOption
  | _ => none

def answering (h : Handler) (c : ℕ) : Option String :=
  (h.conns.find c).bind fun conn => Phase.answering conn.phase

/-- The messages applied since registration, and the connections whose agent
was evicted after its report and before its answer. -/
structure Watch where
  hist : Heard := fun _ => []
  evicted : ℕ → Bool := fun _ => false

def watch (w : Watch) (h : Handler) (a : Act) (h' : Handler) : Watch where
  hist := observe w.hist h.registry (reportCall h a)
  evicted c :=
    (answering h c).any fun id =>
      w.evicted c || ((h.registry.get id).isSome && (h'.registry.get id).isNone)

def machine (codec : Codec) : Handler × Watch → Act → Option (Handler × Watch) :=
  observed (Handler.machine codec) watch

/-- The handler applies one report to the registry, or changes nothing in it
but presence. -/
theorem step_effect {codec : Codec} {h h' : Handler} {a : Act} (hstep : Step codec h a h') :
    Effect (reportCall h a) h.registry h'.registry := by
  have hsame : Effect none h.registry h.registry := Or.inr ⟨rfl, Registry.onlyPresence_refl _⟩
  cases hstep with
  | drain => exact hsame
  | connect hfresh haccept => exact hsame
  | refuse hrefuse => exact hsame
  | gatewayConnect hconn hgateway => exact hsame
  | message hconn hdirect => exact hsame
  | report hconn =>
    simp only [reportCall, hconn]
    exact effect_report _ _ _ _
  | reply hconn => exact hsame
  | readError hconn => exact hsame
  | close hconn horder => exact hsame
  | disconnect hconn => exact Or.inr ⟨rfl, h.registry.onlyPresence_setConnected _ false⟩
  | sweepShard hshard horder =>
    exact Or.inr ⟨rfl, h.registry.onlyPresence_sweepShard _ _ horder.nodup⟩

theorem answering_withConn (h : Handler) (r : Registry) (c k : ℕ) (conn : Conn) :
    answering { h.withConn c conn with registry := r } k =
      if k = c then Phase.answering conn.phase else answering h k := by
  unfold answering withConn
  rw [FinMap.find_set]
  split <;> rfl

/-- A connection that is about to answer was so before, or has just reported
the message, whose agent is then registered. -/
theorem answering_step {codec : Codec} {h h' : Handler} {a : Act} (hstep : Step codec h a h')
    {k : ℕ} {id : String} (hk : answering h' k = some id) :
    answering h k = some id ∨ answering h k = none ∧ (h'.registry.get id).isSome := by
  have hother : ∀ {r : Registry} {c : ℕ} {conn : Conn}, Phase.answering conn.phase = none →
      answering { h.withConn c conn with registry := r } k = some id → answering h k = some id := by
    intro r c conn hphase hk'
    rw [answering_withConn] at hk'
    split at hk'
    · rw [hphase] at hk'
      cases hk'
    · exact hk'
  cases hstep with
  | drain => exact Or.inl hk
  | connect hfresh haccept => exact Or.inl (hother rfl hk)
  | refuse hrefuse => exact Or.inl hk
  | gatewayConnect hconn hgateway => exact Or.inl (hother rfl hk)
  | message hconn hdirect => exact Or.inl (hother rfl hk)
  | @report c now remoteAddr tlsSubject cs msg hconn =>
    rw [answering_withConn] at hk
    split at hk
    · rename_i hkc
      have huid := toOption_eq_some.mp hk
      refine Or.inr ⟨?_, ?_⟩
      · rw [answering, hkc, hconn]
        rfl
      · change ((h.registry.report now msg _).1.get id).isSome
        rw [h.registry.get_report now msg _ id id huid, if_pos rfl]
        rfl
    · exact Or.inl hk
  | reply hconn => exact Or.inl (hother rfl hk)
  | readError hconn => exact Or.inl hk
  | close hconn horder =>
    refine Or.inl (hother ?_ hk)
    unfold closePhase
    split <;> rfl
  | disconnect hconn => exact Or.inl (hother rfl hk)
  | sweepShard hshard horder => exact Or.inl hk

/-- An agent that was not evicted after its report is registered when it is
answered. -/
def Kept (h : Handler) (w : Watch) : Prop :=
  ∀ c id, answering h c = some id → w.evicted c = false → (h.registry.get id).isSome

theorem kept_step {codec : Codec} {h h' : Handler} {w : Watch} {a : Act} (hkept : Kept h w)
    (hstep : Step codec h a h') : Kept h' (watch w h a h') := by
  intro c id hc hevicted
  rcases answering_step hstep hc with hold | ⟨_, hnew⟩
  · simp only [watch, hold, Option.any_some, Bool.or_eq_false_iff, Bool.and_eq_false_iff] at hevicted
    obtain ⟨hevicted, hlost⟩ := hevicted
    have hregistered := hkept c id hold hevicted
    rw [hregistered] at hlost
    rcases hlost with hfalse | hstays
    · cases hfalse
    · rw [Option.isNone_eq_false_iff] at hstays
      exact hstays
  · exact hnew

theorem kept_start (cfg : Config) : Kept (Handler.start cfg) {} := by
  intro c id hc
  cases hc

theorem kept_run {codec : Codec} {cfg : Config} {acts : List Act} {p : Handler × Watch}
    (hrun : run (machine codec) (Handler.start cfg, {}) acts = some p) :
    Mirrored p.2.hist p.1.registry ∧ Kept p.1 p.2 := by
  refine run_invariant
    (fun p : Handler × Watch => Mirrored p.2.hist p.1.registry ∧ Kept p.1 p.2) ?_
    ⟨mirrored_new _ cfg, kept_start cfg⟩ hrun
  intro p a q hp hstep
  obtain ⟨hst, hwatch⟩ := observed_eq_some.mp hstep
  have hcases := step_of_machine hst
  rw [hwatch]
  exact ⟨mirrored_effect hp.1 (step_effect hcases), kept_step hp.2 hcases⟩

/-- The message that a step of a connection's callback handles. -/
def handled (h : Handler) : Act → Option AgentToServer
  | .message _ msg => some msg
  | .report c _ _ _ =>
      match h.conns.find c with
      | some ⟨_, .reporting msg⟩ => some msg
      | _ => none
  | .reply c =>
      match h.conns.find c with
      | some ⟨_, .replying msg⟩ => some msg
      | _ => none
  | _ => none

def agentsOf (h : Handler) (c : ℕ) : Option (Finset String) :=
  (h.conns.find c).map fun conn => conn.state.agents

def AsksFullState (reply : ServerToAgent) : Prop := reply.flags &&& reportFullState ≠ 0

theorem asksFullState_statusReply (r : Registry) (msg : AgentToServer) :
    AsksFullState (statusReply r msg) ↔ needsFullState r msg = true := by
  have hflag : ∀ needs : Bool,
      (if needs then reportFullState else 0) &&& reportFullState ≠ 0 ↔ needs = true := by decide
  exact hflag (needsFullState r msg)

theorem agentsOf_withConn {h : Handler} {r : Registry} {c : ℕ} {cs cs' : ConnState}
    {phase phase' : Phase} (hconn : h.conns.find c = some ⟨cs, phase⟩)
    (hagents : cs'.agents = cs.agents) (k : ℕ) :
    agentsOf { h.withConn c ⟨cs', phase'⟩ with registry := r } k = agentsOf h k := by
  unfold agentsOf withConn
  rw [FinMap.find_set]
  split
  · rename_i hk
    rw [hk, hconn, Option.map_some, Option.map_some, hagents]
  · rfl

/-- How the handler treats the message a step handles. -/
structure Answers (codec : Codec) (h : Handler) (w : Watch) : Prop where
  asked : ∀ c msg id, handled h (.reply c) = some msg → instanceUID msg.instanceUid = .ok id →
    w.evicted c = false →
    ∃ h' reply, h.step codec (.reply c) = some (h', { reply := some reply }) ∧
      (AsksFullState reply ↔ latest AgentToServer.agentDescription (w.hist msg.instanceUid) = none)
  invalid : ∀ a msg err h' out, handled h a = some msg → instanceUID msg.instanceUid = .error err →
    h.step codec a = some (h', out) →
    h'.registry = h.registry ∧ (∀ c, agentsOf h' c = agentsOf h c) ∧
      ∀ reply ∈ out.reply, ¬ AsksFullState reply
  gateway : ∀ c msg custom h' out, gatewayConnectOf msg = some custom →
    h.step codec (.message c msg) = some (h', out) →
    h'.registry = h.registry ∧ ∃ cs, h'.conns.find c = some ⟨cs, .waiting⟩

theorem handled_reply {h : Handler} {c : ℕ} {msg : AgentToServer}
    (hmsg : handled h (.reply c) = some msg) :
    ∃ cs, h.conns.find c = some ⟨cs, .replying msg⟩ := by
  simp only [handled] at hmsg
  split at hmsg
  · rename_i cs msg' hconn
    obtain rfl := Option.some.inj hmsg
    exact ⟨cs, hconn⟩
  · cases hmsg

theorem asked_of_kept {codec : Codec} {h : Handler} {w : Watch} (hmirrored : Mirrored w.hist h.registry)
    (hkept : Kept h w) {c : ℕ} {msg : AgentToServer} {id : String}
    (hmsg : handled h (.reply c) = some msg) (huid : instanceUID msg.instanceUid = .ok id)
    (hevicted : w.evicted c = false) :
    ∃ h' reply, h.step codec (.reply c) = some (h', { reply := some reply }) ∧
      (AsksFullState reply ↔
        latest AgentToServer.agentDescription (w.hist msg.instanceUid) = none) := by
  obtain ⟨cs, hconn⟩ := handled_reply hmsg
  have hanswering : answering h c = some id := by
    rw [answering, hconn]
    exact toOption_eq_some.mpr huid
  obtain ⟨a, ha⟩ := Option.isSome_iff_exists.mp (hkept c id hanswering hevicted)
  have hdescription := (hmirrored.mirrors huid ha).descriptionReported
  refine ⟨h.withConn c ⟨cs, .waiting⟩, statusReply h.registry msg, ?_, ?_⟩
  · simp only [step, hconn]
  · rw [asksFullState_statusReply]
    simp only [needsFullState, huid, ha, Option.any_some, hdescription]
    cases latest AgentToServer.agentDescription (w.hist msg.instanceUid) <;> simp

/-- Only the status reply to a reported message asks for anything. -/
theorem asks_only_statusReply {codec : Codec} {h h' : Handler} {a : Act} {out : Output}
    {reply : ServerToAgent} (hstep : h.step codec a = some (h', out)) (hreply : reply ∈ out.reply)
    (hasks : AsksFullState reply) :
    ∃ msg, handled h a = some msg ∧ reply = statusReply h.registry msg := by
  cases a with
  | reply c =>
    simp only [step] at hstep
    split at hstep
    · rename_i cs msg hconn
      cases hstep
      exact ⟨msg, by simp only [handled, hconn], (Option.some.inj hreply).symm⟩
    · cases hstep
  | message c msg =>
    simp only [step] at hstep
    split at hstep
    · split at hstep
      · cases hstep
        obtain ⟨data, _, rfl⟩ := Option.map_eq_some_iff.mp hreply
        have hnone : (0 : UInt64) &&& reportFullState = 0 := by decide
        exact absurd hnone hasks
      · cases hstep
        cases hreply
    · cases hstep
  | drain =>
    cases hstep
    cases hreply
  | connect c upgrade =>
    simp only [step] at hstep
    split at hstep <;> cases hstep <;> cases hreply
  | close c order =>
    simp only [step] at hstep
    split at hstep
    · split at hstep <;> cases hstep
      cases hreply
    · cases hstep
  | _ =>
    simp only [step] at hstep
    split at hstep
    · cases hstep
      cases hreply
    · cases hstep

theorem invalid_step {codec : Codec} {h h' : Handler} {a : Act} {out : Output}
    {msg : AgentToServer} {err : String} (hmsg : handled h a = some msg)
    (huid : instanceUID msg.instanceUid = .error err) (hstep : h.step codec a = some (h', out)) :
    h'.registry = h.registry ∧ (∀ c, agentsOf h' c = agentsOf h c) ∧
      ∀ reply ∈ out.reply, ¬ AsksFullState reply := by
  have hreplies : ∀ reply ∈ out.reply, ¬ AsksFullState reply := by
    intro reply hreply hasks
    obtain ⟨msg', hmsg', rfl⟩ := asks_only_statusReply hstep hreply hasks
    obtain rfl := Option.some.inj (hmsg.symm.trans hmsg')
    rw [asksFullState_statusReply] at hasks
    simp [needsFullState, huid] at hasks
  have hstate : h'.registry = h.registry ∧ ∀ c, agentsOf h' c = agentsOf h c := by
    cases step_cases hstep with
    | gatewayConnect hconn hgateway => exact ⟨rfl, agentsOf_withConn hconn rfl⟩
    | message hconn hdirect =>
      obtain rfl := Option.some.inj hmsg
      refine ⟨rfl, agentsOf_withConn hconn ?_⟩
      simp only [trackAgent, huid]
    | report hconn =>
      simp only [handled, hconn, Option.some.injEq] at hmsg
      subst hmsg
      refine ⟨?_, agentsOf_withConn hconn rfl⟩
      change (h.registry.report _ _ _).1 = h.registry
      rw [report_callOf, callOf_eq_none huid]
      rfl
    | reply hconn => exact ⟨rfl, agentsOf_withConn hconn rfl⟩
    | _ => cases hmsg
  exact ⟨hstate.1, hstate.2, hreplies⟩

theorem gateway_step {codec : Codec} {h h' : Handler} {c : ℕ} {msg : AgentToServer} {out : Output}
    {custom : CustomMessage} (hgateway : gatewayConnectOf msg = some custom)
    (hstep : h.step codec (.message c msg) = some (h', out)) :
    h'.registry = h.registry ∧ ∃ cs, h'.conns.find c = some ⟨cs, .waiting⟩ := by
  cases step_cases hstep with
  | gatewayConnect hconn hcustom => exact ⟨rfl, _, FinMap.find_set_self _ _ _⟩
  | message hconn hdirect =>
    rw [hgateway] at hdirect
    cases hdirect

/-- In every run, full state is requested exactly when it is missing. -/
theorem full_state_asked_iff_missing (codec : Codec) (cfg : Config) (acts : List Act)
    (p : Handler × Watch) (hrun : run (machine codec) (Handler.start cfg, {}) acts = some p) :
    Answers codec p.1 p.2 := by
  obtain ⟨hmirrored, hkept⟩ := kept_run hrun
  exact ⟨fun _ _ _ hmsg huid hevicted => asked_of_kept hmirrored hkept hmsg huid hevicted,
    fun _ _ _ _ _ hmsg huid hstep => invalid_step hmsg huid hstep,
    fun _ _ _ _ _ hgateway hstep => gateway_step hgateway hstep⟩

/-- A first heartbeat is answered with a request for the full state. -/
theorem full_state_asked_of_heartbeat :
    ∃ p h' reply, run (machine ⟨fun _ => none, fun _ => none⟩)
        (Handler.start ⟨30000000000, 3, [], 1⟩, {})
        [.connect 0 "websocket", .message 0 heartbeat, .report 0 0 "" ""] = some p ∧
      p.1.step ⟨fun _ => none, fun _ => none⟩ (.reply 0) = some (h', { reply := some reply }) ∧
      AsksFullState reply := by
  obtain ⟨p, hrun, hmsg, hevicted, hnone⟩ : ∃ p, run (machine ⟨fun _ => none, fun _ => none⟩)
      (Handler.start ⟨30000000000, 3, [], 1⟩, {})
      [.connect 0 "websocket", .message 0 heartbeat, .report 0 0 "" ""] = some p ∧
      handled p.1 (.reply 0) = some heartbeat ∧ p.2.evicted 0 = false ∧
      latest AgentToServer.agentDescription (p.2.hist heartbeat.instanceUid) = none :=
    exists_run_of_any (by decide +kernel)
  obtain ⟨h', reply, hstep, hiff⟩ :=
    (full_state_asked_iff_missing _ _ _ p hrun).asked 0 heartbeat zeroUID hmsg
      Registry.uid_heartbeat hevicted
  exact ⟨p, h', reply, hrun, hstep, hiff.mpr hnone⟩

end Grex.FullState
