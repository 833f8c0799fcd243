import Grex.Handler

/-!
What a close of one connection does to an agent that has moved to another. A
connection remembers every agent it has carried, and its close disconnects them
all, whatever connection they report over by then. So an agent stays connected
from its latest message until a sweep finds it late or some connection that
carried it earlier is closed.
-/

namespace Grex.LateClose

open AgentState Message AgentProgram Handler Machine

/-- What has happened to an agent since its latest message: the connection that
message came over, the connections whose close has disconnected the agent, and
whether a sweep found it past either threshold. -/
structure Contact where
  conn : ℕ
  closers : List ℕ := []
  overdue : Bool := false
  evicted : Bool := false
  deriving DecidableEq

/-- The sweep of a registered agent, as its contact records it. -/
def Contact.swept (ct : Contact) (cfg : Config) (now : ℤ) (a : Agent) : Contact :=
  { ct with
    overdue := ct.overdue || decide (age now a > cfg.disconnectThreshold)
    evicted := ct.evicted || decide (age now a > cfg.evictAfter) }

def watchContact (id : String) (last : Option Contact) (h : Handler) (act : Act) (_ : Handler) :
    Option Contact :=
  match act with
  | .report c _ _ _ =>
      match h.conns.find c with
      | some ⟨_, .reporting msg⟩ =>
          if instanceUID msg.instanceUid = .ok id then some { conn := c } else last
      | _ => last
  | .disconnect c =>
      match h.conns.find c with
      | some ⟨_, .closing (k :: _)⟩ =>
          if k = id then last.map fun ct => { ct with closers := c :: ct.closers } else last
      | _ => last
  | .sweepShard shard now _ =>
      match h.registry.get id with
      | some a =>
          if h.registry.shardFor id = shard then
            last.map fun ct => ct.swept h.registry.cfg now a
          else last
      | none => last
  | _ => last

/-- Whether `Registry.Get` reports the agent as connected. -/
def reportsConnected (h : Handler) (id : String) : Bool :=
  (h.registry.get id).any fun a => a.connected

def closed (h : Handler) (c : ℕ) : Bool :=
  (h.conns.find c).any fun conn =>
    match conn.phase with
    | .closing _ => true
    | _ => false

/-- A connection whose close has not begun. -/
def isOpen (h : Handler) (c : ℕ) : Bool := (h.conns.find c).isSome && !closed h c

/-- A WebSocket connection whose close has not begun. -/
def openSocket (h : Handler) (c : ℕ) : Bool :=
  (h.conns.find c).any (fun conn => decide (conn.state.transport = .ws)) && !closed h c

theorem closed_withConn {h : Handler} {c k : ℕ} {conn : Conn} (hk : closed h k = true)
    (hconn : k = c → ∃ todo, conn.phase = .closing todo) :
    closed (h.withConn c conn) k = true := by
  unfold closed withConn
  rw [FinMap.find_set]
  by_cases hkc : k = c
  · obtain ⟨todo, htodo⟩ := hconn hkc
    simp [hkc, htodo]
  · rw [if_neg hkc]
    exact hk

/-- A closed connection stays closed. -/
theorem closed_step {codec : Codec} {h h' : Handler} {act : Act} (hstep : Step codec h act h')
    {k : ℕ} (hk : closed h k = true) : closed h' k = true := by
  have hphase : ∀ {c : ℕ} {cs : ConnState} {phase : Phase},
      h.conns.find c = some ⟨cs, phase⟩ → k = c → ∃ todo, phase = .closing todo := by
    intro c cs phase hconn hkc
    unfold closed at hk
    rw [hkc, hconn] at hk
    cases phase with
    | closing todo => exact ⟨todo, rfl⟩
    | _ => simp at hk
  have hwaiting : ∀ {c : ℕ} {cs : ConnState}, h.conns.find c = some ⟨cs, .waiting⟩ → k ≠ c := by
    intro c cs hconn hkc
    obtain ⟨todo, htodo⟩ := hphase hconn hkc
    cases htodo
  cases hstep with
  | drain => exact hk
  | connect hfresh haccept =>
    refine closed_withConn hk fun hkc => ?_
    unfold closed at hk
    rw [hkc, hfresh] at hk
    simp at hk
  | refuse hrefuse => exact hk
  | gatewayConnect hconn hgateway =>
    exact closed_withConn hk fun hkc => absurd hkc (hwaiting hconn)
  | message hconn hdirect => exact closed_withConn hk fun hkc => absurd hkc (hwaiting hconn)
  | report hconn =>
    refine closed_withConn hk fun hkc => ?_
    obtain ⟨todo, htodo⟩ := hphase hconn hkc
    cases htodo
  | reply hconn =>
    refine closed_withConn hk fun hkc => ?_
    obtain ⟨todo, htodo⟩ := hphase hconn hkc
    cases htodo
  | readError hconn => exact hk
  | close hconn horder => exact closed_withConn hk fun hkc => absurd hkc (hwaiting hconn)
  | disconnect hconn => exact closed_withConn hk fun _ => ⟨_, rfl⟩
  | sweepShard hshard horder => exact hk

/-- The contact explains the agent's liveness. -/
structure Explains (h : Handler) (id : String) (ct : Contact) : Prop where
  connected : reportsConnected h id = true ↔
    ct.closers = [] ∧ ct.overdue = false ∧ ct.evicted = false
  closers : ∀ c ∈ ct.closers, closed h c = true

theorem explains_of_same {h h' : Handler} {id : String} {ct : Contact}
    (hexplains : Explains h id ct) (hget : h'.registry.get id = h.registry.get id)
    (hclosed : ∀ c, closed h c = true → closed h' c = true) : Explains h' id ct where
  connected := by
    unfold reportsConnected
    rw [hget]
    exact hexplains.connected
  closers c hc := hclosed c (hexplains.closers c hc)

/-- A message makes the agent connected and starts a new contact. -/
theorem explains_report {h : Handler} {id : String} {c : ℕ} {now : ℤ} {msg : AgentToServer}
    {link : ConnMeta} {conn : Conn} (hid : instanceUID msg.instanceUid = .ok id) :
    Explains { h.withConn c conn with registry := (h.registry.report now msg link).1 } id
      { conn := c } where
  connected := by
    have hget := h.registry.get_report now msg link id id hid
    rw [if_pos rfl] at hget
    simp [reportsConnected, hget, reported_presence]
  closers k hk := absurd hk List.not_mem_nil

/-- A close that reaches the agent ends its contact as connected. -/
theorem explains_disconnect {h : Handler} {id : String} {ct : Contact} {c : ℕ} {cs : ConnState}
    {todo : List String} (hexplains : Explains h id ct)
    (hclosed : ∀ k, closed h k = true → closed (h.withConn c ⟨cs, .closing todo⟩) k = true) :
    Explains { h.withConn c ⟨cs, .closing todo⟩ with
      registry := (h.registry.setConnected id false).1 } id
      { ct with closers := c :: ct.closers } where
  connected := by
    have hget := h.registry.get_setConnected id id false
    rw [if_pos rfl] at hget
    cases hslot : h.registry.get id <;> simp [reportsConnected, hget, hslot]
  closers k hk := by
    rcases List.mem_cons.mp hk with rfl | hk
    · simp [closed, withConn]
    · exact hclosed k (hexplains.closers k hk)

/-- A sweep of the agent's shard is recorded as what it does. -/
theorem explains_sweep {h : Handler} {id : String} {ct : Contact} {now : ℤ} {order : List String}
    {a : Agent} (hexplains : Explains h id ct) (hslot : h.registry.get id = some a)
    (horder : FinMap.Enumerates order (h.registry.shards (h.registry.shardFor id)).keys) :
    Explains { h with registry := (h.registry.sweepShard now order).1 } id
      (ct.swept h.registry.cfg now a) where
  connected := by
    have hget := h.registry.get_sweepShard_enumerates now _ order horder id
    rw [if_pos rfl, hslot] at hget
    unfold Registry.sweptSlot at hget
    rw [runProgram_sweep] at hget
    have hbefore := hexplains.connected
    unfold reportsConnected at hbefore ⊢
    rw [hslot] at hbefore
    change (Option.any _ ((h.registry.sweepShard now order).1.get id) = true) ↔ _
    rw [hget]
    simp only [Option.any_some] at hbefore
    simp only [Contact.swept, Bool.or_eq_false_iff, decide_eq_false_iff_not]
    by_cases hevict : age now a > h.registry.cfg.evictAfter
    · simp [hevict]
    · by_cases hlate : age now a > h.registry.cfg.disconnectThreshold
      · simp [hevict, hlate]
      · simp only [hevict, hlate, if_false, Option.any_some, decide_false, Bool.not_false,
          Bool.and_true, not_false_eq_true, and_true]
        exact hbefore
  closers := hexplains.closers

theorem explains_step {codec : Codec} {h h' : Handler} {act : Act} (hstep : Step codec h act h')
    {id : String} {last : Option Contact} (hlast : ∀ ct, last = some ct → Explains h id ct)
    {ct : Contact} (hct : watchContact id last h act h' = some ct) : Explains h' id ct := by
  have hclosed : ∀ k, closed h k = true → closed h' k = true := fun k hk => closed_step hstep hk
  have hsame : h'.registry.get id = h.registry.get id → last = some ct → Explains h' id ct :=
    fun hget hct => explains_of_same (hlast ct hct) hget hclosed
  cases hstep with
  | report hconn =>
    rename_i c now remoteAddr tlsSubject cs msg
    simp only [watchContact, hconn] at hct
    by_cases hid : instanceUID msg.instanceUid = .ok id
    · rw [if_pos hid] at hct
      cases hct
      exact explains_report hid
    · rw [if_neg hid] at hct
      refine hsame ?_ hct
      cases huid : instanceUID msg.instanceUid with
      | error err => simp [Registry.report, huid]
      | ok k =>
        have hne : id ≠ k := fun heq => hid (heq ▸ huid)
        exact (h.registry.get_report now msg _ k id huid).trans (if_neg hne)
  | disconnect hconn =>
    rename_i c cs k todo
    simp only [watchContact, hconn] at hct
    by_cases hk : k = id
    · subst hk
      rw [if_pos rfl] at hct
      obtain ⟨ct', hct', rfl⟩ := Option.map_eq_some_iff.mp hct
      exact explains_disconnect (hlast ct' hct') hclosed
    · rw [if_neg hk] at hct
      exact hsame ((h.registry.get_setConnected k id false).trans (if_neg (Ne.symm hk))) hct
  | sweepShard hshard horder =>
    rename_i shard now order
    have hget := h.registry.get_sweepShard_enumerates now shard order horder id
    cases hslot : h.registry.get id with
    | none =>
      simp only [watchContact, hslot] at hct
      rw [hslot, Registry.sweptSlot_none, ite_self] at hget
      exact hsame (hget.trans hslot.symm) hct
    | some a =>
      simp only [watchContact, hslot] at hct
      by_cases howner : h.registry.shardFor id = shard
      · subst howner
        rw [if_pos rfl] at hct
        obtain ⟨ct', hct', rfl⟩ := Option.map_eq_some_iff.mp hct
        exact explains_sweep (hlast ct' hct') hslot horder
      · rw [if_neg howner] at hct hget
        exact hsame hget hct
  | _ => exact hsame rfl hct

theorem explains_run {codec : Codec} {cfg : Config} {id : String} {acts : List Act}
    {final : Handler × Option Contact}
    (hrun : run (observed (machine codec) (watchContact id)) (start cfg, none) acts = some final)
    {ct : Contact} (hct : final.2 = some ct) : Explains final.1 id ct := by
  have hall := run_invariant (fun u : Handler × Option Contact =>
    ∀ ct, u.2 = some ct → Explains u.1 id ct) ?_ (fun ct hct => by cases hct) hrun
  · exact hall ct hct
  · intro u act v hu hst ct hct
    obtain ⟨hmachine, hwatch⟩ := observed_eq_some.mp hst
    rw [hwatch] at hct
    exact explains_step (step_of_machine hmachine) hu hct

/-- An agent whose latest message came over a WebSocket that is still open, and
which no sweep since has found past the disconnect threshold, is reported as
connected exactly if no other connection's close has disconnected it since and
no sweep since has evicted it. -/
theorem connected_iff_no_late_close (codec : Codec) (cfg : Config) (id : String) (acts : List Act)
    (final : Handler × Option Contact)
    (hrun : run (observed (machine codec) (watchContact id)) (start cfg, none) acts = some final)
    (ct : Contact) (hlatest : final.2 = some ct) (hopen : openSocket final.1 ct.conn = true)
    (hontime : ct.overdue = false) :
    reportsConnected final.1 id = true ↔
      (∀ c, c ≠ ct.conn → c ∉ ct.closers) ∧ ct.evicted = false := by
  have hexplains := explains_run hrun hlatest
  have hself : ct.conn ∉ ct.closers := by
    intro hmem
    unfold openSocket at hopen
    rw [hexplains.closers _ hmem] at hopen
    simp at hopen
  rw [hexplains.connected]
  constructor
  · intro h
    refine ⟨fun c _ hc => ?_, h.2.2⟩
    rw [h.1] at hc
    exact List.not_mem_nil hc
  · intro h
    refine ⟨List.eq_nil_iff_forall_not_mem.mpr fun c hc => ?_, hontime, h.2⟩
    by_cases hcc : c = ct.conn
    · exact hself (hcc ▸ hc)
    · exact h.1 c hcc hc

/-- A codec under which every gateway connect is malformed. -/
def noCodec : Codec where
  unmarshal _ := none
  marshal _ := none

def settings : Config where
  heartbeatInterval := 30000000000
  staleMissedHeartbeats := 3
  shardCount := 1

/-- The agent heartbeats over socket 0 and, ten seconds later, over socket 1. -/
def reconnectActs : List Act :=
  [.connect 0 "websocket", .message 0 heartbeat, .report 0 0 "" "", .reply 0,
    .connect 1 "websocket", .message 1 heartbeat, .report 1 10000000000 "" "", .reply 1]

/-- The old socket is closed after the agent has moved to the new one, and the
agent is disconnected. -/
theorem late_close_disconnects_live_agent :
    ∃ final, run (observed (machine noCodec) (watchContact zeroUID)) (start settings, none)
        (reconnectActs ++ [.close 0 [zeroUID], .disconnect 0]) = some final ∧
      final.2 = some { conn := 1, closers := [0] } ∧ openSocket final.1 1 = true ∧
      reportsConnected final.1 zeroUID = false := by
  apply exists_run_of_any
  decide +kernel

/-- The old socket is closed before the agent comes back on the new one. -/
def closedFirstActs : List Act :=
  [.connect 0 "websocket", .message 0 heartbeat, .report 0 0 "" "", .reply 0, .close 0 [zeroUID],
    .disconnect 0, .connect 1 "websocket", .message 1 heartbeat, .report 1 10000000000 "" "",
    .reply 1]

theorem connected_after_reconnect :
    ∃ final, run (observed (machine noCodec) (watchContact zeroUID)) (start settings, none)
        closedFirstActs = some final ∧ final.2 = some { conn := 1 } ∧
      reportsConnected final.1 zeroUID = true := by
  have hfinal : ∃ final, run (observed (machine noCodec) (watchContact zeroUID))
      (start settings, none) closedFirstActs = some final ∧ final.2 = some { conn := 1 } ∧
      openSocket final.1 1 = true := by
    apply exists_run_of_any
    decide +kernel
  obtain ⟨final, hrun, hlatest, hopen⟩ := hfinal
  have hiff := connected_iff_no_late_close noCodec settings zeroUID closedFirstActs final hrun
    { conn := 1 } hlatest hopen rfl
  exact ⟨final, hrun, hlatest, hiff.mpr ⟨fun _ _ => List.not_mem_nil, rfl⟩⟩

end Grex.LateClose
