import Grex.FullState
import Grex.LateClose
import Mathlib.Data.Finset.Card

/-!
The gauge of gateway connections. A connection opens the gauge at its first gateway
connect and closes it when it is closed, so the gauge counts the open connections that
have sent one. An observer keeps the calls to the metrics, the connections that have
sent a gateway connect, and which connection delivered each agent's latest message.
-/

namespace Grex.GatewayGauge

open AgentState Message Handler Machine LateClose

/-! ### What is observed -/

/-- The delivery of a message, and whether its connection had sent a gateway connect
before. -/
structure Delivery where
  conn : ℕ
  afterConnect : Bool
  deriving DecidableEq

structure Watch where
  /-- Calls of `GatewayConnectionOpened`. -/
  opened : ℕ := 0
  /-- Calls of `GatewayConnectionClosed`. -/
  closed : ℕ := 0
  /-- Connections that have sent a gateway connect, well-formed or not. -/
  senders : Finset ℕ := ∅
  /-- The delivery of each agent's latest message. -/
  latest : String → Option Delivery := fun _ => none

/-- The connection that sends a gateway connect. -/
def sender : Act → Option ℕ
  | .message c msg => if (gatewayConnectOf msg).isSome then some c else none
  | _ => none

/-- The connection whose message a step applies to the registry, and the agent. -/
def delivers (h : Handler) : Act → Option (ℕ × String)
  | .report c _ _ _ =>
      match h.conns.find c with
      | some ⟨_, .reporting msg⟩ => (instanceUID msg.instanceUid).toOption.map fun id => (c, id)
      | _ => none
  | _ => none

def Watch.next (w : Watch) (h : Handler) (a : Act) (out : Output) : Watch where
  opened := w.opened + out.metrics.count .gatewayConnectionOpened
  closed := w.closed + out.metrics.count .gatewayConnectionClosed
  senders := (sender a).elim w.senders fun c => insert c w.senders
  latest :=
    match delivers h a with
    | none => w.latest
    | some (c, id) => Function.update w.latest id (some ⟨c, decide (c ∈ w.senders)⟩)

/-- The handler together with the observer. -/
def watched (codec : Codec) (p : Handler × Watch) (a : Act) : Option (Handler × Watch) :=
  (p.1.step codec a).map fun q => (q.1, p.2.next p.1 a q.2)

/-! ### The gauge -/

/-- The connection is open and counted as a gateway's. -/
def holds (conn : Conn) : Bool :=
  match conn.phase with
  | .closing _ => false
  | _ => conn.state.viaGateway

def counted (h : Handler) (c : ℕ) : Bool := (h.conns.find c).any holds

def gateways (h : Handler) : Finset ℕ := h.conns.keys.filter fun c => counted h c = true

theorem mem_gateways {h : Handler} {c : ℕ} : c ∈ gateways h ↔ counted h c = true := by
  unfold gateways
  rw [Finset.mem_filter, h.conns.mem_keys]
  constructor
  · exact fun hc => hc.2
  · intro hc
    refine ⟨?_, hc⟩
    unfold counted at hc
    cases hfind : h.conns.find c with
    | none =>
      rw [hfind] at hc
      cases hc
    | some conn => rfl

theorem counted_withConn (h : Handler) (c k : ℕ) (conn : Conn) :
    counted (h.withConn c conn) k = if k = c then holds conn else counted h k := by
  unfold counted withConn
  rw [FinMap.find_set]
  split <;> rfl

/-- Replacing a connection's record moves the gauge by that connection alone. -/
theorem card_withConn (h : Handler) (c : ℕ) (conn : Conn) :
    (gateways (h.withConn c conn)).card + (counted h c).toNat =
      (gateways h).card + (holds conn).toNat := by
  have hmem : ∀ k, k ∈ gateways (h.withConn c conn) ↔
      if k = c then holds conn = true else k ∈ gateways h := by
    intro k
    rw [mem_gateways, counted_withConn, mem_gateways]
    split <;> rfl
  cases hafter : holds conn with
  | true =>
    have hset : gateways (h.withConn c conn) = insert c (gateways h) := by
      ext k
      by_cases hk : k = c <;> simp [hmem, hk, hafter]
    rw [hset]
    cases hbefore : counted h c with
    | true => rw [Finset.insert_eq_of_mem (mem_gateways.mpr hbefore)]
    | false =>
      have hnew : c ∉ gateways h := by simp [mem_gateways, hbefore]
      rw [Finset.card_insert_of_notMem hnew]
      rfl
  | false =>
    have hset : gateways (h.withConn c conn) = (gateways h).erase c := by
      ext k
      by_cases hk : k = c <;> simp [hmem, hk, hafter]
    rw [hset]
    cases hbefore : counted h c with
    | true =>
      have hold : c ∈ gateways h := mem_gateways.mpr hbefore
      exact Finset.card_erase_add_one hold
    | false =>
      have hnew : c ∉ gateways h := by simp [mem_gateways, hbefore]
      rw [Finset.erase_eq_of_notMem hnew]

theorem counted_of_find {h : Handler} {c : ℕ} {conn : Conn} (hconn : h.conns.find c = some conn) :
    counted h c = holds conn := by
  unfold counted
  rw [hconn, Option.any_some]

theorem viaGateway_onConnecting {draining : Bool} {upgrade : String} {cs : ConnState}
    (haccept : onConnecting draining upgrade = .ok cs) : cs.viaGateway = false := by
  unfold onConnecting at haccept
  split at haccept
  · cases haccept
  · cases haccept
    rfl

theorem viaGateway_trackAgent (cs : ConnState) (msg : AgentToServer) :
    (trackAgent cs msg).viaGateway = cs.viaGateway := by
  unfold trackAgent
  split <;> rfl

section Replaced

variable {h : Handler} {c : ℕ} {cs : ConnState}

/-- A record that counts as before leaves the gauge. -/
theorem card_of_holds {conn conn' : Conn} (hconn : h.conns.find c = some conn)
    (hholds : holds conn' = holds conn) :
    (gateways (h.withConn c conn')).card = (gateways h).card := by
  have hcard := card_withConn h c conn'
  rw [counted_of_find hconn, hholds] at hcard
  omega

theorem card_connect (hfresh : h.conns.find c = none) (hdirect : cs.viaGateway = false) :
    (gateways (h.withConn c { state := cs })).card = (gateways h).card := by
  have hcard := card_withConn h c { state := cs }
  have hbefore : counted h c = false := by
    unfold counted
    rw [hfresh]
    rfl
  have hafter : holds { state := cs } = false := hdirect
  rw [hbefore, hafter] at hcard
  exact hcard

/-- Only the first gateway connect of a connection is counted. -/
theorem card_gatewayConnect (hconn : h.conns.find c = some ⟨cs, .waiting⟩) {cs' : ConnState}
    (hvia : cs'.viaGateway = true) :
    (gateways (h.withConn c ⟨cs', .waiting⟩)).card = (gateways h).card + (!cs.viaGateway).toNat := by
  have hcard := card_withConn h c ⟨cs', .waiting⟩
  have hafter : holds ⟨cs', .waiting⟩ = true := hvia
  have hbefore : holds ⟨cs, .waiting⟩ = cs.viaGateway := rfl
  rw [counted_of_find hconn, hafter, hbefore] at hcard
  cases hcs : cs.viaGateway <;> simpa [hcs] using hcard

theorem card_close (hconn : h.conns.find c = some ⟨cs, .waiting⟩) (order : List String) :
    (gateways (h.withConn c ⟨{ cs with agents := ∅ }, closePhase cs order⟩)).card +
      cs.viaGateway.toNat = (gateways h).card := by
  have hcard := card_withConn h c ⟨{ cs with agents := ∅ }, closePhase cs order⟩
  have hafter : holds ⟨{ cs with agents := ∅ }, closePhase cs order⟩ = false := by
    unfold holds closePhase
    cases cs.transport <;> rfl
  have hbefore : holds ⟨cs, .waiting⟩ = cs.viaGateway := rfl
  rw [counted_of_find hconn, hafter, hbefore] at hcard
  exact hcard

theorem count_onGatewayConnect (codec : Codec) (cs : ConnState) (msg : AgentToServer)
    (custom : CustomMessage) :
    (onGatewayConnect codec cs msg custom).2.metrics.count .gatewayConnectionClosed = 0 ∧
      (onGatewayConnect codec cs msg custom).2.metrics.count .gatewayConnectionOpened =
        (!cs.viaGateway).toNat := by
  cases hvia : cs.viaGateway <;> simp [onGatewayConnect, hvia]

end Replaced

/-- A step moves the gauge by the calls it makes. -/
theorem card_step {codec : Codec} {h h' : Handler} {a : Act} {out : Output}
    (hstep : h.step codec a = some (h', out)) :
    (gateways h').card + out.metrics.count .gatewayConnectionClosed =
      (gateways h).card + out.metrics.count .gatewayConnectionOpened := by
  cases step_cases hstep with
  | drain =>
    cases hstep
    rfl
  | connect hfresh haccept =>
    simp only [step, hfresh, haccept] at hstep
    cases hstep
    exact card_connect hfresh (viaGateway_onConnecting haccept)
  | @refuse c upgrade status hrefuse =>
    cases hfind : h.conns.find c with
    | none =>
      simp only [step, hfind, hrefuse] at hstep
      cases hstep
      rfl
    | some conn =>
      simp only [step, hfind] at hstep
      cases hstep
  | @gatewayConnect c msg cs custom hconn hgateway =>
    simp only [step, hconn, hgateway] at hstep
    cases hstep
    have hvia : (onGatewayConnect codec cs msg custom).1.viaGateway = true := rfl
    have hcard := card_gatewayConnect hconn hvia
    obtain ⟨hclosed, hopened⟩ := count_onGatewayConnect codec cs msg custom
    simp [hclosed, hopened, hcard]
  | @message c msg cs hconn hdirect =>
    simp only [step, hconn, hdirect] at hstep
    cases hstep
    exact card_of_holds hconn (viaGateway_trackAgent cs msg)
  | report hconn =>
    simp only [step, hconn] at hstep
    cases hstep
    exact card_of_holds hconn rfl
  | reply hconn =>
    simp only [step, hconn] at hstep
    cases hstep
    exact card_of_holds hconn rfl
  | readError hconn =>
    simp only [step, hconn] at hstep
    cases hstep
    rfl
  | @close c order cs hconn horder =>
    simp only [step, hconn, if_pos horder] at hstep
    cases hstep
    have hcard := card_close hconn order
    cases hvia : cs.viaGateway <;> simpa [hvia] using hcard
  | disconnect hconn =>
    simp only [step, hconn] at hstep
    cases hstep
    exact card_of_holds hconn rfl
  | sweepShard hshard horder =>
    simp only [step, if_pos (And.intro hshard horder)] at hstep
    cases hstep
    rfl

/-! ### Senders -/

/-- A connection carries the mark of a gateway exactly if it has sent a gateway connect. -/
def Marked (h : Handler) (senders : Finset ℕ) : Prop :=
  ∀ c, c ∈ senders ↔ (h.conns.find c).any (fun conn => conn.state.viaGateway) = true

theorem marked_withConn {h : Handler} {senders : Finset ℕ} (hmarked : Marked h senders) {c : ℕ}
    {conn : Conn} {r : Registry}
    (hsame : (h.conns.find c).any (fun conn => conn.state.viaGateway) = conn.state.viaGateway) :
    Marked { h.withConn c conn with registry := r } senders := by
  intro k
  rw [hmarked k]
  unfold withConn
  rw [FinMap.find_set]
  by_cases hk : k = c
  · rw [if_pos hk, hk, hsame, Option.any_some]
  · rw [if_neg hk]

theorem marked_step {codec : Codec} {h h' : Handler} {a : Act} (hstep : Step codec h a h')
    {senders : Finset ℕ} (hmarked : Marked h senders) :
    Marked h' ((sender a).elim senders fun c => insert c senders) := by
  have hkeep : ∀ {c : ℕ} {cs cs' : ConnState} {phase phase' : Phase} {r : Registry},
      h.conns.find c = some ⟨cs, phase⟩ → cs'.viaGateway = cs.viaGateway →
      Marked { h.withConn c ⟨cs', phase'⟩ with registry := r } senders := by
    intro c cs cs' phase phase' r hconn hvia
    apply marked_withConn hmarked
    rw [hconn, Option.any_some, hvia]
  cases hstep with
  | drain => exact hmarked
  | connect hfresh haccept =>
    refine marked_withConn hmarked ?_
    rw [hfresh, viaGateway_onConnecting haccept]
    rfl
  | refuse hrefuse => exact hmarked
  | @gatewayConnect c msg cs custom hconn hgateway =>
    intro k
    have hsender : sender (.message c msg) = some c := by
      simp only [sender, hgateway, Option.isSome_some, if_true]
    rw [hsender]
    show k ∈ insert c senders ↔ _
    unfold withConn
    rw [FinMap.find_set, Finset.mem_insert, hmarked k]
    by_cases hk : k = c
    · rw [if_pos hk]
      simp [hk, onGatewayConnect]
    · rw [if_neg hk]
      simp [hk]
  | @message c msg cs hconn hdirect =>
    have hsender : sender (.message c msg) = none := by
      simp only [sender, hdirect, Option.isSome_none, Bool.false_eq_true, if_false]
    rw [hsender]
    exact hkeep hconn (viaGateway_trackAgent cs msg)
  | report hconn => exact hkeep hconn rfl
  | reply hconn => exact hkeep hconn rfl
  | readError hconn => exact hmarked
  | close hconn horder => exact hkeep hconn rfl
  | disconnect hconn => exact hkeep hconn rfl
  | sweepShard hshard horder => exact hmarked

/-- The gauge counts the open connections that have sent a gateway connect. -/
theorem gateways_eq {h : Handler} {senders : Finset ℕ} (hmarked : Marked h senders) :
    gateways h = senders.filter fun c => isOpen h c = true := by
  ext c
  rw [mem_gateways, Finset.mem_filter, hmarked c]
  unfold counted isOpen LateClose.closed
  cases h.conns.find c with
  | none => simp
  | some conn =>
    obtain ⟨cs, phase⟩ := conn
    cases phase <;> simp [holds]

/-! ### Deliveries -/

/-- An agent's mark is that of the connection that delivered its latest message. -/
def Routed (h : Handler) (latest : String → Option Delivery) : Prop :=
  ∀ id a, h.registry.get id = some a →
    ∃ d, latest id = some d ∧ a.conn.viaGateway = d.afterConnect

theorem routed_step {codec : Codec} {h h' : Handler} {a : Act} {out : Output} {w : Watch}
    (hstep : Step codec h a h') (hmarked : Marked h w.senders) (hrouted : Routed h w.latest) :
    Routed h' (w.next h a out).latest := by
  have hpresence : delivers h a = none → Registry.OnlyPresence h.registry h'.registry →
      Routed h' (w.next h a out).latest := by
    intro hnone honly id b hb
    obtain ⟨b', connected, hb', rfl⟩ := honly.agent id b hb
    obtain ⟨d, hd, hvia⟩ := hrouted id b' hb'
    refine ⟨d, ?_, hvia⟩
    unfold Watch.next
    rw [hnone]
    exact hd
  have hother : History.Effect none h.registry h'.registry →
      Registry.OnlyPresence h.registry h'.registry := by
    rintro (⟨call, hcall, -⟩ | ⟨-, honly⟩)
    · cases hcall
    · exact honly
  have heffect := FullState.step_effect hstep
  cases hstep with
  | @report c now remoteAddr tlsSubject cs msg hconn =>
    cases huid : instanceUID msg.instanceUid with
    | error err =>
      apply hpresence
      · simp only [delivers, hconn, huid]
        rfl
      · simp only [FullState.reportCall, hconn, History.callOf_eq_none huid] at heffect
        exact hother heffect
    | ok k =>
      have hdelivers : delivers h (.report c now remoteAddr tlsSubject) = some (c, k) := by
        simp only [delivers, hconn, huid]
        rfl
      intro id b hb
      change (h.registry.report now msg (connMeta cs remoteAddr tlsSubject)).1.get id = some b at hb
      rw [h.registry.get_report now msg _ k id huid] at hb
      unfold Watch.next
      simp only [hdelivers]
      by_cases hk : id = k
      · rw [if_pos hk] at hb
        have hconn' := (AgentProgram.reported_presence h.registry.cfg now msg
          (connMeta cs remoteAddr tlsSubject) (AgentProgram.found k now (h.registry.get k))).2.2
        rw [Option.some.inj hb] at hconn'
        refine ⟨⟨c, decide (c ∈ w.senders)⟩, by rw [hk, Function.update_self], ?_⟩
        have hmark := hmarked c
        rw [hconn, Option.any_some] at hmark
        rw [hconn']
        show cs.viaGateway = decide (c ∈ w.senders)
        rw [Bool.eq_iff_iff, decide_eq_true_eq, hmark]
      · rw [if_neg hk] at hb
        rw [Function.update_of_ne hk]
        exact hrouted id b hb
  | _ => exact hpresence rfl (hother heffect)

/-! ### Whole runs -/

/-- What holds after every step. -/
structure Accounted (h : Handler) (w : Watch) : Prop where
  gauge : (gateways h).card + w.closed = w.opened
  marked : Marked h w.senders
  routed : Routed h w.latest

theorem accounted_start (cfg : Config) : Accounted (Handler.start cfg) {} where
  gauge := rfl
  marked c := by simp [Handler.start]
  routed id a ha := by cases ha

theorem accounted_step {codec : Codec} {h h' : Handler} {w : Watch} {a : Act} {out : Output}
    (hp : Accounted h w) (hstep : h.step codec a = some (h', out)) :
    Accounted h' (w.next h a out) where
  gauge := by
    have hcard := card_step hstep
    have hbefore := hp.gauge
    show (gateways h').card + (w.closed + out.metrics.count .gatewayConnectionClosed) =
      w.opened + out.metrics.count .gatewayConnectionOpened
    omega
  marked := marked_step (step_cases hstep) hp.marked
  routed := routed_step (step_cases hstep) hp.marked hp.routed

theorem accounted_run {codec : Codec} {cfg : Config} {acts : List Act} {p : Handler × Watch}
    (hrun : run (watched codec) (Handler.start cfg, {}) acts = some p) : Accounted p.1 p.2 := by
  refine run_invariant (fun p : Handler × Watch => Accounted p.1 p.2) ?_ (accounted_start cfg) hrun
  intro p a q hp hstep
  obtain ⟨⟨h', out⟩, hsome, rfl⟩ := Option.map_eq_some_iff.mp hstep
  exact accounted_step hp hsome

/-- However the callbacks of the connections interleave, the gateway connections opened
less those closed are the open connections that have sent a gateway connect, and a
registered agent is marked as a gateway's exactly if the connection that delivered its
latest message had sent one before. -/
theorem gateway_accounting_exact (codec : Codec) (cfg : Config) (acts : List Act) (h : Handler)
    (w : Watch) (hrun : run (watched codec) (Handler.start cfg, {}) acts = some (h, w)) :
    (w.opened : ℤ) - w.closed = (w.senders.filter fun c => isOpen h c = true).card ∧
      0 ≤ (w.opened : ℤ) - w.closed ∧
      ((∀ c, isOpen h c = false) → (w.opened : ℤ) - w.closed = 0) ∧
      ∀ id a, h.registry.get id = some a →
        ∃ d, w.latest id = some d ∧ (a.conn.viaGateway = true ↔ d.afterConnect = true) := by
  have haccounted : Accounted h w := accounted_run hrun
  have hgauge : (w.opened : ℤ) - w.closed = (w.senders.filter fun c => isOpen h c = true).card := by
    have hcard := haccounted.gauge
    rw [gateways_eq haccounted.marked] at hcard
    omega
  refine ⟨hgauge, by omega, fun hclosed => ?_, fun id a ha => ?_⟩
  · rw [hgauge, Finset.filter_false_of_mem fun c _ => by simp [hclosed c]]
    rfl
  · obtain ⟨d, hd, hvia⟩ := haccounted.routed id a ha
    exact ⟨d, hd, by rw [hvia]⟩

/-- A gateway connect with a malformed payload. -/
def malformedConnect : AgentToServer :=
  { heartbeat with
    customMessage := some
      { capability := gatewayCapability, type := gatewayConnectType, data := "" } }

/-- Two gateway connects and a heartbeat on one connection, next to a plain one. -/
theorem gauge_of_malformed_connect :
    ∃ h w, run (watched noCodec) (Handler.start settings, {})
        [.connect 0 "websocket", .message 0 malformedConnect, .message 0 malformedConnect,
          .connect 1 "websocket", .message 0 heartbeat, .report 0 0 "" "", .reply 0] = some (h, w) ∧
      isOpen h 0 = true ∧ isOpen h 1 = true ∧ w.latest zeroUID = some ⟨0, true⟩ ∧
      (w.opened : ℤ) - w.closed = (w.senders.filter fun c => isOpen h c = true).card ∧
      (h.registry.get zeroUID).any (fun a => a.conn.viaGateway) = true := by
  have hfinal : ∃ final, run (watched noCodec) (Handler.start settings, {})
      [.connect 0 "websocket", .message 0 malformedConnect, .message 0 malformedConnect,
        .connect 1 "websocket", .message 0 heartbeat, .report 0 0 "" "", .reply 0] = some final ∧
      (isOpen final.1 0 = true ∧ isOpen final.1 1 = true ∧
        final.2.latest zeroUID = some ⟨0, true⟩ ∧
        (final.1.registry.get zeroUID).isSome = true) := by
    apply exists_run_of_any
    decide +kernel
  obtain ⟨⟨h, w⟩, hrun, hopen, hopen', hlatest, hregistered⟩ := hfinal
  obtain ⟨a, hget⟩ := Option.isSome_iff_exists.mp hregistered
  obtain ⟨hgauge, -, -, hroute⟩ := gateway_accounting_exact noCodec settings _ h w hrun
  obtain ⟨d, hd, hvia⟩ := hroute zeroUID a hget
  obtain rfl := Option.some.inj (hlatest.symm.trans hd)
  refine ⟨h, w, hrun, hopen, hopen', hlatest, hgauge, ?_⟩
  rw [hget]
  exact hvia.mpr rfl

end Grex.GatewayGauge
