import Grex.Machine
import Grex.Registry

/-!
The OpAMP handler in front of one registry, as a machine. Every connection has
bookkeeping of its own and runs its callbacks one after another, the close
last; the callbacks of different connections interleave with each other and
with sweeps. A callback that reaches the registry more than once can be
overtaken between any two of these accesses, each of which is atomic because it
holds the agent's shard lock. The JSON payload of a gateway connect is decoded
and its answer encoded by a given codec; log lines are left out.
-/

namespace Grex.Handler

open AgentState Message

def gatewayCapability : String := "com.bindplane.opamp-gateway"

def gatewayConnectType : String := "connect"

def gatewayConnectResultType : String := "connectResult"

/-- The part of a gateway connect payload that the answer depends on. -/
structure GatewayConnect where
  requestUID : String := ""
  deriving DecidableEq

structure GatewayConnectResult where
  requestUID : String := ""
  accept : Bool
  httpStatusCode : ℕ
  deriving DecidableEq

structure Codec where
  unmarshal : String → Option GatewayConnect
  marshal : GatewayConnectResult → Option String

inductive Metric
  | message
  | messageError
  | gatewayConnect (accepted : Bool)
  | gatewayConnectionOpened
  | gatewayConnectionClosed
  deriving DecidableEq

structure ServerToAgent where
  instanceUid : List UInt8
  flags : UInt64 := 0
  capabilities : UInt64 := 0
  customMessage : Option CustomMessage := none
  deriving DecidableEq

def acceptsStatus : UInt64 := 1

def reportFullState : UInt64 := 1

/-- What a callback counts and what it answers. -/
structure Output where
  metrics : List Metric := []
  reply : Option ServerToAgent := none
  deriving DecidableEq

inductive Transport
  | ws
  | http
  deriving DecidableEq

def Transport.string : Transport → String
  | .ws => "ws"
  | .http => "http"

/-- Case folding, as far as it can meet an ASCII letter: besides the capital
letters, the Kelvin sign folds to k and the long s to s. -/
def fold (c : Char) : Char :=
  if c.toNat = 0x212A then 'k' else if c.toNat = 0x17F then 's' else c.toLower

/-- The transport of a request, by its Upgrade header. -/
def transportFor (upgrade : String) : Transport :=
  if upgrade.toList.map fold = "websocket".toList then .ws else .http

structure ConnState where
  transport : Transport
  viaGateway : Bool := false
  agents : Finset String := ∅

/-- A draining handler refuses with the status it answers. -/
def onConnecting (draining : Bool) (upgrade : String) : Except ℕ ConnState :=
  if draining then .error 503 else .ok { transport := transportFor upgrade }

def gatewayConnectOf (msg : AgentToServer) : Option CustomMessage :=
  msg.customMessage.filter fun custom =>
    decide (custom.capability = gatewayCapability ∧ custom.type = gatewayConnectType)

def gatewayAnswer (codec : Codec) (data : String) : GatewayConnectResult :=
  match codec.unmarshal data with
  | none => { accept := false, httpStatusCode := 400 }
  | some connect => { requestUID := connect.requestUID, accept := true, httpStatusCode := 200 }

def onGatewayConnect (codec : Codec) (cs : ConnState) (msg : AgentToServer)
    (custom : CustomMessage) : ConnState × Output :=
  let result := gatewayAnswer codec custom.data
  ({ cs with viaGateway := true }, {
    metrics := (if cs.viaGateway then [] else [.gatewayConnectionOpened]) ++
      [.gatewayConnect result.accept]
    reply := (codec.marshal result).map fun data => {
      instanceUid := msg.instanceUid
      customMessage := some {
        capability := gatewayCapability
        type := gatewayConnectResultType
        data := data } } })

def trackAgent (cs : ConnState) (msg : AgentToServer) : ConnState :=
  match instanceUID msg.instanceUid with
  | .error _ => cs
  | .ok id => { cs with agents := insert id cs.agents }

/-- The address and the certificate subject are empty where the connection has
none. -/
def connMeta (cs : ConnState) (remoteAddr tlsSubject : String) : ConnMeta where
  remoteAddr := remoteAddr
  tlsSubject := tlsSubject
  viaGateway := cs.viaGateway
  transport := cs.transport.string

def needsFullState (r : Registry) (msg : AgentToServer) : Bool :=
  match instanceUID msg.instanceUid with
  | .error _ => false
  | .ok id => (r.get id).any fun a => !a.descriptionReported

def statusReply (r : Registry) (msg : AgentToServer) : ServerToAgent where
  instanceUid := msg.instanceUid
  capabilities := acceptsStatus
  flags := if needsFullState r msg then reportFullState else 0

/-- Where a connection stands: between callbacks, in `onMessage` before its
report or before its reply, or in the close callback with the agents it has yet
to disconnect. A closed connection stays in the last phase. -/
inductive Phase
  | waiting
  | reporting (msg : AgentToServer)
  | replying (msg : AgentToServer)
  | closing (todo : List String)

structure Conn where
  state : ConnState
  phase : Phase := .waiting

end Handler

open Handler in
structure Handler where
  registry : Registry
  conns : FinMap ℕ Conn := ∅
  draining : Bool := false

namespace Handler

open AgentState Message Machine

inductive Act
  | drain
  | connect (c : ℕ) (upgrade : String)
  | message (c : ℕ) (msg : AgentToServer)
  | report (c : ℕ) (now : ℤ) (remoteAddr tlsSubject : String)
  | reply (c : ℕ)
  | readError (c : ℕ)
  | close (c : ℕ) (order : List String)
  | disconnect (c : ℕ)
  | sweepShard (shard : ℕ) (now : ℤ) (order : List String)

/-- The handler with one connection's record replaced. -/
def withConn (h : Handler) (c : ℕ) (conn : Conn) : Handler :=
  { h with conns := h.conns.insert c conn }

/-- The phase a close leads to: only a WebSocket's close disconnects. -/
def closePhase (cs : ConnState) (order : List String) : Phase :=
  match cs.transport with
  | .ws => .closing order
  | .http => .closing []

def step (codec : Codec) (h : Handler) : Act → Option (Handler × Output)
  | .drain => some ({ h with draining := true }, {})
  | .connect c upgrade =>
      match h.conns.find c, onConnecting h.draining upgrade with
      | none, .ok cs => some (h.withConn c { state := cs }, {})
      | none, .error _ => some (h, {})
      | some _, _ => none
  | .message c msg =>
      match h.conns.find c with
      | some ⟨cs, .waiting⟩ =>
          match gatewayConnectOf msg with
          | some custom =>
              let (cs', out) := onGatewayConnect codec cs msg custom
              some (h.withConn c ⟨cs', .waiting⟩, { out with metrics := .message :: out.metrics })
          | none =>
              some (h.withConn c ⟨trackAgent cs msg, .reporting msg⟩, { metrics := [.message] })
      | _ => none
  | .report c now remoteAddr tlsSubject =>
      match h.conns.find c with
      | some ⟨cs, .reporting msg⟩ =>
          some ({ h.withConn c ⟨cs, .replying msg⟩ with
            registry := (h.registry.report now msg (connMeta cs remoteAddr tlsSubject)).1 }, {})
      | _ => none
  | .reply c =>
      match h.conns.find c with
      | some ⟨cs, .replying msg⟩ =>
          some (h.withConn c ⟨cs, .waiting⟩, { reply := some (statusReply h.registry msg) })
      | _ => none
  | .readError c =>
      match h.conns.find c with
      | some ⟨_, .waiting⟩ => some (h, { metrics := [.messageError] })
      | _ => none
  | .close c order =>
      match h.conns.find c with
      | some ⟨cs, .waiting⟩ =>
          if FinMap.Enumerates order cs.agents then
            some (h.withConn c ⟨{ cs with agents := ∅ }, closePhase cs order⟩,
              { metrics := if cs.viaGateway then [.gatewayConnectionClosed] else [] })
          else none
      | _ => none
  | .disconnect c =>
      match h.conns.find c with
      | some ⟨cs, .closing (id :: todo)⟩ =>
          some ({ h.withConn c ⟨cs, .closing todo⟩ with
            registry := (h.registry.setConnected id false).1 }, {})
      | _ => none
  | .sweepShard shard now order =>
      if shard < h.registry.count ∧ FinMap.Enumerates order (h.registry.shards shard).keys then
        some ({ h with registry := (h.registry.sweepShard now order).1 }, {})
      else none

/-- Everything one step can do to the handler, with the conditions it needs. -/
inductive Step (codec : Codec) : Handler → Act → Handler → Prop
  | drain {h : Handler} : Step codec h .drain { h with draining := true }
  | connect {h : Handler} {c : ℕ} {upgrade : String} {cs : ConnState}
      (hfresh : h.conns.find c = none) (haccept : onConnecting h.draining upgrade = .ok cs) :
      Step codec h (.connect c upgrade) (h.withConn c { state := cs })
  | refuse {h : Handler} {c : ℕ} {upgrade : String} {status : ℕ}
      (hrefuse : onConnecting h.draining upgrade = .error status) :
      Step codec h (.connect c upgrade) h
  | gatewayConnect {h : Handler} {c : ℕ} {msg : AgentToServer} {cs : ConnState}
      {custom : CustomMessage} (hconn : h.conns.find c = some ⟨cs, .waiting⟩)
      (hgateway : gatewayConnectOf msg = some custom) :
      Step codec h (.message c msg)
        (h.withConn c ⟨(onGatewayConnect codec cs msg custom).1, .waiting⟩)
  | message {h : Handler} {c : ℕ} {msg : AgentToServer} {cs : ConnState}
      (hconn : h.conns.find c = some ⟨cs, .waiting⟩) (hdirect : gatewayConnectOf msg = none) :
      Step codec h (.message c msg) (h.withConn c ⟨trackAgent cs msg, .reporting msg⟩)
  | report {h : Handler} {c : ℕ} {now : ℤ} {remoteAddr tlsSubject : String} {cs : ConnState}
      {msg : AgentToServer} (hconn : h.conns.find c = some ⟨cs, .reporting msg⟩) :
      Step codec h (.report c now remoteAddr tlsSubject)
        { h.withConn c ⟨cs, .replying msg⟩ with
          registry := (h.registry.report now msg (connMeta cs remoteAddr tlsSubject)).1 }
  | reply {h : Handler} {c : ℕ} {cs : ConnState} {msg : AgentToServer}
      (hconn : h.conns.find c = some ⟨cs, .replying msg⟩) :
      Step codec h (.reply c) (h.withConn c ⟨cs, .waiting⟩)
  | readError {h : Handler} {c : ℕ} {cs : ConnState}
      (hconn : h.conns.find c = some ⟨cs, .waiting⟩) : Step codec h (.readError c) h
  | close {h : Handler} {c : ℕ} {order : List String} {cs : ConnState}
      (hconn : h.conns.find c = some ⟨cs, .waiting⟩)
      (horder : FinMap.Enumerates order cs.agents) :
      Step codec h (.close c order)
        (h.withConn c ⟨{ cs with agents := ∅ }, closePhase cs order⟩)
  | disconnect {h : Handler} {c : ℕ} {cs : ConnState} {id : String} {todo : List String}
      (hconn : h.conns.find c = some ⟨cs, .closing (id :: todo)⟩) :
      Step codec h (.disconnect c)
        { h.withConn c ⟨cs, .closing todo⟩ with
          registry := (h.registry.setConnected id false).1 }
  | sweepShard {h : Handler} {shard : ℕ} {now : ℤ} {order : List String}
      (hshard : shard < h.registry.count)
      (horder : FinMap.Enumerates order (h.registry.shards shard).keys) :
      Step codec h (.sweepShard shard now order)
        { h with registry := (h.registry.sweepShard now order).1 }

theorem step_cases {codec : Codec} {h h' : Handler} {a : Act} {out : Output}
    (hstep : h.step codec a = some (h', out)) : Step codec h a h' := by
  cases a with
  | drain =>
    cases hstep
    exact .drain
  | connect c upgrade =>
    simp only [step] at hstep
    split at hstep
    · rename_i cs hfresh haccept
      cases hstep
      exact .connect hfresh haccept
    · rename_i status _ hrefuse
      cases hstep
      exact .refuse hrefuse
    · cases hstep
  | message c msg =>
    simp only [step] at hstep
    split at hstep
    · rename_i cs hconn
      split at hstep
      · rename_i custom hgateway
        cases hstep
        exact .gatewayConnect hconn hgateway
      · rename_i hdirect
        cases hstep
        exact .message hconn hdirect
    · cases hstep
  | report c now remoteAddr tlsSubject =>
    simp only [step] at hstep
    split at hstep
    · rename_i cs msg hconn
      cases hstep
      exact .report hconn
    · cases hstep
  | reply c =>
    simp only [step] at hstep
    split at hstep
    · rename_i cs msg hconn
      cases hstep
      exact .reply hconn
    · cases hstep
  | readError c =>
    simp only [step] at hstep
    split at hstep
    · rename_i cs hconn
      cases hstep
      exact .readError hconn
    · cases hstep
  | close c order =>
    simp only [step] at hstep
    split at hstep
    · rename_i cs hconn
      split at hstep
      · rename_i horder
        cases hstep
        exact .close hconn horder
      · cases hstep
    · cases hstep
  | disconnect c =>
    simp only [step] at hstep
    split at hstep
    · rename_i cs id todo hconn
      cases hstep
      exact .disconnect hconn
    · cases hstep
  | sweepShard shard now order =>
    simp only [step] at hstep
    split at hstep
    · rename_i hsweep
      cases hstep
      exact .sweepShard hsweep.1 hsweep.2
    · cases hstep

/-- The handler as a machine, its outputs dropped. -/
def machine (codec : Codec) (h : Handler) (a : Act) : Option Handler :=
  (h.step codec a).map Prod.fst

theorem step_of_machine {codec : Codec} {h h' : Handler} {a : Act}
    (hstep : machine codec h a = some h') : Step codec h a h' := by
  obtain ⟨⟨h'', out⟩, hsome, rfl⟩ := Option.map_eq_some_iff.mp hstep
  exact step_cases hsome

/-- A fresh handler over an empty registry. -/
def start (cfg : Config) : Handler where
  registry := Registry.new cfg

end Handler

end Grex
