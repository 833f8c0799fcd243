import Grex.LateClose

/-!
Why an agent stops being connected. Only two things do it: a sweep that finds the agent
past a threshold, and the close of a WebSocket connection that has carried a message of
it. The end of a plain HTTP request does not. A draining handler takes no further
connection and goes on serving those that are open.
-/

namespace Grex.Disconnects

open AgentState Message AgentProgram Handler Machine LateClose

variable {codec : Codec} {h h' : Handler} {a : Act} {id : String}

/-! ### What a connection remembers -/

/-- The connection has carried a message of the agent. -/
def Carried (past : List Act) (c : ℕ) (id : String) : Prop :=
  ∃ msg, .message c msg ∈ past ∧ instanceUID msg.instanceUid = .ok id

/-- The record of a connection agrees with what has been done over it. -/
structure Recorded (past : List Act) (c : ℕ) (conn : Conn) : Prop where
  opened : ∃ upgrade, .connect c upgrade ∈ past ∧ conn.state.transport = transportFor upgrade
  agents : ∀ id ∈ conn.state.agents, Carried past c id
  closing : ∀ todo, conn.phase = .closing todo → ∀ id ∈ todo, conn.state.transport = .ws ∧
    Carried past c id ∧ ∃ order, .close c order ∈ past

theorem Carried.append {past : List Act} {c : ℕ} (hcarried : Carried past c id) (a : Act) :
    Carried (past ++ [a]) c id := by
  obtain ⟨msg, hmsg, hid⟩ := hcarried
  exact ⟨msg, List.mem_append_left _ hmsg, hid⟩

theorem Recorded.append {past : List Act} {c : ℕ} {conn : Conn} (hrecorded : Recorded past c conn)
    (a : Act) : Recorded (past ++ [a]) c conn where
  opened := by
    obtain ⟨upgrade, hconnect, htransport⟩ := hrecorded.opened
    exact ⟨upgrade, List.mem_append_left _ hconnect, htransport⟩
  agents id hid := (hrecorded.agents id hid).append a
  closing todo htodo id hid := by
    obtain ⟨hws, hcarried, order, hclose⟩ := hrecorded.closing todo htodo id hid
    exact ⟨hws, hcarried.append a, order, List.mem_append_left _ hclose⟩

/-- A phase that closes nothing, over the same agents. -/
theorem Recorded.moved {past : List Act} {c : ℕ} {cs cs' : ConnState} {phase phase' : Phase}
    (hrecorded : Recorded past c ⟨cs, phase⟩) (htransport : cs'.transport = cs.transport)
    (hagents : ∀ id ∈ cs'.agents, id ∈ cs.agents ∨ Carried past c id)
    (hphase : ∀ todo, phase' ≠ .closing todo) : Recorded past c ⟨cs', phase'⟩ where
  opened := by
    obtain ⟨upgrade, hconnect, hsame⟩ := hrecorded.opened
    exact ⟨upgrade, hconnect, htransport.trans hsame⟩
  agents id hid := (hagents id hid).elim (hrecorded.agents id) fun hcarried => hcarried
  closing todo htodo := absurd htodo (hphase todo)

def AllRecorded (past : List Act) (h : Handler) : Prop :=
  ∀ c conn, h.conns.find c = some conn → Recorded past c conn

theorem AllRecorded.withConn {past : List Act} {c : ℕ} {conn : Conn} (hall : AllRecorded past h)
    (hconn : Recorded past c conn) (c' : ℕ) (conn' : Conn)
    (hfind : (h.withConn c conn).conns.find c' = some conn') : Recorded past c' conn' := by
  unfold Handler.withConn at hfind
  rw [FinMap.find_set] at hfind
  by_cases hc : c' = c
  · rw [if_pos hc] at hfind
    obtain rfl := Option.some.inj hfind
    rwa [hc]
  · rw [if_neg hc] at hfind
    exact hall c' conn' hfind

theorem mem_trackAgent {cs : ConnState} {msg : AgentToServer} (hid : id ∈ (trackAgent cs msg).agents) :
    id ∈ cs.agents ∨ instanceUID msg.instanceUid = .ok id := by
  unfold trackAgent at hid
  split at hid
  · exact Or.inl hid
  · rename_i k hk
    rcases Finset.mem_insert.mp hid with rfl | hold
    · exact Or.inr hk
    · exact Or.inl hold

theorem transport_trackAgent (cs : ConnState) (msg : AgentToServer) :
    (trackAgent cs msg).transport = cs.transport := by
  unfold trackAgent
  split <;> rfl

theorem allRecorded_step {past : List Act} (hall : AllRecorded past h) (hstep : Step codec h a h') :
    AllRecorded (past ++ [a]) h' := by
  have hlater : AllRecorded (past ++ [a]) h := fun c conn hconn => (hall c conn hconn).append a
  cases hstep with
  | drain => exact hlater
  | refuse hrefuse => exact hlater
  | readError hconn => exact hlater
  | sweepShard hshard horder => exact hlater
  | connect hfresh haccept =>
    rename_i c upgrade cs
    refine hlater.withConn ⟨⟨upgrade, by simp, ?_⟩, ?_, fun todo htodo => by cases htodo⟩
    · unfold onConnecting at haccept
      split_ifs at haccept
      obtain rfl := Except.ok.inj haccept
      rfl
    · unfold onConnecting at haccept
      split_ifs at haccept
      obtain rfl := Except.ok.inj haccept
      intro id hid
      simp at hid
  | gatewayConnect hconn hgateway =>
    refine hlater.withConn ((hlater _ _ hconn).moved rfl (fun id hid => Or.inl hid) ?_)
    intro todo htodo
    cases htodo
  | message hconn hdirect =>
    rename_i c msg cs
    refine hlater.withConn ((hlater _ _ hconn).moved (transport_trackAgent cs msg) ?_ ?_)
    · intro id hid
      rcases mem_trackAgent hid with hold | hnew
      · exact Or.inl hold
      · exact Or.inr ⟨msg, by simp, hnew⟩
    · intro todo htodo
      cases htodo
  | report hconn =>
    refine hlater.withConn ((hlater _ _ hconn).moved rfl (fun id hid => Or.inl hid) ?_)
    intro todo htodo
    cases htodo
  | reply hconn =>
    refine hlater.withConn ((hlater _ _ hconn).moved rfl (fun id hid => Or.inl hid) ?_)
    intro todo htodo
    cases htodo
  | close hconn horder =>
    rename_i c order cs
    have hold := hlater _ _ hconn
    refine hlater.withConn ⟨hold.opened, fun id hid => by simp at hid, fun todo htodo id hid => ?_⟩
    -- only the close of a WebSocket leaves agents to disconnect
    cases htransport : cs.transport with
    | http =>
      simp only [closePhase, htransport, Phase.closing.injEq] at htodo
      subst htodo
      cases hid
    | ws =>
      simp only [closePhase, htransport, Phase.closing.injEq] at htodo
      subst htodo
      exact ⟨rfl, hold.agents id ((horder.mem_iff id).mp hid), order, by simp⟩
  | disconnect hconn =>
    rename_i c cs k todo
    have hold := hlater _ _ hconn
    refine hlater.withConn ⟨hold.opened, hold.agents, fun todo' htodo id hid => ?_⟩
    obtain rfl := Phase.closing.inj htodo
    exact hold.closing _ rfl id (List.mem_cons_of_mem k hid)

theorem allRecorded_run {cfg : Config} {acts : List Act}
    (hrun : run (machine codec) (start cfg) acts = some h) : AllRecorded acts h := by
  refine run_history AllRecorded ?_ ?_ hrun
  · intro past s a t hs hst
    exact allRecorded_step hs (step_of_machine hst)
  · intro c conn hconn
    simp [start] at hconn

/-! ### What a step does to the connected flag -/

theorem reportsConnected_congr (hget : h'.registry.get id = h.registry.get id) :
    reportsConnected h' id = reportsConnected h id := by
  unfold reportsConnected
  rw [hget]

theorem get_report_of_ne {r : Registry} {now : ℤ} {msg : AgentToServer} {link : ConnMeta}
    (hid : instanceUID msg.instanceUid ≠ .ok id) : (r.report now msg link).1.get id = r.get id := by
  cases huid : instanceUID msg.instanceUid with
  | error err => simp [Registry.report, huid]
  | ok k =>
    have hne : id ≠ k := fun heq => hid (heq ▸ huid)
    exact (r.get_report now msg link k id huid).trans (if_neg hne)

/-- A sweep of the shard of a connected agent that leaves it otherwise has found it late. -/
theorem late_of_sweep {r : Registry} {now : ℤ} {shard : ℕ} {order : List String}
    (horder : FinMap.Enumerates order (r.shards shard).keys)
    (hbefore : (r.get id).any (fun a => a.connected) = true)
    (hafter : ((r.sweepShard now order).1.get id).any (fun a => a.connected) = false) :
    ∃ agent, r.get id = some agent ∧ r.shardFor id = shard ∧
      (age now agent > r.cfg.disconnectThreshold ∨ age now agent > r.cfg.evictAfter) := by
  have hget := r.get_sweepShard_enumerates now shard order horder id
  obtain ⟨agent, hslot, hconnected⟩ := (Option.any_eq_true _ _).mp hbefore
  by_cases hshard : r.shardFor id = shard
  · rw [if_pos hshard, hslot, Registry.sweptSlot, runProgram_sweep] at hget
    refine ⟨agent, hslot, hshard, ?_⟩
    by_contra hontime
    rw [not_or] at hontime
    rw [hget, if_neg hontime.2] at hafter
    simp [hconnected, hontime.1] at hafter
  · rw [if_neg hshard, hslot] at hget
    rw [hget] at hafter
    simp [hconnected] at hafter

theorem disconnected_step (hstep : Step codec h a h') (hbefore : reportsConnected h id = true)
    (hafter : reportsConnected h' id = false) :
    (∃ shard now order agent, a = .sweepShard shard now order ∧ h.registry.get id = some agent ∧
      h.registry.shardFor id = shard ∧ (age now agent > h.registry.cfg.disconnectThreshold ∨
        age now agent > h.registry.cfg.evictAfter)) ∨
    ∃ c cs todo, a = .disconnect c ∧ h.conns.find c = some ⟨cs, .closing (id :: todo)⟩ := by
  have hsame : h'.registry.get id ≠ h.registry.get id := by
    intro hget
    rw [reportsConnected_congr hget, hbefore] at hafter
    cases hafter
  cases hstep with
  | report hconn =>
    rename_i c now remoteAddr tlsSubject cs msg
    by_cases hid : instanceUID msg.instanceUid = .ok id
    · have hget := h.registry.get_report now msg (connMeta cs remoteAddr tlsSubject) id id hid
      rw [if_pos rfl] at hget
      unfold reportsConnected at hafter
      rw [hget, Option.any_some, (reported_presence _ _ _ _ _).1] at hafter
      cases hafter
    · exact absurd (get_report_of_ne hid) hsame
  | disconnect hconn =>
    rename_i c cs k todo
    by_cases hk : k = id
    · exact Or.inr ⟨c, cs, todo, rfl, hk ▸ hconn⟩
    · exact absurd ((h.registry.get_setConnected k id false).trans (if_neg (Ne.symm hk))) hsame
  | sweepShard hshard horder =>
    rename_i shard now order
    obtain ⟨agent, hslot, howner, hlate⟩ := late_of_sweep horder hbefore hafter
    exact Or.inl ⟨shard, now, order, agent, rfl, hslot, howner, hlate⟩
  | _ => exact absurd rfl hsame

/-- In every run an agent stops being connected only in a sweep that finds it past a
threshold, or in the close of a WebSocket connection over which a message of it came. -/
theorem disconnect_cause (codec : Codec) (cfg : Config) (id : String) (acts : List Act)
    (h h' : Handler) (a : Act) (hrun : run (machine codec) (start cfg) acts = some h)
    (hstep : machine codec h a = some h') (hbefore : reportsConnected h id = true)
    (hafter : reportsConnected h' id = false) :
    (∃ shard now order agent, a = .sweepShard shard now order ∧ h.registry.get id = some agent ∧
      h.registry.shardFor id = shard ∧ (age now agent > h.registry.cfg.disconnectThreshold ∨
        age now agent > h.registry.cfg.evictAfter)) ∨
    ∃ c upgrade msg order, a = .disconnect c ∧ .connect c upgrade ∈ acts ∧
      transportFor upgrade = .ws ∧ .message c msg ∈ acts ∧
      instanceUID msg.instanceUid = .ok id ∧ .close c order ∈ acts := by
  rcases disconnected_step (step_of_machine hstep) hbefore hafter with hswept | hclosed
  · exact Or.inl hswept
  · obtain ⟨c, cs, todo, rfl, hconn⟩ := hclosed
    have hrecorded := allRecorded_run hrun c _ hconn
    obtain ⟨hws, ⟨msg, hmsg, hid⟩, order, hclose⟩ :=
      hrecorded.closing _ rfl id List.mem_cons_self
    obtain ⟨upgrade, hconnect, htransport⟩ := hrecorded.opened
    exact Or.inr ⟨c, upgrade, msg, order, rfl, hconnect, htransport.symm.trans hws, hmsg, hid, hclose⟩

/-- An agent heartbeats over a socket, which is then closed. -/
def closedSocket : List Act :=
  [.connect 0 "websocket", .message 0 heartbeat, .report 0 0 "" "", .reply 0, .close 0 [zeroUID]]

theorem disconnect_cause_closed : ∃ h h', run (machine noCodec) (start settings) closedSocket =
      some h ∧ machine noCodec h (.disconnect 0) = some h' ∧ reportsConnected h zeroUID = true ∧
    reportsConnected h' zeroUID = false ∧
    ∃ upgrade msg order, .connect 0 upgrade ∈ closedSocket ∧ transportFor upgrade = .ws ∧
      .message 0 msg ∈ closedSocket ∧ instanceUID msg.instanceUid = .ok zeroUID ∧
      .close 0 order ∈ closedSocket := by
  obtain ⟨h, hrun, hbefore, hlast⟩ : ∃ h, run (machine noCodec) (start settings) closedSocket =
      some h ∧ reportsConnected h zeroUID = true ∧
      (machine noCodec h (.disconnect 0)).any fun h' => !reportsConnected h' zeroUID :=
    exists_run_of_any (by decide +kernel)
  obtain ⟨h', hstep, hend⟩ := (Option.any_eq_true _ _).mp hlast
  have hafter : reportsConnected h' zeroUID = false := by simpa using hend
  rcases disconnect_cause noCodec settings zeroUID _ h h' _ hrun hstep hbefore hafter with
    ⟨_, _, _, _, hact, -⟩ | ⟨c, upgrade, msg, order, hact, hcause⟩
  · cases hact
  · obtain rfl := Act.disconnect.inj hact
    exact ⟨h, h', hrun, hstep, hbefore, hafter, upgrade, msg, order, hcause⟩

/-! ### Draining -/

theorem draining_step (hdraining : h.draining = true) (hstep : Step codec h a h') :
    h'.draining = true ∧ ∀ c, (h'.conns.find c).isSome → (h.conns.find c).isSome := by
  have hwith : ∀ {c : ℕ} {old conn : Conn}, h.conns.find c = some old →
      ∀ k, ((h.withConn c conn).conns.find k).isSome → (h.conns.find k).isSome := by
    intro c old conn hold k hk
    unfold withConn at hk
    rw [FinMap.find_set] at hk
    by_cases hkc : k = c
    · rw [hkc, hold]
      rfl
    · rwa [if_neg hkc] at hk
  cases hstep with
  | drain => exact ⟨rfl, fun c hc => hc⟩
  | connect hfresh haccept => simp [onConnecting, hdraining] at haccept
  | refuse hrefuse => exact ⟨hdraining, fun c hc => hc⟩
  | gatewayConnect hconn hgateway => exact ⟨hdraining, hwith hconn⟩
  | message hconn hdirect => exact ⟨hdraining, hwith hconn⟩
  | report hconn => exact ⟨hdraining, hwith hconn⟩
  | reply hconn => exact ⟨hdraining, hwith hconn⟩
  | readError hconn => exact ⟨hdraining, fun c hc => hc⟩
  | close hconn horder => exact ⟨hdraining, hwith hconn⟩
  | disconnect hconn => exact ⟨hdraining, hwith hconn⟩
  | sweepShard hshard horder => exact ⟨hdraining, fun c hc => hc⟩

theorem isOpen_step (hdraining : h.draining = true) (hstep : Step codec h a h') {c : ℕ}
    (hopen : isOpen h' c = true) : isOpen h c = true := by
  unfold isOpen at hopen ⊢
  rw [Bool.and_eq_true, Bool.not_eq_true'] at hopen ⊢
  refine ⟨(draining_step hdraining hstep).2 c hopen.1, ?_⟩
  by_contra hclosed
  rw [closed_step hstep (by simpa using hclosed)] at hopen
  cases hopen.2

/-- After a drain no connection is opened any more, and every message that is still served comes
over one that was open then. -/
theorem drained_serves_open (codec : Codec) (h t : Handler) (acts : List Act)
    (hdraining : h.draining = true) (hrun : run (machine codec) h acts = some t) :
    (∀ c, isOpen t c = true → isOpen h c = true) ∧
      ∀ c msg, .message c msg ∈ acts → isOpen h c = true := by
  induction acts generalizing h with
  | nil =>
    obtain rfl : h = t := Option.some.inj hrun
    exact ⟨fun c hc => hc, fun c msg hmsg => absurd hmsg List.not_mem_nil⟩
  | cons a acts ih =>
    obtain ⟨u, hst, htail⟩ := run_cons_eq_some.mp hrun
    have hstep := step_of_machine hst
    obtain ⟨hopen, hserved⟩ := ih u (draining_step hdraining hstep).1 htail
    refine ⟨fun c hc => isOpen_step hdraining hstep (hopen c hc), fun c msg hmsg => ?_⟩
    rcases List.mem_cons.mp hmsg with rfl | hlater
    · have hwaiting : ∃ cs, h.conns.find c = some ⟨cs, .waiting⟩ := by
        cases hstep with
        | gatewayConnect hconn hgateway => exact ⟨_, hconn⟩
        | message hconn hdirect => exact ⟨_, hconn⟩
      obtain ⟨cs, hconn⟩ := hwaiting
      simp [isOpen, closed, hconn]
    · exact isOpen_step hdraining hstep (hserved c msg hlater)

/-- A socket that is open at the drain is served, and a later one is refused. -/
theorem drained_serves_open_socket : ∃ h t, run (machine noCodec) (start settings)
      [.connect 0 "websocket", .drain] = some h ∧
    run (machine noCodec) h [.connect 1 "websocket", .message 0 heartbeat, .report 0 0 "" ""] =
      some t ∧
    reportsConnected t zeroUID = true ∧ isOpen h 0 = true ∧ isOpen t 1 = false := by
  obtain ⟨h, hrun, hdraining, hrefused, hlast⟩ : ∃ h, run (machine noCodec) (start settings)
      [.connect 0 "websocket", .drain] = some h ∧ h.draining = true ∧ isOpen h 1 = false ∧
      (run (machine noCodec) h
        [.connect 1 "websocket", .message 0 heartbeat, .report 0 0 "" ""]).any fun t =>
          reportsConnected t zeroUID :=
    exists_run_of_any (by decide +kernel)
  obtain ⟨t, hrun', hconnected⟩ := (Option.any_eq_true _ _).mp hlast
  obtain ⟨hopen, hserved⟩ := drained_serves_open noCodec h t _ hdraining hrun'
  refine ⟨h, t, hrun, hrun', hconnected, hserved 0 heartbeat (by simp), ?_⟩
  by_contra hnew
  rw [hopen 1 (by simpa using hnew)] at hrefused
  cases hrefused

end Grex.Disconnects
