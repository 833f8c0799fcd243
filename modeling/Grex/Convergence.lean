import Grex.LastWriter
import Grex.Tables
import Mathlib.Tactic.FinCases

/-!
Guarded writes of one agent converge. The agents row with its config files is
one last-writer register, written by `SaveAgent` under a strict guard; the
session row is another, written by `SaveAgent` and `SaveSession` under a guard
that admits ties. Projecting a sequence of calls onto the two registers reduces
every order of arrival to the register theorem.
-/

namespace Grex.Convergence

open GoTime AgentState Tables LastWriter

inductive Call
  | saveAgent (a : Agent)
  | saveSession (a : Agent)

def Call.agent : Call → Agent
  | .saveAgent a => a
  | .saveSession a => a

/-- The event time of a call, at the precision the database keeps. -/
def Call.stamp (c : Call) : ℤ := micros c.agent.lastSeen

/-- A call runs as one atomic statement or transaction. -/
def Call.apply (db : Database) : Call → Database
  | .saveAgent a => Tables.saveAgent db a
  | .saveSession a => (Tables.saveSession db a).getD db

def applyAll (db : Database) (calls : List Call) : Database := calls.foldl Call.apply db

/-- The snapshots given to `SaveAgent`. -/
def savedAgents (calls : List Call) : List Agent :=
  calls.filterMap fun
    | .saveAgent a => some a
    | .saveSession _ => none

theorem mem_savedAgents (calls : List Call) (a : Agent) :
    a ∈ savedAgents calls ↔ Call.saveAgent a ∈ calls := by
  unfold savedAgents
  rw [List.mem_filterMap]
  constructor
  · intro h
    obtain ⟨c, hc, heq⟩ := h
    cases c with
    | saveAgent b =>
      obtain rfl := Option.some.inj heq
      exact hc
    | saveSession b => cases heq
  · intro h
    exact ⟨_, h, rfl⟩

/-- The columns of an agents row that an update rewrites. -/
def columns (row : AgentRow) : AgentRow := { row with firstSeen := 0, evictedAt := none }

/-- An agents row together with the agent's config files. -/
abbrev Record := AgentRow × (String → Option ConfigRow)

/-- `SaveAgent` on an agent that has its rows. -/
def putAgent (s : Record) (a : Agent) : Record :=
  (upsertAgentRow (some s.1) a, if agentsUpdated (some s.1) a then configRow a else s.2)

theorem putAgent_of_older {s : Record} {a : Agent} (h : micros a.lastSeen < s.1.updatedAt) :
    putAgent s a = s := by
  have hnot : ¬ s.1.updatedAt < micros a.lastSeen := by omega
  simp [putAgent, upsertAgentRow, agentsUpdated, hnot]

theorem putAgent_of_newer {s : Record} {a : Agent} (h : s.1.updatedAt < micros a.lastSeen) :
    (columns (putAgent s a).1, (putAgent s a).2) = (columns (agentRow a), configRow a) := by
  simp [putAgent, upsertAgentRow, agentsUpdated, h, columns, agentRow]

def agentRegister : Register Record Agent ℤ Record where
  stamp s := s.1.updatedAt
  key a := micros a.lastSeen
  put := putAgent
  view s := (columns s.1, s.2)
  fresh a := (columns (agentRow a), configRow a)
  stamp_put s a := updatedAt_upsertAgentRow s.1 a
  view_of_older _ _ h := congrArg (fun s => (columns s.1, s.2)) (putAgent_of_older h)
  view_of_newer _ _ h := putAgent_of_newer h

def sessionRegister : Register SessionRow Agent ℤ SessionRow where
  stamp s := s.updatedAt
  key a := micros a.lastSeen
  put s a := upsertSessionRow (some s) a
  view s := s
  fresh a := sessionRow a
  stamp_put s a := updatedAt_upsertSessionRow s a
  view_of_older s a h := upsertSessionRow_of_older s a h
  view_of_newer s a h := upsertSessionRow_of_newer s a h.le

/-- The rows one agent has in the three tables. -/
structure Stored (db : Database) (x : String) (s : Record) (session : SessionRow) : Prop where
  agents : db.agents.find x = some s.1
  configs : ∀ file, db.configs.find (x, file) = s.2 file
  sessions : db.sessions.find x = some session

theorem Stored.saveAgent {db : Database} {a : Agent} {s : Record} {session : SessionRow}
    (h : Stored db a.instanceUID s session) :
    Stored (Tables.saveAgent db a) a.instanceUID (agentRegister.put s a)
      (sessionRegister.put session a) where
  agents := by
    rw [agents_saveAgent, FinMap.find_set_self, h.agents]
    rfl
  configs file := by
    rw [find_configs_saveAgent, h.agents, h.configs]
    simp only [true_and, agentRegister, putAgent]
    split <;> rfl
  sessions := by
    rw [sessions_saveAgent, FinMap.find_set_self, h.sessions]
    rfl

theorem Stored.saveSession {db : Database} {a : Agent} {s : Record} {session : SessionRow}
    (h : Stored db a.instanceUID s session) :
    Stored ((Tables.saveSession db a).getD db) a.instanceUID s (sessionRegister.put session a) := by
  have hmem : a.instanceUID ∈ db.agents.keys := by
    rw [FinMap.mem_keys, h.agents]
    rfl
  obtain ⟨db', hdb'⟩ := Option.isSome_iff_exists.mp ((saveSession_isSome db a).mpr hmem)
  obtain ⟨hagents, hsessions, hconfigs, _⟩ := saveSession_eq_some hdb'
  rw [hdb', Option.getD_some]
  refine ⟨?_, fun file => ?_, ?_⟩
  · rw [hagents]
    exact h.agents
  · rw [hconfigs]
    exact h.configs file
  · rw [hsessions, FinMap.find_set_self, h.sessions]
    rfl

/-- A sequence of calls acts on the agent's rows as two registers. -/
theorem stored_applyAll (x : String) (calls : List Call)
    (hx : ∀ c ∈ calls, c.agent.instanceUID = x) (db : Database) (s : Record)
    (session : SessionRow) (h : Stored db x s session) :
    Stored (applyAll db calls) x (writeAll agentRegister s (savedAgents calls))
      (writeAll sessionRegister session (calls.map Call.agent)) := by
  induction calls generalizing db s session with
  | nil => exact h
  | cons c calls ih =>
    have hc : c.agent.instanceUID = x := hx c List.mem_cons_self
    have htail := ih fun d hd => hx d (List.mem_cons_of_mem c hd)
    subst hc
    cases c with
    | saveAgent a => exact htail _ _ _ h.saveAgent
    | saveSession a => exact htail _ _ _ h.saveSession

/-- Calls on one agent that tie neither with each other nor with its rows. -/
structure Distinct (x : String) (row : AgentRow) (session : SessionRow)
    (calls : List Call) : Prop where
  same_agent : ∀ c ∈ calls, c.agent.instanceUID = x
  nodup : (calls.map Call.stamp).Nodup
  ne_row : ∀ c ∈ calls, c.stamp ≠ row.updatedAt
  ne_session : ∀ c ∈ calls, c.stamp ≠ session.updatedAt

theorem savedAgents_stamps (calls : List Call) :
    ((savedAgents calls).map fun a => micros a.lastSeen).Sublist (calls.map Call.stamp) := by
  induction calls with
  | nil => exact List.Sublist.refl _
  | cons c calls ih =>
    cases c with
    | saveAgent a => exact ih.cons_cons (micros a.lastSeen)
    | saveSession a => exact ih.cons (micros a.lastSeen)

theorem Distinct.untied_agents {x : String} {row : AgentRow} {session : SessionRow}
    {calls : List Call} (h : Distinct x row session calls) (configs : String → Option ConfigRow) :
    Untied agentRegister (row, configs) (savedAgents calls) where
  nodup := h.nodup.sublist (savedAgents_stamps calls)
  ne_stamp a ha := h.ne_row _ ((mem_savedAgents calls a).mp ha)

theorem Distinct.untied_sessions {x : String} {row : AgentRow} {session : SessionRow}
    {calls : List Call} (h : Distinct x row session calls) :
    Untied sessionRegister session (calls.map Call.agent) where
  nodup := by
    rw [List.map_map]
    exact h.nodup
  ne_stamp a ha := by
    obtain ⟨c, hc, rfl⟩ := List.mem_map.mp ha
    exact h.ne_session c hc

theorem Distinct.perm {x : String} {row : AgentRow} {session : SessionRow}
    {calls order : List Call} (h : Distinct x row session calls) (hp : calls.Perm order) :
    Distinct x row session order where
  same_agent c hc := h.same_agent c (hp.mem_iff.mpr hc)
  nodup := (hp.map Call.stamp).nodup_iff.mp h.nodup
  ne_row c hc := h.ne_row c (hp.mem_iff.mpr hc)
  ne_session c hc := h.ne_session c (hp.mem_iff.mpr hc)

theorem savedAgents_perm {calls order : List Call} (hp : calls.Perm order) :
    (savedAgents calls).Perm (savedAgents order) :=
  hp.filterMap _

/-- All the tables say about one agent, first sight and eviction apart. -/
def contents (db : Database) (x : String) :
    Option AgentRow × (String → Option ConfigRow) × Option SessionRow :=
  ((db.agents.find x).map columns, fun file => db.configs.find (x, file), db.sessions.find x)

theorem Stored.contents_eq {db : Database} {x : String} {s : Record} {session : SessionRow}
    (h : Stored db x s session) :
    contents db x = (some (agentRegister.view s).1, (agentRegister.view s).2,
      some (sessionRegister.view session)) := by
  unfold contents
  rw [h.agents, h.sessions, funext h.configs]
  rfl

/-- Whatever the order of arrival, the newest `SaveAgent` snapshot decides the
agents row and the config files, and the newest call of either kind decides the
session row; what is not newer than the stored rows changes nothing. -/
theorem guarded_writes_converge (db : Database) (x : String) (row : AgentRow)
    (session : SessionRow) (calls : List Call) (hrow : db.agents.find x = some row)
    (hsession : db.sessions.find x = some session) (hdistinct : Distinct x row session calls) :
    (∀ order, calls.Perm order → ∃ row' session',
      (applyAll db order).agents.find x = some row' ∧
      (applyAll db order).sessions.find x = some session' ∧
      Decided agentRegister (row, fun file => db.configs.find (x, file)) (savedAgents calls)
        (columns row', fun file => (applyAll db order).configs.find (x, file)) ∧
      Decided sessionRegister session (calls.map Call.agent) session') ∧
    ∀ order₁ order₂, calls.Perm order₁ → calls.Perm order₂ →
      contents (applyAll db order₁) x = contents (applyAll db order₂) x := by
  have hstored : Stored db x (row, fun file => db.configs.find (x, file)) session :=
    ⟨hrow, fun _ => rfl, hsession⟩
  have hagents := hdistinct.untied_agents fun file => db.configs.find (x, file)
  have hsessions := hdistinct.untied_sessions
  have hagentsView : ∀ order, calls.Perm order →
      agentRegister.view (writeAll agentRegister _ (savedAgents calls)) =
        agentRegister.view (writeAll agentRegister _ (savedAgents order)) :=
    fun order hp => view_writeAll_perm agentRegister _ _ _ hagents (savedAgents_perm hp)
  have hsessionView : ∀ order, calls.Perm order →
      sessionRegister.view (writeAll sessionRegister session (calls.map Call.agent)) =
        sessionRegister.view (writeAll sessionRegister session (order.map Call.agent)) :=
    fun order hp => view_writeAll_perm sessionRegister _ _ _ hsessions (hp.map Call.agent)
  have horder : ∀ order, calls.Perm order → Stored (applyAll db order) x
      (writeAll agentRegister _ (savedAgents order))
      (writeAll sessionRegister session (order.map Call.agent)) :=
    fun order hp => stored_applyAll x order (hdistinct.perm hp).same_agent db _ session hstored
  refine ⟨fun order hp => ?_, fun order₁ order₂ h₁ h₂ => ?_⟩
  · refine ⟨_, _, (horder order hp).agents, (horder order hp).sessions, ?_, ?_⟩
    · rw [funext (horder order hp).configs]
      change Decided agentRegister _ (savedAgents calls)
        (agentRegister.view (writeAll agentRegister _ (savedAgents order)))
      rw [← hagentsView order hp]
      exact decided_writeAll agentRegister _ _ hagents
    · change Decided sessionRegister session _
        (sessionRegister.view (writeAll sessionRegister session (order.map Call.agent)))
      rw [← hsessionView order hp]
      exact decided_writeAll sessionRegister _ _ hsessions
  · rw [(horder order₁ h₁).contents_eq, (horder order₂ h₂).contents_eq, ← hagentsView order₁ h₁,
      ← hagentsView order₂ h₂, ← hsessionView order₁ h₁, ← hsessionView order₂ h₂]

/-- A snapshot of agent `a` seen at the given time. -/
def snapshotAt (t : ℤ) : Agent := { instanceUID := "a", lastSeen := t }

/-- Two saves and a keepalive leave the same rows in two orders. -/
theorem guarded_writes_converge_swapped :
    contents (applyAll (saveAgent Database.empty (snapshotAt 1000))
        [.saveAgent (snapshotAt 2000), .saveAgent (snapshotAt 3000),
          .saveSession (snapshotAt 4000)]) "a" =
      contents (applyAll (saveAgent Database.empty (snapshotAt 1000))
        [.saveSession (snapshotAt 4000), .saveAgent (snapshotAt 2000),
          .saveAgent (snapshotAt 3000)]) "a" := by
  have hrow : (saveAgent Database.empty (snapshotAt 1000)).agents.find "a" =
      some (agentRow (snapshotAt 1000)) := by
    rw [agents_saveAgent]
    rfl
  have hsession : (saveAgent Database.empty (snapshotAt 1000)).sessions.find "a" =
      some (sessionRow (snapshotAt 1000)) := by
    rw [sessions_saveAgent]
    rfl
  have hdistinct : Distinct "a" (agentRow (snapshotAt 1000)) (sessionRow (snapshotAt 1000))
      [.saveAgent (snapshotAt 2000), .saveAgent (snapshotAt 3000),
        .saveSession (snapshotAt 4000)] := by
    refine ⟨?_, by decide, ?_, ?_⟩ <;> intro c hc <;> fin_cases hc <;> decide
  have hswap : [Call.saveAgent (snapshotAt 2000), .saveAgent (snapshotAt 3000),
      .saveSession (snapshotAt 4000)].Perm
        [.saveSession (snapshotAt 4000), .saveAgent (snapshotAt 2000),
          .saveAgent (snapshotAt 3000)] :=
    @List.perm_append_comm _ [_, _] [_]
  exact (guarded_writes_converge _ "a" _ _ _ hrow hsession hdistinct).2 _ _ (List.Perm.refl _) hswap

end Grex.Convergence
