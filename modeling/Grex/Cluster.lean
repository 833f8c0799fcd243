import Grex.FlushSteps
import Grex.Machine

/-!
Several replicas over one database. The history of a run records, for each
replica and agent, the newest event time the replica has given the agent and
the newest one it has saved, and for each agents row the replica that wrote it
last. The stored rows are at least as new as everything saved, as long as the
rows exist, and only a report of an agent gives a replica a newer event time
for it.
-/

namespace Grex

structure Cluster (ι : Type*) where
  replicas : ι → Replica
  db : Tables.Database

namespace Cluster

open GoTime AgentState Message AgentProgram Tables Replica Machine

variable {ι : Type*} [DecidableEq ι]

def step (s : Cluster ι) (a : ι × Act) : Option (Cluster ι) :=
  ((s.replicas a.1).step s.db a.2).map fun p => ⟨Function.update s.replicas a.1 p.1, p.2⟩

theorem step_eq_some {s t : Cluster ι} {a : ι × Act} (h : s.step a = some t) :
    Step (s.replicas a.1) s.db a.2 (t.replicas a.1) t.db ∧
      ∀ r, r ≠ a.1 → t.replicas r = s.replicas r := by
  obtain ⟨⟨R, db⟩, hR, rfl⟩ := Option.map_eq_some_iff.mp h
  refine ⟨?_, fun r hr => ?_⟩
  · simp only [Function.update_self]
    exact step_cases hR
  · exact Function.update_of_ne hr _ _

structure History (ι : Type*) where
  newest : ι → String → Option ℤ
  saved : ι → String → Option ℤ
  writer : String → Option ι

def History.empty : History ι := ⟨fun _ _ => none, fun _ _ => none, fun _ => none⟩

def later (old : Option ℤ) (t : ℤ) : ℤ :=
  match old with
  | none => t
  | some u => max u t

theorem later_cases (old : Option ℤ) (t : ℤ) : later old t = t ∨ old = some (later old t) := by
  cases old with
  | none => exact Or.inl rfl
  | some v =>
    rcases max_choice v t with hmax | hmax
    · exact Or.inr (congrArg some hmax.symm)
    · exact Or.inl hmax

/-- The newest event time after a replica's slot has been seen. -/
def newestWith (old : Option ℤ) : Option Agent → Option ℤ
  | none => old
  | some b => some (later old b.lastSeen)

/-- What the history remembers of one step. A row that is gone takes its saves
and its writer with it. -/
def watch (h : History ι) (s : Cluster ι) (a : ι × Act) (t : Cluster ι) : History ι where
  newest := Function.update h.newest a.1 fun id =>
    newestWith (h.newest a.1 id) ((t.replicas a.1).registry.get id)
  saved r id :=
    if t.db.agents.find id = none then none
    else match a with
      | (r', .save agent true) =>
          if r' = r ∧ agent.instanceUID = id then some (later (h.saved r id) agent.lastSeen)
          else h.saved r id
      | _ => h.saved r id
  writer id :=
    if t.db.agents.find id = none then none
    else match a with
      | (r', .save agent true) =>
          if agent.instanceUID = id ∧ agentsUpdated (s.db.agents.find id) agent then some r'
          else h.writer id
      | _ => h.writer id

/-- A copy of an agent that a replica may still write. -/
def Copy (R : Replica) (b : Agent) : Prop :=
  R.registry.get b.instanceUID = some b ∨ b ∈ R.flush.saves ∨ b ∈ R.snapshot.agents

/-- The stage neither registers an agent nor moves its event time. -/
def KeepsSeen {id : String} (st : Stage id) : Prop :=
  ∀ slot b, (st.run slot).1 = some b → ∃ a, slot = some a ∧ b.lastSeen = a.lastSeen

end Cluster

open Message in
/-- The operation is a report of the given agent. -/
def Replica.Locked.Reports : Replica.Locked → String → Prop
  | .report _ msg _, id => instanceUID msg.instanceUid = .ok id
  | _, _ => False

namespace Cluster

open GoTime AgentState Message AgentProgram Tables Replica Machine

variable {ι : Type*} [DecidableEq ι]

/-- What holds of a cluster and its history in every run. -/
structure Tracked (s : Cluster ι) (h : History ι) : Prop where
  stored : ∀ r id t, h.saved r id = some t → ∃ row session, s.db.agents.find id = some row ∧
    s.db.sessions.find id = some session ∧ micros t ≤ row.updatedAt ∧ micros t ≤ session.updatedAt
  sections : ∀ r shard sec, (s.replicas r).locks.find shard = some sec →
    ∀ w ∈ sec.rest, KeepsSeen w.2 ∨ sec.op.Reports w.1

theorem stored_step {s t : Cluster ι} {h : History ι} {a : ι × Act} (htracked : Tracked s h)
    (hst : s.step a = some t) (r : ι) (id : String) (u : ℤ)
    (hu : (watch h s a t).saved r id = some u) :
    ∃ row session, t.db.agents.find id = some row ∧ t.db.sessions.find id = some session ∧
      micros u ≤ row.updatedAt ∧ micros u ≤ session.updatedAt := by
  have hstep := (step_eq_some hst).1
  have hkept : t.db.agents.find id ≠ none := by
    intro hnone
    simp [watch, hnone] at hu
  have hold : ∀ v, h.saved r id = some v → ∃ row session, t.db.agents.find id = some row ∧
      t.db.sessions.find id = some session ∧ micros v ≤ row.updatedAt ∧
      micros v ≤ session.updatedAt := by
    intro v hv
    obtain ⟨row, session, hrow, hsession, hle, hle'⟩ := htracked.stored r id v hv
    rcases stamps_step hstep id row session hrow hsession with ⟨hnone, _⟩ | hnext
    · exact absurd hnone hkept
    · obtain ⟨row', session', hrow', hsession', hrowle, hsessionle⟩ := hnext
      exact ⟨row', session', hrow', hsession', hle.trans hrowle, hle'.trans hsessionle⟩
  simp only [watch, if_neg hkept] at hu
  split at hu
  · rename_i r' agent
    split at hu
    · rename_i hsame
      obtain ⟨rfl, rfl⟩ := hsame
      have hlater : later (h.saved r' agent.instanceUID) agent.lastSeen = u := Option.some.inj hu
      rcases later_cases (h.saved r' agent.instanceUID) agent.lastSeen with heq | heq
      · rw [hlater] at heq
        subst heq
        obtain ⟨_, _, hdb⟩ := save_step hstep
        rw [hdb, if_pos rfl, agents_saveAgent, sessions_saveAgent, FinMap.find_set_self,
          FinMap.find_set_self]
        obtain ⟨hle, hle'⟩ := le_updatedAt_upsert (s.db.agents.find agent.instanceUID)
          (s.db.sessions.find agent.instanceUID) agent
        exact ⟨_, _, rfl, rfl, hle, hle'⟩
      · rw [hlater] at heq
        exact hold u heq
    · exact hold u hu
  · exact hold u hu

/-- Replicas that have just started, over any database. -/
def Started (s : Cluster ι) : Prop :=
  ∀ r, ∃ cfg tick batched replicaID label, s.replicas r = start cfg tick batched replicaID label

end Cluster

end Grex
