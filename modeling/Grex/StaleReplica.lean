import Grex.Cluster

/-!
What a replica that has fallen behind can do to an agent's rows. An agent hops
between replicas, so a replica may hold an older copy than the one another
replica has saved. Its guarded writes then change nothing, because neither a
disconnect nor a sweep moves the event time of its copies. Its soft-delete has
no such guard.
-/

namespace Grex.StaleReplica

open GoTime AgentState Message AgentProgram Tables Replica Machine Cluster

variable {ι : Type*} [DecidableEq ι]

/-! ### Soft-deletes -/

/-- A soft-delete of an agent by a replica whose newest event time for it is
earlier than the one another replica has stored. -/
def StaleEviction (u : Cluster ι × History ι) (a : ι × Act) (x : String) : Prop :=
  ∃ task now B tA row, a.2 = .softDelete task now true ∧ x ∈ task ∧
    u.2.newest a.1 x = some tA ∧ u.1.db.agents.find x = some row ∧
    u.2.writer x = some B ∧ B ≠ a.1 ∧ micros tA < row.updatedAt

omit [DecidableEq ι] in
theorem softDeletedRow_eq_self_iff (now : ℤ) (row : AgentRow) :
    softDeletedRow now row = row ↔ row.evictedAt ≠ none := by
  unfold softDeletedRow
  by_cases hlive : row.evictedAt = none
  · rw [if_pos hlive]
    refine ⟨fun heq => ?_, fun hne => absurd hlive hne⟩
    have hevicted := congrArg AgentRow.evictedAt heq
    rw [hlive] at hevicted
    simp at hevicted
  · rw [if_neg hlive]
    exact ⟨fun _ => hlive, fun _ => rfl⟩

/-- Along a run every stale eviction leaves the agents row unchanged, if and
only if each of them meets a row that is soft-deleted already. -/
theorem stale_evictions_leave_rows_iff (s₀ : Cluster ι) (acts : List (ι × Act))
    (final : Cluster ι × History ι)
    (hrun : run (observed step watch) (s₀, History.empty) acts = some final) :
    Along (observed step watch)
        (fun u a => ∀ x, StaleEviction u a x → ∀ t, u.1.step a = some t →
          t.db.agents.find x = u.1.db.agents.find x)
        (s₀, History.empty) acts ↔
      Along (observed step watch)
        (fun u a => ∀ x, StaleEviction u a x → ∃ row, u.1.db.agents.find x = some row ∧
          row.evictedAt ≠ none)
        (s₀, History.empty) acts := by
  refine along_congr (fun u a v hst => forall_congr' fun x => imp_congr_right fun hstale => ?_) hrun
  obtain ⟨hstep, _⟩ := observed_eq_some.mp hst
  obtain ⟨task, now, B, tA, row, hact, hx, _, hrow, _⟩ := hstale
  have hafter : ∀ t, u.1.step a = some t →
      t.db.agents.find x = some (softDeletedRow now row) := by
    intro t ht
    obtain ⟨hreplica, _⟩ := step_eq_some ht
    rw [hact] at hreplica
    rw [(softDelete_step hreplica).2.2, if_pos rfl, find_agents_softDeleteAgents, if_pos hx, hrow]
    rfl
  rw [hrow]
  constructor
  · intro hsame
    have heq := (hafter v.1 hstep).symm.trans (hsame v.1 hstep)
    exact ⟨row, rfl, (softDeletedRow_eq_self_iff now row).mp (Option.some.inj heq)⟩
  · intro h t ht
    obtain ⟨row', hrow', hevicted⟩ := h
    obtain rfl : row = row' := Option.some.inj hrow'
    rw [hafter t ht, (softDeletedRow_eq_self_iff now row).mpr hevicted]

def twoReplicas : Cluster Bool := ⟨fun r => small (if r then "b" else "a"), Database.empty⟩

def onReplica (r : Bool) (acts : List Act) : List (Bool × Act) := acts.map (Prod.mk r)

/-- The agent is heard and saved by `a`, then by `b`, and `a` misses it long
enough to evict it. -/
def hopped : List (Bool × Act) :=
  onReplica false (heartbeatActs 0 ++ saveActs (heardAt 0 0) true) ++
    onReplica true (heartbeatActs 50000000000 ++ saveActs (heardAt 50000000000 50000000000) true) ++
    onReplica false (evictActs 91000000000 ++ [.drain [zeroUID], .get, .advance, .advance])

/-- The stale eviction then hides an agent that is connected to `b`. -/
theorem stale_eviction_hides_agent :
    ∃ u, run (observed step watch) (twoReplicas, History.empty) hopped = some u ∧
      StaleEviction u (false, .softDelete [zeroUID] 92000000000 true) zeroUID ∧
      ((u.1.replicas true).registry.get zeroUID).any Agent.connected ∧
      (u.1.db.agents.find zeroUID).map AgentRow.evictedAt = some none ∧
      ∃ t, u.1.step (false, .softDelete [zeroUID] 92000000000 true) = some t ∧
        (t.db.agents.find zeroUID).map AgentRow.evictedAt = some (some 92000000) := by
  have hrun : ∃ u, run (observed step watch) (twoReplicas, History.empty) hopped = some u ∧
      u.2.newest false zeroUID = some 0 ∧ u.2.writer zeroUID = some true ∧
      (u.1.db.agents.find zeroUID).map AgentRow.updatedAt = some 50000000 ∧
      ((u.1.replicas true).registry.get zeroUID).any Agent.connected ∧
      (u.1.db.agents.find zeroUID).map AgentRow.evictedAt = some none ∧
      (u.1.step (false, .softDelete [zeroUID] 92000000000 true)).any fun t =>
        decide ((t.db.agents.find zeroUID).map AgentRow.evictedAt = some (some 92000000)) := by
    apply exists_run_of_any
    decide +kernel
  obtain ⟨u, hu, hnewest, hwriter, hupdated, hconnected, hlive, hstep⟩ := hrun
  obtain ⟨row, hrow, hrowat⟩ := Option.map_eq_some_iff.mp hupdated
  obtain ⟨t, ht, hevicted⟩ := (Option.any_eq_true _ _).mp hstep
  refine ⟨u, hu, ?_, hconnected, hlive, t, ht, of_decide_eq_true hevicted⟩
  refine ⟨[zeroUID], 92000000000, true, 0, row, rfl, List.mem_cons_self, hnewest, hrow, hwriter,
    by decide, ?_⟩
  rw [hrowat]
  decide

/-- A soft-delete of agents that the replica itself stored last or that are
soft-deleted already. -/
def ownOrGone (u : Cluster ι × History ι) (a : ι × Act) : Bool :=
  match a.2 with
  | .softDelete task _ _ => task.all fun x =>
      decide (u.2.writer x = some a.1) || (u.1.db.agents.find x).any fun row => row.evictedAt.isSome
  | _ => true

theorem softDeleted_of_ownOrGone {u : Cluster ι × History ι} {a : ι × Act}
    (hsafe : ownOrGone u a = true) {x : String} (hstale : StaleEviction u a x) :
    ∃ row, u.1.db.agents.find x = some row ∧ row.evictedAt ≠ none := by
  obtain ⟨task, now, B, tA, row, hact, hx, _, hrow, hwriter, hother, _⟩ := hstale
  simp only [ownOrGone, hact, List.all_eq_true] at hsafe
  have hone := hsafe x hx
  simp only [hwriter, hrow, Option.some.injEq, hother, decide_false, Bool.false_or,
    Option.any_some] at hone
  exact ⟨row, hrow, Option.isSome_iff_ne_none.mp hone⟩

/-- As before, but `b` has lost the agent too and soft-deleted it first. -/
def lostByBoth : List (Bool × Act) :=
  onReplica false (heartbeatActs 0 ++ saveActs (heardAt 0 0) true) ++
    onReplica true (heartbeatActs 50000000000 ++ saveActs (heardAt 50000000000 50000000000) true ++
      evictActs 141000000000 ++ softDeleteActs 142000000000 true) ++
    onReplica false (evictActs 143000000000 ++ [.drain [zeroUID], .get, .advance, .advance])

/-- Its stale eviction then leaves the row as it is. -/
theorem stale_evictions_leave_rows_lost_by_both :
    (∃ u, run (observed step watch) (twoReplicas, History.empty) lostByBoth = some u ∧
      StaleEviction u (false, .softDelete [zeroUID] 144000000000 true) zeroUID) ∧
    Along (observed step watch)
      (fun u a => ∀ x, StaleEviction u a x → ∀ t, u.1.step a = some t →
        t.db.agents.find x = u.1.db.agents.find x)
      (twoReplicas, History.empty)
      (lostByBoth ++ [(false, .softDelete [zeroUID] 144000000000 true)]) := by
  have hrun : ∃ u, run (observed step watch) (twoReplicas, History.empty) lostByBoth = some u ∧
      u.2.newest false zeroUID = some 0 ∧ u.2.writer zeroUID = some true ∧
      (u.1.db.agents.find zeroUID).map AgentRow.updatedAt = some 50000000 := by
    apply exists_run_of_any
    decide +kernel
  have hend : ∃ v, run (observed step watch) (twoReplicas, History.empty)
      (lostByBoth ++ [(false, .softDelete [zeroUID] 144000000000 true)]) = some v ∧
      v.2.newest false zeroUID = some 0 := by
    apply exists_run_of_any
    decide +kernel
  have hsafe : Along (observed step watch) (fun u a => ownOrGone u a = true)
      (twoReplicas, History.empty)
      (lostByBoth ++ [(false, .softDelete [zeroUID] 144000000000 true)]) := by
    decide +kernel
  obtain ⟨u, hu, hnewest, hwriter, hupdated⟩ := hrun
  obtain ⟨row, hrow, hrowat⟩ := Option.map_eq_some_iff.mp hupdated
  obtain ⟨v, hv, _⟩ := hend
  refine ⟨⟨u, hu, [zeroUID], 144000000000, true, 0, row, rfl, List.mem_cons_self, hnewest, hrow,
    hwriter, by decide, ?_⟩, ?_⟩
  · rw [hrowat]
    decide
  · apply (stale_evictions_leave_rows_iff twoReplicas _ v hv).mpr
    exact along_of_invariant (fun _ => True) (fun _ _ _ _ _ _ => trivial)
      (fun _ _ _ h _ hstale => softDeleted_of_ownOrGone h hstale) trivial hsafe

/-! ### Guarded writes -/

/-- All columns of an agents row but `evicted_at`. -/
def agentData (row : AgentRow) : AgentRow := { row with evictedAt := none }

/-- Replica `A` is behind what `B` has saved for the agent, and is not being
told about it. -/
structure Behind (A B : ι) (x : String) (tB : ℤ) (u : Cluster ι × History ι) : Prop where
  tracked : Tracked u.1 u.2
  saved : ∃ t, u.2.saved B x = some t ∧ micros tB ≤ micros t
  older : ∀ b, Copy (u.1.replicas A) b → b.instanceUID = x → micros b.lastSeen < micros tB
  quiet : ∀ shard sec, (u.1.replicas A).locks.find shard = some sec →
    ∀ w ∈ sec.rest, w.1 = x → KeepsSeen w.2

omit [DecidableEq ι] in
theorem Behind.rows {A B : ι} {x : String} {tB : ℤ} {u : Cluster ι × History ι}
    (h : Behind A B x tB u) : ∃ row session, u.1.db.agents.find x = some row ∧
      u.1.db.sessions.find x = some session ∧
      ∀ b, Copy (u.1.replicas A) b → b.instanceUID = x →
        micros b.lastSeen < row.updatedAt ∧ micros b.lastSeen < session.updatedAt := by
  obtain ⟨t, ht, hle⟩ := h.saved
  obtain ⟨row, session, hrow, hsession, hrowle, hsessionle⟩ := h.tracked.stored B x t ht
  refine ⟨row, session, hrow, hsession, fun b hb hbx => ?_⟩
  have hnewest := h.older b hb hbx
  omega

end Grex.StaleReplica
