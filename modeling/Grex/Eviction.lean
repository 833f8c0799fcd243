import Grex.FlushSteps
import Grex.Machine

/-!
Whether the row of a live agent can be left soft-deleted. An agent counts as
saved once a `SaveAgent` has moved its row since it was last registered. Late
soft-deletes are harmless: between a lookup that misses and the soft-delete that
follows from it, no save of the same agent can run. What breaks the property is
the upsert itself, which leaves `evicted_at` as it finds it.
-/

namespace Grex.Eviction

open GoTime AgentState Message AgentProgram Tables Replica Machine

/-- Which agents have had their row moved since their last registration. -/
def watchSaved (saved : String → Bool) (p : Replica × Database) (a : Act)
    (q : Replica × Database) : String → Bool := fun id =>
  if (p.1.registry.get id).isNone ∧ (q.1.registry.get id).isSome then false
  else match a with
    | .save agent true =>
        saved id || (decide (agent.instanceUID = id) && agentsUpdated (p.2.agents.find id) agent)
    | _ => saved id

/-- The row of a registered agent that has been saved is live: it is not
soft-deleted, no purge removes it, and every other replica finds the agent. -/
def LiveRows (p : Replica × Database) (saved : String → Bool) : Prop :=
  ∀ id, (p.1.registry.get id).isSome → saved id = true →
    ∃ row, p.2.agents.find id = some row ∧ row.evictedAt = none ∧
      (∀ before, (Tables.purge p.2 before).agents.find id = some row) ∧
      (∀ other now, ∃ a, Reads.getAgent other p.2 id now = some (some a) ∧ a.instanceUID = id) ∧
      ∃ stored, Reads.storedAgents p.2 = some stored ∧ ∀ loc now disconnectAfter,
        ∃ a ∈ Reads.mergeAgents loc stored now disconnectAfter, a.instanceUID = id

/-- The step saves a registered agent over its soft-deleted, older row. -/
def SavesSoftDeleted (p : Replica × Database) : Act → Prop
  | .save agent true =>
      (p.1.registry.get agent.instanceUID).isSome ∧
        (p.2.agents.find agent.instanceUID).any fun row =>
          row.evictedAt.isSome && decide (row.updatedAt < micros agent.lastSeen)
  | _ => False

instance (p : Replica × Database) (a : Act) : Decidable (SavesSoftDeleted p a) := by
  cases a with
  | save agent ok =>
    cases ok with
    | true => exact inferInstanceAs (Decidable (_ ∧ _))
    | false => exact inferInstanceAs (Decidable False)
  | _ => exact inferInstanceAs (Decidable False)

structure Invariant (p : Replica × Database) (saved : String → Bool) : Prop where
  rows : ∀ id, (p.1.registry.get id).isSome → saved id = true →
    ∃ row, p.2.agents.find id = some row ∧ row.evictedAt = none
  complete : Reads.Complete p.2
  distinct : p.1.flush.ids.Nodup
  doomed : ∀ id ∈ p.1.flush.doomed, (p.1.registry.get id).isSome → saved id = false

theorem invariant_start (cfg : Config) (tick : ℤ) (batched : Bool) (replicaID label : String)
    (db : Database) (hdb : Reads.Complete db) :
    Invariant (start cfg tick batched replicaID label, db) fun _ => false where
  rows id _ hsaved := by simp at hsaved
  complete := hdb
  distinct := List.nodup_nil
  doomed id hid := by simp [start, Flush.doomed] at hid

theorem Invariant.liveRows {p : Replica × Database} {saved : String → Bool}
    (h : Invariant p saved) : LiveRows p saved := by
  intro id hreg hsaved
  obtain ⟨row, hrow, hlive⟩ := h.rows id hreg hsaved
  have hmem : id ∈ p.2.agents.keys := (p.2.agents.mem_keys_iff id).mpr ⟨row, hrow⟩
  have hsession : (p.2.sessions.find id).isSome :=
    (p.2.sessions.mem_keys id).mp (h.complete id hmem)
  refine ⟨row, hrow, hlive, fun before => ?_, fun other now => ?_, ?_⟩
  · have hkept : evictedBefore before row = false := by simp [evictedBefore, hlive]
    exact (find_deleteWhere_of_kept p.2 _ id row hrow hkept).1
  · exact Reads.getAgent_of_live other p.2 id now row hrow hlive hsession
  · obtain ⟨stored, hstored, hall⟩ := Reads.storedAgents_of_complete p.2 h.complete
    obtain ⟨a, ha, hid, hevicted⟩ := hall id row hrow
    refine ⟨stored, hstored, fun loc now disconnectAfter => ?_⟩
    have hnone : a.evictedAt = none := by
      rw [hevicted, hlive]
      rfl
    obtain ⟨b, hb, hbid⟩ := Reads.mem_mergeAgents loc stored now disconnectAfter a ha hnone
    exact ⟨b, hb, hbid.trans hid⟩

/-- An agent that counts as saved after a step was registered before it, and
either counted already or has just been saved. -/
theorem watchSaved_eq_true {saved : String → Bool} {p q : Replica × Database} {a : Act}
    {id : String} (hreg : (q.1.registry.get id).isSome) (h : watchSaved saved p a q id = true) :
    (p.1.registry.get id).isSome ∧ (saved id = true ∨ ∃ agent, a = .save agent true ∧
      agent.instanceUID = id ∧ agentsUpdated (p.2.agents.find id) agent = true) := by
  unfold watchSaved at h
  split at h
  · simp at h
  · rename_i hnew
    have hbefore : (p.1.registry.get id).isSome := by
      by_contra hnone
      rw [Option.not_isSome_iff_eq_none] at hnone
      exact hnew ⟨by rw [hnone]; rfl, hreg⟩
    refine ⟨hbefore, ?_⟩
    split at h
    · rename_i agent
      simp only [Bool.or_eq_true, Bool.and_eq_true, decide_eq_true_eq] at h
      rcases h with hold | ⟨hid, hupdated⟩
      · exact Or.inl hold
      · exact Or.inr ⟨agent, rfl, hid, hupdated⟩
    · exact Or.inl h

/-- A save that is not over a soft-deleted row leaves a live one. -/
theorem live_of_save {p : Replica × Database} {agent : Agent}
    (hreg : (p.1.registry.get agent.instanceUID).isSome)
    (hclean : ¬ SavesSoftDeleted p (.save agent true))
    (hupdated : agentsUpdated (p.2.agents.find agent.instanceUID) agent = true) :
    ∃ row, (saveAgent p.2 agent).agents.find agent.instanceUID = some row ∧
      row.evictedAt = none := by
  refine ⟨_, by rw [agents_saveAgent, FinMap.find_set_self], ?_⟩
  cases hrow : p.2.agents.find agent.instanceUID with
  | none => rfl
  | some row =>
    rw [evictedAt_upsertAgentRow]
    by_contra hevicted
    apply hclean
    refine ⟨hreg, ?_⟩
    simp only [hrow, agentsUpdated, decide_eq_true_eq] at hupdated
    simp only [hrow, Option.any_some, Bool.and_eq_true, decide_eq_true_eq]
    exact ⟨Option.isSome_iff_ne_none.mpr hevicted, hupdated⟩

theorem invariant_step {saved : String → Bool} {p q : Replica × Database} {a : Act}
    (hinv : Invariant p saved) (hclean : ¬ SavesSoftDeleted p a) (hst : machine p a = some q) :
    Invariant q (watchSaved saved p a q) := by
  have hstep := step_cases hst
  refine ⟨fun id hreg hsaved => ?_, complete_step hstep hinv.complete,
    ids_nodup hstep hinv.distinct, fun id hid hreg => ?_⟩
  · obtain ⟨hbefore, hold | ⟨agent, rfl, rfl, hupdated⟩⟩ := watchSaved_eq_true hreg hsaved
    · obtain ⟨row, hrow, hlive⟩ := hinv.rows id hbefore hold
      rcases live_step hstep id row hrow hlive with hafter | ⟨task, now, rfl, hid⟩
      · exact hafter
      · have hdoomed := (softDelete_step hstep).1 hid
        rw [hinv.doomed id hdoomed hbefore] at hold
        simp at hold
    · rw [(save_step hstep).2.2, if_pos rfl]
      exact live_of_save hbefore hclean hupdated
  · by_contra hsaved
    obtain ⟨hbefore, hcases⟩ := watchSaved_eq_true hreg (Bool.eq_true_of_not_eq_false hsaved)
    rcases doomed_step hstep id hid with hdoomed | ⟨hnone, _⟩
    · rcases hcases with hold | ⟨agent, rfl, heq, _⟩
      · rw [hinv.doomed id hdoomed hbefore] at hold
        simp at hold
      · exact ne_of_saves_of_doomed hinv.distinct (save_step hstep).1 hdoomed heq
    · rw [hnone] at hbefore
      simp at hbefore

/-- The upsert keeps `evicted_at`, so the saved agent's row stays soft-deleted. -/
theorem not_liveRows_of_savesSoftDeleted {saved : String → Bool} {p q : Replica × Database}
    {a : Act} (hbad : SavesSoftDeleted p a) (hst : machine p a = some q) :
    ¬ LiveRows q (watchSaved saved p a q) := by
  have hstep := step_cases hst
  cases a with
  | save agent ok =>
    cases ok with
    | false => exact absurd hbad id
    | true =>
      obtain ⟨hreg, hany⟩ := hbad
      cases hrow : p.2.agents.find agent.instanceUID with
      | none => simp [hrow] at hany
      | some row =>
        simp only [hrow, Option.any_some, Bool.and_eq_true, decide_eq_true_eq] at hany
        obtain ⟨hevicted, hnewer⟩ := hany
        intro hlive
        obtain ⟨_, hregistry, hdb⟩ := save_step hstep
        have hsaved : watchSaved saved p (.save agent true) q agent.instanceUID = true := by
          unfold watchSaved
          rw [hregistry, hrow]
          simp [agentsUpdated, hnewer, Option.isSome_iff_ne_none.mp hreg]
        obtain ⟨row', hrow', hnone, _⟩ := hlive agent.instanceUID (by rw [hregistry]; exact hreg)
          hsaved
        rw [hdb, if_pos rfl, agents_saveAgent, FinMap.find_set_self, hrow] at hrow'
        obtain rfl := Option.some.inj hrow'
        rw [evictedAt_upsertAgentRow] at hnone
        rw [hnone] at hevicted
        simp at hevicted
  | _ => exact absurd hbad id

/-- Along a run every registered agent that has been saved since its
registration has a live row, if and only if no save of a registered agent ever
lands on its soft-deleted row. -/
theorem live_rows_iff_no_save_over_soft_deleted (cfg : Config) (tick : ℤ) (batched : Bool)
    (replicaID label : String) (db : Database) (hdb : Reads.Complete db) (acts : List Act)
    (final : (Replica × Database) × (String → Bool))
    (hrun : run (observed machine watchSaved)
      ((start cfg tick batched replicaID label, db), fun _ => false) acts = some final) :
    (∀ u, Visits (observed machine watchSaved)
        ((start cfg tick batched replicaID label, db), fun _ => false) acts u →
      LiveRows u.1 u.2) ↔
    Along (observed machine watchSaved) (fun u a => ¬ SavesSoftDeleted u.1 a)
      ((start cfg tick batched replicaID label, db), fun _ => false) acts := by
  refine visits_good_iff_along (fun u => Invariant u.1 u.2) (fun u => LiveRows u.1 u.2)
    ?_ ?_ ?_ ?_ hrun
  · exact fun u hu => hu.liveRows
  · intro u a v hu hclean hst
    obtain ⟨hmachine, hghost⟩ := observed_eq_some.mp hst
    rw [hghost]
    exact invariant_step hu hclean hmachine
  · intro u a v hu hbad hst
    obtain ⟨hmachine, hghost⟩ := observed_eq_some.mp hst
    rw [hghost]
    exact not_liveRows_of_savesSoftDeleted (not_not.mp hbad) hmachine
  · exact invariant_start cfg tick batched replicaID label db hdb

def evictedAndBack : List Act :=
  heartbeatActs 0 ++ saveActs (heardAt 0 0) true ++ evictActs 91000000000 ++
    softDeleteActs 92000000000 true ++ heartbeatActs 100000000000 ++
    saveActs (heardAt 100000000000 100000000000) true

/-- The returned agent is registered and saved, and its row is soft-deleted. -/
theorem returned_agent_left_soft_deleted :
    ∃ final, run (observed machine watchSaved) ((small "a", Database.empty), fun _ => false)
        evictedAndBack = some final ∧
      (final.1.1.registry.get zeroUID).isSome ∧ final.2 zeroUID = true ∧
      ((final.1.2.agents.find zeroUID).bind AgentRow.evictedAt) = some 92000000 ∧
      (Tables.purge final.1.2 200000000000).agents.find zeroUID = none := by
  apply exists_run_of_any
  decide +kernel

/-- The evicted agent comes back only after its row has been purged. -/
def purgedAndBack : List Act :=
  heartbeatActs 0 ++ saveActs (heardAt 0 0) true ++ evictActs 91000000000 ++
    softDeleteActs 92000000000 true ++ [.purge 200000000000] ++ heartbeatActs 300000000000 ++
    saveActs (heardAt 300000000000 300000000000) true

theorem live_rows_after_purge :
    ∃ final, run (observed machine watchSaved) ((small "a", Database.empty), fun _ => false)
        purgedAndBack = some final ∧
      (final.1.1.registry.get zeroUID).isSome ∧ final.2 zeroUID = true ∧
      LiveRows final.1 final.2 := by
  have hfinal : ∃ final, run (observed machine watchSaved)
      ((small "a", Database.empty), fun _ => false) purgedAndBack = some final ∧
      (final.1.1.registry.get zeroUID).isSome ∧ final.2 zeroUID = true := by
    apply exists_run_of_any
    decide +kernel
  obtain ⟨final, hrun, hregistered, hsaved⟩ := hfinal
  have hiff := live_rows_iff_no_save_over_soft_deleted _ _ _ _ _ _ Reads.complete_empty _ final hrun
  refine ⟨final, hrun, hregistered, hsaved, hiff.mpr ?_ final ?_⟩
  · decide +kernel
  · exact ⟨_, List.prefix_refl _, hrun⟩

end Grex.Eviction
