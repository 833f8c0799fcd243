import Grex.StaleReplica

/-!
Who owns an agent's socket. The upsert into `agent_connections` takes the row
over unconditionally, so the row names the replica whose upsert landed last. An
observer keeps the event time of the snapshot behind every upsert: the row names
the replica of the latest one exactly as long as no replica upserts that has been
overtaken.
-/

namespace Grex.Ownership

open GoTime AgentState Message Tables Replica Cluster Machine

/-- An upsert that landed: its replica, and the event time of the snapshot it
was made from. -/
structure Upsert where
  replicaID : String
  lastSeen : ℤ
  deriving DecidableEq

structure Ledger (ι : Type*) where
  snaps : ι → String → Option ℤ := fun _ _ => none
  upserts : String → List Upsert := fun _ => []

/-- The event times of the snapshots a flush is about to upsert. -/
def snapsOf (connected : List Agent) (id : String) : Option ℤ :=
  (connected.find? fun a => decide (a.instanceUID = id)).map Agent.lastSeen

/-- The snapshots are fixed when the flush begins to upsert them. -/
def nextSnaps (act : Act) (flush : Flush) (snaps : String → Option ℤ) : String → Option ℤ :=
  match act, flush with
  | .advance, .deleting [] connected => snapsOf connected
  | _, _ => snaps

/-- The agents whose upsert lands in a step. -/
def landing : Act → List String
  | .upsertConnections task _ true => task
  | _ => []

variable {ι : Type*} [DecidableEq ι]

def watchUpserts (l : Ledger ι) (s : Cluster ι) (a : ι × Act) (_ : Cluster ι) : Ledger ι where
  snaps := Function.update l.snaps a.1
    (nextSnaps a.2 (s.replicas a.1).flush (l.snaps a.1))
  upserts id :=
    if id ∈ landing a.2 then
      ((l.snaps a.1 id).map (Upsert.mk (s.replicas a.1).replicaID)).toList ++ l.upserts id
    else l.upserts id

/-- The replica has upserted the latest of the snapshots. -/
def HasLatest (upserts : List Upsert) (replicaID : String) : Prop :=
  ∃ u ∈ upserts, u.replicaID = replicaID ∧ ∀ v ∈ upserts, v.lastSeen ≤ u.lastSeen

/-- The replica that the agent's row names. -/
def owner (db : Database) (id : String) : Option String :=
  (db.connections.find id).map ConnectionRow.replicaID

/-- Every row names a replica that has upserted the latest snapshot. -/
def OwnedByLatest (p : Cluster ι × Ledger ι) : Prop :=
  ∀ id, p.2.upserts id ≠ [] →
    ∃ replicaID, owner p.1.db id = some replicaID ∧ HasLatest (p.2.upserts id) replicaID

/-- Each upsert that lands is at least as late as all before it, or made by a
replica that has made the latest one before. -/
def NotOvertaken (p : Cluster ι × Ledger ι) (a : ι × Act) : Prop :=
  ∀ id ∈ landing a.2, ∀ t ∈ p.2.snaps a.1 id,
    (∀ u ∈ p.2.upserts id, u.lastSeen ≤ t) ∨
      HasLatest (p.2.upserts id) (p.1.replicas a.1).replicaID

instance (upserts : List Upsert) (replicaID : String) : Decidable (HasLatest upserts replicaID) :=
  inferInstanceAs (Decidable (∃ u ∈ upserts, _ ∧ ∀ v ∈ upserts, _))

instance (p : Cluster ι × Ledger ι) (a : ι × Act) : Decidable (NotOvertaken p a) :=
  inferInstanceAs (Decidable (∀ id ∈ landing a.2, ∀ t ∈ p.2.snaps a.1 id, _ ∨ _))

theorem hasLatest_cons_iff (upserts : List Upsert) (replicaID : String) (t : ℤ) :
    HasLatest (⟨replicaID, t⟩ :: upserts) replicaID ↔
      (∀ u ∈ upserts, u.lastSeen ≤ t) ∨ HasLatest upserts replicaID := by
  constructor
  · intro h
    obtain ⟨u, hu, hreplica, hlatest⟩ := h
    rcases List.mem_cons.mp hu with rfl | hold
    · exact Or.inl fun v hv => hlatest v (List.mem_cons_of_mem _ hv)
    · exact Or.inr ⟨u, hold, hreplica, fun v hv => hlatest v (List.mem_cons_of_mem _ hv)⟩
  · intro h
    have hnew : (∀ u ∈ upserts, u.lastSeen ≤ t) →
        HasLatest (⟨replicaID, t⟩ :: upserts) replicaID := by
      intro hle
      refine ⟨⟨replicaID, t⟩, List.mem_cons_self, rfl, fun v hv => ?_⟩
      rcases List.mem_cons.mp hv with rfl | hold
      · exact le_refl _
      · exact hle v hold
    rcases h with hle | ⟨u, hu, hreplica, hlatest⟩
    · exact hnew hle
    · rcases le_or_gt t u.lastSeen with hold | hlater
      · refine ⟨u, List.mem_cons_of_mem _ hu, hreplica, fun v hv => ?_⟩
        rcases List.mem_cons.mp hv with rfl | hv'
        · exact hold
        · exact hlatest v hv'
      · exact hnew fun v hv => le_trans (hlatest v hv) hlater.le

/-! ### The rows -/

theorem connections_writeTask (fails : Agent → Bool) (p : Snapshotter.Pass) (task : List Agent) :
    (Snapshotter.writeTask fails p task).db.connections = p.db.connections := by
  refine Batch.send_invariant (fun db => db.connections = p.db.connections) task ?_ p.db rfl
  intro a _ db db' h hdb
  obtain ⟨_, _, _, hconnections⟩ :=
    saveSession_eq_some (Snapshotter.sessionStatement_eq_some h).2
  exact hconnections.trans hdb

theorem owner_upsertAgentConnection (db : Database) (conn : AgentConnection) (id : String) :
    owner (upsertAgentConnection db conn) id =
      if id = conn.instanceUID then some conn.replicaID else owner db id := by
  unfold owner upsertAgentConnection
  rw [FinMap.find_set]
  split <;> rfl

/-- An upsert takes over the rows of its agents and leaves the others. -/
theorem owner_upsertConnectionsOf (R : Replica) (task : List String) (now : ℤ) (db : Database)
    (id : String) :
    owner (R.upsertConnectionsOf task now db) id =
      if id ∈ task then some R.replicaID else owner db id := by
  induction task generalizing db with
  | nil => rfl
  | cons j task ih =>
    have htail := ih (upsertAgentConnection db ⟨j, R.replicaID, R.replicaLabel, now, now⟩)
    rw [owner_upsertAgentConnection] at htail
    change owner (R.upsertConnectionsOf task now
      (upsertAgentConnection db ⟨j, R.replicaID, R.replicaLabel, now, now⟩)) id = _
    rw [htail]
    by_cases htask : id ∈ task
    · rw [if_pos htask, if_pos (List.mem_cons_of_mem j htask)]
    · rw [if_neg htask]
      simp only [List.mem_cons, htask, or_false]

/-- Only the flusher's upserts move an owner. -/
theorem owner_step {R R' : Replica} {db db' : Database} {a : Act} (h : Step R db a R' db')
    (id : String) :
    owner db' id = if id ∈ landing a then some R.replicaID else owner db id := by
  cases h with
  | @upsertConnections task now ok tasks hupserting hmem =>
    cases ok with
    | true => exact owner_upsertConnectionsOf R task now db id
    | false => rfl
  | @save agent ok _ _ _ _ _ =>
    cases ok with
    | true => exact congrArg (fun m => (FinMap.find m id).map _) (tables_saveAgent db agent).2.2
    | false => rfl
  | @softDelete task now ok _ _ _ _ =>
    cases ok with
    | true =>
      exact congrArg (fun m => (FinMap.find m id).map _) (tables_softDeleteAgents db task now).2.2
    | false => rfl
  | saveSessions hwriting hmem =>
    exact congrArg (fun m => (FinMap.find m id).map _) (connections_writeTask _ _ _)
  | _ => rfl

/-! ### The snapshots behind the upserts -/

/-- The flush knows a snapshot of every agent it still has to upsert. -/
def Snapped (flush : Flush) (snaps : String → Option ℤ) : Prop :=
  ∀ tasks, flush = .upserting tasks → ∀ id ∈ tasks.flatten, (snaps id).isSome

theorem snapped_chunk (connected : List Agent) (size : ℕ) :
    Snapped (.upserting (Snapshotter.chunk (connected.map Agent.instanceUID) size))
      (snapsOf connected) := by
  intro tasks htasks id hid
  obtain rfl := Flush.upserting.inj htasks
  rw [Snapshotter.flatten_chunk] at hid
  obtain ⟨a, ha, rfl⟩ := List.mem_map.mp hid
  rw [snapsOf, Option.isSome_map, List.find?_isSome]
  exact ⟨a, ha, decide_eq_true rfl⟩

theorem snapped_of_ne {flush : Flush} (snaps : String → Option ℤ)
    (h : ∀ tasks, flush ≠ .upserting tasks) : Snapped flush snaps :=
  fun tasks htasks => absurd htasks (h tasks)

theorem snapped_next {flush flush' : Flush} {size : ℕ} (hnext : flush.next size = some flush')
    (snaps : String → Option ℤ) : Snapped flush' (nextSnaps .advance flush snaps) := by
  unfold Flush.next at hnext
  split at hnext
  · cases hnext
    exact snapped_of_ne _ (by simp)
  · cases hnext
    exact snapped_of_ne _ (by simp)
  · cases hnext
    exact snapped_chunk _ _
  · cases hnext
    exact snapped_of_ne _ (by simp)
  · cases hnext

theorem snapped_step {R R' : Replica} {db db' : Database} {act : Act} (h : Step R db act R' db')
    {snaps : String → Option ℤ} (hsnapped : Snapped R.flush snaps) :
    Snapped R'.flush (nextSnaps act R.flush snaps) := by
  cases h with
  | drain hidle hids => exact snapped_of_ne _ (by simp)
  | get hreading hfree =>
    refine snapped_of_ne _ fun tasks hlooked => ?_
    unfold Flush.looked at hlooked
    split at hlooked <;> cases hlooked
  | advance hnext => exact snapped_next hnext snaps
  | save hsaving hmem => exact snapped_of_ne _ (by simp)
  | softDelete hdeleting hmem => exact snapped_of_ne _ (by simp)
  | upsertConnections hupserting hmem =>
    intro tasks' htasks id hid
    obtain rfl := Flush.upserting.inj htasks
    exact hsnapped _ hupserting id (flatten_erase_subset _ _ hid)
  | _ => exact hsnapped

theorem snaps_of_landing {R R' : Replica} {db db' : Database} {act : Act} (h : Step R db act R' db')
    {snaps : String → Option ℤ} (hsnapped : Snapped R.flush snaps) {id : String}
    (hid : id ∈ landing act) : ∃ t, snaps id = some t := by
  cases h with
  | @upsertConnections task now ok tasks hupserting hmem =>
    cases ok with
    | true =>
      exact Option.isSome_iff_exists.mp
        (hsnapped tasks hupserting id (List.mem_flatten_of_mem hmem hid))
    | false => cases hid
  | _ => cases hid

/-! ### Runs -/

def Inv (p : Cluster ι × Ledger ι) : Prop :=
  (∀ r, Snapped (p.1.replicas r).flush (p.2.snaps r)) ∧ OwnedByLatest p

theorem snapped_machine {p q : Cluster ι × Ledger ι} {a : ι × Act}
    (hp : ∀ r, Snapped (p.1.replicas r).flush (p.2.snaps r))
    (hstep : observed step watchUpserts p a = some q) (r : ι) :
    Snapped (q.1.replicas r).flush (q.2.snaps r) := by
  obtain ⟨hst, hledger⟩ := observed_eq_some.mp hstep
  obtain ⟨hcases, hother⟩ := step_eq_some hst
  rw [hledger]
  by_cases hr : r = a.1
  · subst hr
    simp only [watchUpserts, Function.update_self]
    exact snapped_step hcases (hp a.1)
  · simp only [watchUpserts, Function.update_of_ne hr, hother r hr]
    exact hp r

/-- The owner and the upserts of one agent after a step. -/
theorem landing_step {p q : Cluster ι × Ledger ι} {a : ι × Act}
    (hp : ∀ r, Snapped (p.1.replicas r).flush (p.2.snaps r))
    (hstep : observed step watchUpserts p a = some q) (id : String) :
    (id ∈ landing a.2 ∧ ∃ t, p.2.snaps a.1 id = some t ∧
        owner q.1.db id = some (p.1.replicas a.1).replicaID ∧
        q.2.upserts id = ⟨(p.1.replicas a.1).replicaID, t⟩ :: p.2.upserts id) ∨
      (id ∉ landing a.2 ∧ owner q.1.db id = owner p.1.db id ∧
        q.2.upserts id = p.2.upserts id) := by
  obtain ⟨hst, hledger⟩ := observed_eq_some.mp hstep
  obtain ⟨hcases, _⟩ := step_eq_some hst
  have howner := owner_step hcases id
  have hupserts : q.2.upserts id = if id ∈ landing a.2 then
      ((p.2.snaps a.1 id).map (Upsert.mk (p.1.replicas a.1).replicaID)).toList ++ p.2.upserts id
      else p.2.upserts id := by
    rw [hledger]
    rfl
  by_cases hid : id ∈ landing a.2
  · obtain ⟨t, ht⟩ := snaps_of_landing hcases (hp a.1) hid
    rw [if_pos hid] at howner
    rw [if_pos hid, ht] at hupserts
    exact Or.inl ⟨hid, t, ht, howner, hupserts⟩
  · rw [if_neg hid] at howner hupserts
    exact Or.inr ⟨hid, howner, hupserts⟩

theorem owned_step {p q : Cluster ι × Ledger ι} {a : ι × Act} (hp : Inv p)
    (hturn : NotOvertaken p a) (hstep : observed step watchUpserts p a = some q) :
    OwnedByLatest q := by
  intro id hne
  rcases landing_step hp.1 hstep id with ⟨hid, t, ht, howner, hupserts⟩ | ⟨_, howner, hupserts⟩
  · refine ⟨_, howner, ?_⟩
    rw [hupserts]
    exact (hasLatest_cons_iff _ _ t).mpr (hturn id hid t ht)
  · rw [hupserts] at hne ⊢
    rw [howner]
    exact hp.2 id hne

theorem not_owned_step {p q : Cluster ι × Ledger ι} {a : ι × Act} (hp : Inv p)
    (hturn : ¬ NotOvertaken p a) (hstep : observed step watchUpserts p a = some q) :
    ¬ OwnedByLatest q := by
  intro hq
  apply hturn
  intro id hid t ht
  rcases landing_step hp.1 hstep id with ⟨_, t', ht', howner, hupserts⟩ | ⟨hnot, _⟩
  · obtain rfl := Option.some.inj (ht'.symm.trans ht)
    obtain ⟨replicaID, hsame, hlatest⟩ := hq id (by simp [hupserts])
    obtain rfl := Option.some.inj (howner.symm.trans hsame)
    rw [hupserts] at hlatest
    exact (hasLatest_cons_iff _ _ t').mp hlatest
  · exact absurd hid hnot

/-- The owner is the replica of the latest snapshot in every state of a run
exactly when no upsert of an overtaken replica lands. -/
theorem owned_by_latest_iff (s₀ : Cluster ι) (hs₀ : Started s₀) (acts : List (ι × Act))
    (final : Cluster ι × Ledger ι)
    (hrun : run (observed step watchUpserts) (s₀, {}) acts = some final) :
    (∀ p, Visits (observed step watchUpserts) (s₀, {}) acts p → OwnedByLatest p) ↔
      Along (observed step watchUpserts) NotOvertaken (s₀, {}) acts := by
  refine visits_good_iff_along Inv OwnedByLatest (fun _ hp => hp.2)
    (fun _ _ _ hp hturn hstep => ⟨snapped_machine hp.1 hstep, owned_step hp hturn hstep⟩)
    (fun _ _ _ hp hturn hstep => not_owned_step hp hturn hstep) ⟨fun r => ?_, fun id hne => ?_⟩ hrun
  · obtain ⟨cfg, tick, batched, replicaID, label, hR⟩ := hs₀ r
    change Snapped (s₀.replicas r).flush _
    rw [hR]
    exact snapped_of_ne _ (by simp [start])
  · exact absurd rfl hne

open StaleReplica

/-- The agent is heard and flushed by `a`, then by `b`. -/
def handedOver : List (Bool × Act) :=
  onReplica false (heartbeatActs 0 ++ saveActs (heardAt 0 0) true) ++
    onReplica true (heartbeatActs 5000000000 ++ saveActs (heardAt 5000000000 5000000000) true)

theorem owned_by_latest_handed_over :
    ∃ final, run (observed step watchUpserts) (twoReplicas, {}) handedOver = some final ∧
      ∀ p, Visits (observed step watchUpserts) (twoReplicas, {}) handedOver p →
        OwnedByLatest p := by
  obtain ⟨final, hrun, _⟩ : ∃ final,
      run (observed step watchUpserts) (twoReplicas, {}) handedOver = some final ∧ True :=
    exists_run_of_any (by decide +kernel)
  have hturn : Along (observed step watchUpserts) NotOvertaken (twoReplicas, {}) handedOver := by
    decide +kernel
  have hstarted : Started twoReplicas := fun r => ⟨_, _, _, _, _, rfl⟩
  exact ⟨final, hrun, (owned_by_latest_iff twoReplicas hstarted handedOver final hrun).mpr hturn⟩

/-- `a` hears the agent first, but its flush comes after that of `b`. -/
def takenBack : List (Bool × Act) :=
  onReplica false (heartbeatActs 0) ++
    onReplica true (heartbeatActs 5000000000 ++ saveActs (heardAt 5000000000 5000000000) true) ++
    onReplica false (saveActs (heardAt 0 0) true)

/-- The replica the agent has left takes the row back. -/
theorem left_replica_takes_row_back :
    ∃ final, run (observed step watchUpserts) (twoReplicas, {}) takenBack = some final ∧
      final.2.upserts zeroUID = [⟨"a", 0⟩, ⟨"b", 5000000000⟩] ∧
      owner final.1.db zeroUID = some "a" :=
  exists_run_of_any (by decide +kernel)

end Grex.Ownership
