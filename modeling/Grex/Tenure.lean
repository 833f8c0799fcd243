import Grex.Ownership
import Grex.Reads

/-!
How long a replica has held an agent's socket, as `agent_connections` tells it.
Every flush of the owner refreshes `last_seen`, and `connected_at` is kept while
the owner stays the same. Over any number of replicas the row is accounted for
by the upserts that landed since the agent was last deregistered: owner, label
and `last_seen` are those of the latest one, and `connected_at` is the time of
the first of its owner's upserts that no other replica's has followed.
-/

namespace Grex.Tenure

open GoTime Tables Reads Replica Cluster Machine Ownership

/-- `DELETE FROM agent_connections` for one agent. -/
def deleteAgentConnection (db : Database) (id : String) : Database :=
  { db with connections := db.connections.erase id }

def getAgentConnection (db : Database) (id : String) : Option AgentConnection :=
  (db.connections.find id).map fun row =>
    ⟨id, row.replicaID, row.replicaLabel, readTime row.connectedAt, readTime row.lastSeen⟩

/-- A clock reading to the microsecond, which is all that a column keeps of it. -/
def kept (t : ℤ) : ℤ := readTime (micros t)

/-- An upsert that landed. -/
structure Held where
  replicaID : String
  replicaLabel : String
  now : ℤ
  deriving DecidableEq

/-- The upserts of the present owner that no other replica's has followed, of a
history with the newest first. -/
def tenure : List Held → List Held
  | [] => []
  | held :: before => held :: before.takeWhile fun h => decide (h.replicaID = held.replicaID)

/-- What the history of an agent says of its row. -/
def accounted (id : String) (history : List Held) : Option AgentConnection :=
  match history.head?, (tenure history).getLast? with
  | some latest, some first =>
      some ⟨id, latest.replicaID, latest.replicaLabel, kept first.now, kept latest.now⟩
  | _, _ => none

theorem tenure_cons (held latest : Held) (before : List Held) :
    tenure (held :: latest :: before) =
      if latest.replicaID = held.replicaID then held :: tenure (latest :: before) else [held] := by
  unfold tenure
  by_cases hsame : latest.replicaID = held.replicaID
  · simp [hsame]
  · simp [hsame]

/-- One more upsert: the owner's tenure goes on, or a new one begins. -/
theorem accounted_cons (id : String) (held : Held) (history : List Held) :
    accounted id (held :: history) =
      some ⟨id, held.replicaID, held.replicaLabel,
        (match accounted id history with
          | some conn =>
              if conn.replicaID = held.replicaID then conn.connectedAt else kept held.now
          | none => kept held.now),
        kept held.now⟩ := by
  cases history with
  | nil => rfl
  | cons latest before =>
    obtain ⟨first, hfirst⟩ : ∃ first, (tenure (latest :: before)).getLast? = some first :=
      Option.isSome_iff_exists.mp (by simp [tenure])
    have hold : accounted id (latest :: before) =
        some ⟨id, latest.replicaID, latest.replicaLabel, kept first.now, kept latest.now⟩ := by
      simp [accounted, hfirst]
    have hnew : (tenure (held :: latest :: before)).getLast? =
        some (if latest.replicaID = held.replicaID then first else held) := by
      rw [tenure_cons]
      by_cases hsame : latest.replicaID = held.replicaID
      · simp [hsame, List.getLast?_cons, hfirst]
      · simp [hsame]
    rw [hold]
    simp only [accounted, List.head?_cons, hnew]
    split <;> rfl

theorem getAgentConnection_upsert (db : Database) (conn : AgentConnection) (id : String) :
    getAgentConnection (upsertAgentConnection db conn) id =
      if id = conn.instanceUID then
        some ⟨id, conn.replicaID, conn.replicaLabel,
          (match getAgentConnection db id with
            | some old =>
                if old.replicaID = conn.replicaID then old.connectedAt else kept conn.connectedAt
            | none => kept conn.connectedAt),
          kept conn.lastSeen⟩
      else getAgentConnection db id := by
  unfold getAgentConnection upsertAgentConnection kept
  rw [FinMap.find_set]
  split
  · rename_i hid
    subst hid
    cases hrow : db.connections.find conn.instanceUID with
    | none => simp [upsertConnectionRow]
    | some row => simp [upsertConnectionRow, apply_ite readTime]
  · rfl

theorem accounted_twice (id : String) (held : Held) (history : List Held) :
    accounted id (held :: held :: history) = accounted id (held :: history) := by
  rw [accounted_cons, accounted_cons]
  simp

/-- The upserts of one task, which carry one time. -/
theorem getAgentConnection_upserts (R : Replica) (task : List String) (now : ℤ) (db : Database)
    (id : String) (history : List Held) (h : getAgentConnection db id = accounted id history) :
    getAgentConnection (R.upsertConnectionsOf task now db) id =
      accounted id (if id ∈ task then ⟨R.replicaID, R.replicaLabel, now⟩ :: history else history) := by
  induction task generalizing db history with
  | nil => exact h
  | cons j task ih =>
    have hone := getAgentConnection_upsert db ⟨j, R.replicaID, R.replicaLabel, now, now⟩ id
    change getAgentConnection (R.upsertConnectionsOf task now
      (upsertAgentConnection db ⟨j, R.replicaID, R.replicaLabel, now, now⟩)) id = _
    by_cases hid : id = j
    · -- an agent that the task has twice is upserted as if once
      rw [if_pos hid, h, ← accounted_cons id ⟨R.replicaID, R.replicaLabel, now⟩] at hone
      rw [if_pos (by simp [hid]), ih _ _ hone]
      split
      · exact accounted_twice id _ history
      · rfl
    · rw [if_neg hid, h] at hone
      simp only [List.mem_cons, hid, false_or]
      exact ih _ history hone

/-! ### A cluster -/

/-- A step of one replica, or the deregistration of an agent. -/
inductive Act (ι : Type*)
  | replica (a : ι × Replica.Act)
  | deregister (id : String)

variable {ι : Type*} [DecidableEq ι]

def step (s : Cluster ι) : Act ι → Option (Cluster ι)
  | .replica a => s.step a
  | .deregister id => some { s with db := deleteAgentConnection s.db id }

/-- The upserts that landed since the agent was last deregistered, newest
first. -/
def watchHeld (history : String → List Held) (s : Cluster ι) (a : Act ι) (_ : Cluster ι) :
    String → List Held :=
  fun id =>
    match a with
    | .replica (r, .upsertConnections task now true) =>
        if id ∈ task then
          ⟨(s.replicas r).replicaID, (s.replicas r).replicaLabel, now⟩ :: history id
        else history id
    | .deregister j => if id = j then [] else history id
    | _ => history id

/-- Nothing but the flusher's upserts touches `agent_connections`. -/
theorem connections_step {R R' : Replica} {db db' : Database} {a : Replica.Act}
    (h : Step R db a R' db') (ha : ∀ task now, a ≠ .upsertConnections task now true) :
    db'.connections = db.connections := by
  cases h with
  | @upsertConnections task now ok tasks hupserting hmem =>
    cases ok with
    | true => exact absurd rfl (ha task now)
    | false => rfl
  | @save agent ok =>
    cases ok with
    | true => exact (tables_saveAgent db agent).2.2
    | false => rfl
  | @softDelete task now ok =>
    cases ok with
    | true => exact (tables_softDeleteAgents db task now).2.2
    | false => rfl
  | saveSessions => exact connections_writeTask _ _ _
  | _ => rfl

theorem upsert_step {R R' : Replica} {db db' : Database} {task : List String} {now : ℤ}
    (h : Step R db (.upsertConnections task now true) R' db') :
    db' = R.upsertConnectionsOf task now db := by
  cases h
  rfl

theorem accounted_step (p : Cluster ι × (String → List Held)) (a : Act ι)
    (q : Cluster ι × (String → List Held))
    (h : ∀ id, getAgentConnection p.1.db id = accounted id (p.2 id))
    (hstep : observed step watchHeld p a = some q) (id : String) :
    getAgentConnection q.1.db id = accounted id (q.2 id) := by
  obtain ⟨hst, hhistory⟩ := observed_eq_some.mp hstep
  rw [hhistory]
  cases a with
  | deregister j =>
    have hdb := Option.some.inj hst
    simp only [← hdb, watchHeld, getAgentConnection, deleteAgentConnection, FinMap.find_set]
    by_cases hid : id = j
    · simp [hid, accounted]
    · simpa [hid, getAgentConnection] using h id
  | replica a =>
    obtain ⟨r, a⟩ := a
    have hmove := (step_eq_some hst).1
    by_cases hupsert : ∃ task now, a = .upsertConnections task now true
    · obtain ⟨task, now, rfl⟩ := hupsert
      rw [upsert_step hmove]
      exact getAgentConnection_upserts _ task now p.1.db id (p.2 id) (h id)
    · have hsame := connections_step hmove fun task now heq => hupsert ⟨task, now, heq⟩
      have hkept : watchHeld p.2 p.1 (.replica (r, a)) q.1 id = p.2 id := by
        unfold watchHeld
        split
        · rename_i heq
          cases heq
          exact absurd ⟨_, _, rfl⟩ hupsert
        · rename_i heq
          cases heq
        · rfl
      rw [hkept, ← h id, getAgentConnection, hsame]
      rfl

/-- In every run of any number of replicas that starts with no connections
stored, what `GetAgentConnection` returns is accounted for by the upserts that
landed since the agent was last deregistered. -/
theorem connection_tells_tenure (s₀ : Cluster ι) (hempty : s₀.db.connections = ∅)
    (acts : List (Act ι)) (s : Cluster ι) (history : String → List Held)
    (hrun : run (observed step watchHeld) (s₀, fun _ => []) acts = some (s, history)) (id : String) :
    getAgentConnection s.db id = accounted id (history id) := by
  refine run_invariant (fun p : Cluster ι × (String → List Held) =>
    ∀ id, getAgentConnection p.1.db id = accounted id (p.2 id)) accounted_step ?_ hrun id
  intro id
  simp [getAgentConnection, hempty, accounted]

open StaleReplica in
/-- `a` hears the agent and flushes it, `b` takes it over, and `b` flushes it
once more after it has come back from a disconnect. -/
def refreshed : List (Act Bool) :=
  (onReplica false (heartbeatActs 0 ++ saveActs (heardAt 0 0) true) ++
    onReplica true (heartbeatActs 5000000000 ++
      saveActs (heardAt 5000000000 5000000000) true ++
      [.lock (.setConnected Message.zeroUID false), .exec 0, .fire 0, .exec 0, .unlock 0] ++
      heartbeatActs 9000000000 ++ saveActs (heardAt 5000000000 9000000000) true)).map .replica

open StaleReplica Message in
theorem connection_tells_tenure_refreshed :
    ∃ s history, run (observed step watchHeld) (twoReplicas, fun _ => []) refreshed =
        some (s, history) ∧
      history zeroUID = [⟨"b", "", 9000000000⟩, ⟨"b", "", 5000000000⟩, ⟨"a", "", 0⟩] ∧
      getAgentConnection s.db zeroUID = some ⟨zeroUID, "b", "", 5000000000, 9000000000⟩ := by
  obtain ⟨⟨s, history⟩, hrun, hheld⟩ : ∃ p, run (observed step watchHeld)
      (twoReplicas, fun _ => []) refreshed = some p ∧
      p.2 zeroUID = [⟨"b", "", 9000000000⟩, ⟨"b", "", 5000000000⟩, ⟨"a", "", 0⟩] :=
    exists_run_of_any (by decide +kernel)
  change history zeroUID = _ at hheld
  refine ⟨s, history, hrun, hheld, ?_⟩
  rw [connection_tells_tenure twoReplicas rfl refreshed s history hrun zeroUID, hheld]
  rfl

end Grex.Tenure
