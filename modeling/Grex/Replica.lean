import Grex.Registry
import Grex.Snapshotter

/-!
One replica as a machine: registry operations that hold a shard lock while they
assign and notify, the dirty tracker with a lock of its own, the flusher and
the session snapshotter. Between any two steps of an operation the tracker can
be drained, while a read of the registry waits for the shard lock. Writes of
one phase of a flush run concurrently, so they are taken in any order, and each
of them may fail without an effect. A sweep is a sequence of shard sweeps, and
a report whose uid is invalid is dropped before it takes a lock.
-/

namespace Grex.Replica

open GoTime AgentState Message AgentProgram Tables

/-- A stage of the slot it names. -/
abbrev Work := Σ id : String, Stage id

def works {id : String} (p : List (Stage id)) : List Work := p.map (Sigma.mk id)

/-- The operations that hold a shard lock. -/
inductive Locked
  | report (now : ℤ) (msg : AgentToServer) (conn : ConnMeta)
  | setConnected (id : String) (connected : Bool)
  | sweepShard (shard : ℕ) (now : ℤ) (order : List String)

/-- The shard an operation locks and the stages it runs there. -/
def Locked.plan (r : Registry) : Locked → Option (ℕ × List Work)
  | .report now msg conn =>
      match instanceUID msg.instanceUid with
      | .error _ => none
      | .ok id => some (r.shardFor id, works (reportProgram r.cfg id now msg conn))
  | .setConnected id connected => some (r.shardFor id, works (setConnectedProgram id connected))
  | .sweepShard shard now order =>
      if shard < r.count ∧ FinMap.Enumerates order (r.shards shard).keys then
        some (shard, order.flatMap fun id => works (sweepProgram r.cfg id now))
      else none

/-- What the holder of a shard lock still has to do: notifications of the last
stage first, then the remaining stages. -/
structure Section where
  op : Locked
  rest : List Work
  pending : List Event

/-- The phases of `flushOnce`. Writes of one phase are all done before the
next phase begins. -/
inductive Flush
  | idle
  | reading (todo : List String) (saves : List Agent) (evicted : List String)
      (connected : List Agent)
  | saving (saves : List Agent) (evicted : List String) (connected : List Agent)
  | deleting (tasks : List (List String)) (connected : List Agent)
  | upserting (tasks : List (List String))
  deriving DecidableEq

/-- The phases of `snapshotOnce`. -/
inductive Snapshot
  | idle
  | listing (shard : ℕ) (agents : List Agent)
  | writing (tasks : List (List Agent))

end Replica

open Replica in
structure Replica where
  registry : Registry
  dirty : Finset String := ∅
  locks : FinMap ℕ Section := ∅
  flush : Flush := .idle
  snapshot : Snapshot := .idle
  snapshotter : Snapshotter := {}
  snapshotTick : ℤ
  batched : Bool
  replicaID : String
  replicaLabel : String

namespace Replica

open GoTime AgentState Message AgentProgram Tables

inductive Act
  | lock (op : Locked)
  | exec (shard : ℕ)
  | fire (shard : ℕ)
  | unlock (shard : ℕ)
  | drain (ids : List String)
  | get
  | advance
  | save (agent : Agent) (ok : Bool)
  | softDelete (task : List String) (now : ℤ) (ok : Bool)
  | upsertConnections (task : List String) (now : ℤ) (ok : Bool)
  | beginSnapshot
  | list (order : List String)
  | due (now : ℤ)
  | saveSessions (task : List Agent) (fails : Agent → Bool)
  | endSnapshot
  | purge (before : ℤ)

/-- How many statements one write task holds. -/
def taskSize (R : Replica) : ℕ := if R.batched then Snapshotter.defaultBatchSize else 1

def keepalive (R : Replica) : ℤ :=
  Snapshotter.keepaliveInterval R.registry.cfg.disconnectThreshold R.snapshotTick

def holds (R : Replica) (shard : ℕ) (sec : Option Section) : Replica :=
  { R with locks := R.locks.set shard sec }

/-- The result of looking up the next drained id. -/
def Flush.looked (id : String) (slot : Option Agent) (todo : List String) (saves : List Agent)
    (evicted : List String) (connected : List Agent) : Flush :=
  match slot with
  | none => .reading todo saves (evicted ++ [id]) connected
  | some a => .reading todo (saves ++ [a]) evicted (if a.connected then connected ++ [a] else connected)

/-- The next phase, once the current one has nothing left. -/
def Flush.next (size : ℕ) : Flush → Option Flush
  | .reading [] saves evicted connected => some (.saving saves evicted connected)
  | .saving [] evicted connected => some (.deleting (Snapshotter.chunk evicted size) connected)
  | .deleting [] connected =>
      some (.upserting (Snapshotter.chunk (connected.map Agent.instanceUID) size))
  | .upserting [] => some .idle
  | _ => none

def upsertConnectionsOf (R : Replica) (task : List String) (now : ℤ) (db : Database) : Database :=
  task.foldl (fun db id => upsertAgentConnection db {
    instanceUID := id
    replicaID := R.replicaID
    replicaLabel := R.replicaLabel
    connectedAt := now
    lastSeen := now }) db

def step (R : Replica) (db : Database) : Act → Option (Replica × Database)
  | .lock op =>
      match op.plan R.registry with
      | none => none
      | some (shard, work) =>
          match R.locks.find shard with
          | none => some (R.holds shard (some ⟨op, work, []⟩), db)
          | some _ => none
  | .exec shard =>
      match R.locks.find shard with
      | some ⟨op, ⟨_, st⟩ :: rest, []⟩ =>
          some ({ R.holds shard (some ⟨op, rest, (R.registry.exec st).2⟩) with
            registry := (R.registry.exec st).1 }, db)
      | _ => none
  | .fire shard =>
      match R.locks.find shard with
      | some ⟨op, rest, e :: pending⟩ =>
          some ({ R.holds shard (some ⟨op, rest, pending⟩) with dirty := insert e.about R.dirty }, db)
      | _ => none
  | .unlock shard =>
      match R.locks.find shard with
      | some ⟨_, [], []⟩ => some (R.holds shard none, db)
      | _ => none
  | .drain ids =>
      match R.flush with
      | .idle =>
          if FinMap.Enumerates ids R.dirty then
            some ({ R with dirty := ∅, flush := .reading ids [] [] [] }, db)
          else none
      | _ => none
  | .get =>
      match R.flush with
      | .reading (id :: todo) saves evicted connected =>
          match R.locks.find (R.registry.shardFor id) with
          | none =>
              some ({ R with flush := .looked id (R.registry.get id) todo saves evicted connected }, db)
          | some _ => none
      | _ => none
  | .advance => (R.flush.next R.taskSize).map fun flush => ({ R with flush := flush }, db)
  | .save agent ok =>
      match R.flush with
      | .saving saves evicted connected =>
          if agent ∈ saves then
            some ({ R with flush := .saving (saves.erase agent) evicted connected },
              if ok then saveAgent db agent else db)
          else none
      | _ => none
  | .softDelete task now ok =>
      match R.flush with
      | .deleting tasks connected =>
          if task ∈ tasks then
            some ({ R with flush := .deleting (tasks.erase task) connected },
              if ok then softDeleteAgents db task now else db)
          else none
      | _ => none
  | .upsertConnections task now ok =>
      match R.flush with
      | .upserting tasks =>
          if task ∈ tasks then
            some ({ R with flush := .upserting (tasks.erase task) },
              if ok then R.upsertConnectionsOf task now db else db)
          else none
      | _ => none
  | .beginSnapshot =>
      match R.snapshot with
      | .idle => some ({ R with snapshot := .listing 0 [] }, db)
      | _ => none
  | .list order =>
      match R.snapshot with
      | .listing shard agents =>
          match R.locks.find shard with
          | none =>
              if shard < R.registry.count ∧
                  FinMap.Enumerates order (R.registry.shards shard).keys then
                some ({ R with
                  snapshot := .listing (shard + 1) (agents ++ order.filterMap R.registry.get) }, db)
              else none
          | some _ => none
      | _ => none
  | .due now =>
      match R.snapshot with
      | .listing shard agents =>
          if shard = R.registry.count then
            some ({ R with
              snapshotter := (R.snapshotter.due R.keepalive now agents).1
              snapshot := .writing
                (Snapshotter.chunk (R.snapshotter.due R.keepalive now agents).2 R.taskSize) }, db)
          else none
      | _ => none
  | .saveSessions task fails =>
      match R.snapshot with
      | .writing tasks =>
          if task ∈ tasks then
            some ({ R with
              snapshotter := (Snapshotter.writeTask fails ⟨db, R.snapshotter, [], []⟩ task).snapshotter
              snapshot := .writing (tasks.erase task) },
              (Snapshotter.writeTask fails ⟨db, R.snapshotter, [], []⟩ task).db)
          else none
      | _ => none
  | .endSnapshot =>
      match R.snapshot with
      | .writing [] => some ({ R with snapshot := .idle }, db)
      | _ => none
  | .purge before => some (R, Tables.purge db before)

/-- Everything one step can do, with the conditions it needs. -/
inductive Step : Replica → Database → Act → Replica → Database → Prop
  | lock {R : Replica} {db : Database} {op : Locked} {shard : ℕ} {work : List Work}
      (hplan : op.plan R.registry = some (shard, work)) (hfree : R.locks.find shard = none) :
      Step R db (.lock op) (R.holds shard (some ⟨op, work, []⟩)) db
  | exec {R : Replica} {db : Database} {shard : ℕ} {op : Locked} {id : String} {st : Stage id}
      {rest : List Work} (hheld : R.locks.find shard = some ⟨op, ⟨id, st⟩ :: rest, []⟩) :
      Step R db (.exec shard)
        { R.holds shard (some ⟨op, rest, (R.registry.exec st).2⟩) with
          registry := (R.registry.exec st).1 } db
  | fire {R : Replica} {db : Database} {shard : ℕ} {op : Locked} {rest : List Work} {e : Event}
      {pending : List Event} (hheld : R.locks.find shard = some ⟨op, rest, e :: pending⟩) :
      Step R db (.fire shard)
        { R.holds shard (some ⟨op, rest, pending⟩) with dirty := insert e.about R.dirty } db
  | unlock {R : Replica} {db : Database} {shard : ℕ} {op : Locked}
      (hheld : R.locks.find shard = some ⟨op, [], []⟩) :
      Step R db (.unlock shard) (R.holds shard none) db
  | drain {R : Replica} {db : Database} {ids : List String} (hidle : R.flush = .idle)
      (hids : FinMap.Enumerates ids R.dirty) :
      Step R db (.drain ids) { R with dirty := ∅, flush := .reading ids [] [] [] } db
  | get {R : Replica} {db : Database} {id : String} {todo : List String} {saves : List Agent}
      {evicted : List String} {connected : List Agent}
      (hreading : R.flush = .reading (id :: todo) saves evicted connected)
      (hfree : R.locks.find (R.registry.shardFor id) = none) :
      Step R db .get
        { R with flush := .looked id (R.registry.get id) todo saves evicted connected } db
  | advance {R : Replica} {db : Database} {flush : Flush}
      (hnext : R.flush.next R.taskSize = some flush) :
      Step R db .advance { R with flush := flush } db
  | save {R : Replica} {db : Database} {agent : Agent} {ok : Bool} {saves : List Agent}
      {evicted : List String} {connected : List Agent}
      (hsaving : R.flush = .saving saves evicted connected) (hmem : agent ∈ saves) :
      Step R db (.save agent ok)
        { R with flush := .saving (saves.erase agent) evicted connected }
        (if ok then saveAgent db agent else db)
  | softDelete {R : Replica} {db : Database} {task : List String} {now : ℤ} {ok : Bool}
      {tasks : List (List String)} {connected : List Agent}
      (hdeleting : R.flush = .deleting tasks connected) (hmem : task ∈ tasks) :
      Step R db (.softDelete task now ok)
        { R with flush := .deleting (tasks.erase task) connected }
        (if ok then softDeleteAgents db task now else db)
  | upsertConnections {R : Replica} {db : Database} {task : List String} {now : ℤ} {ok : Bool}
      {tasks : List (List String)} (hupserting : R.flush = .upserting tasks)
      (hmem : task ∈ tasks) :
      Step R db (.upsertConnections task now ok)
        { R with flush := .upserting (tasks.erase task) }
        (if ok then R.upsertConnectionsOf task now db else db)
  | beginSnapshot {R : Replica} {db : Database} (hidle : R.snapshot = .idle) :
      Step R db .beginSnapshot { R with snapshot := .listing 0 [] } db
  | list {R : Replica} {db : Database} {order : List String} {shard : ℕ} {agents : List Agent}
      (hlisting : R.snapshot = .listing shard agents) (hfree : R.locks.find shard = none)
      (hshard : shard < R.registry.count)
      (horder : FinMap.Enumerates order (R.registry.shards shard).keys) :
      Step R db (.list order)
        { R with snapshot := .listing (shard + 1) (agents ++ order.filterMap R.registry.get) } db
  | due {R : Replica} {db : Database} {now : ℤ} {agents : List Agent}
      (hlisted : R.snapshot = .listing R.registry.count agents) :
      Step R db (.due now)
        { R with
          snapshotter := (R.snapshotter.due R.keepalive now agents).1
          snapshot := .writing
            (Snapshotter.chunk (R.snapshotter.due R.keepalive now agents).2 R.taskSize) } db
  | saveSessions {R : Replica} {db : Database} {task : List Agent} {fails : Agent → Bool}
      {tasks : List (List Agent)} (hwriting : R.snapshot = .writing tasks) (hmem : task ∈ tasks) :
      Step R db (.saveSessions task fails)
        { R with
          snapshotter := (Snapshotter.writeTask fails ⟨db, R.snapshotter, [], []⟩ task).snapshotter
          snapshot := .writing (tasks.erase task) }
        (Snapshotter.writeTask fails ⟨db, R.snapshotter, [], []⟩ task).db
  | endSnapshot {R : Replica} {db : Database} (hwritten : R.snapshot = .writing []) :
      Step R db .endSnapshot { R with snapshot := .idle } db
  | purge {R : Replica} {db : Database} {before : ℤ} :
      Step R db (.purge before) R (Tables.purge db before)

theorem step_cases {R R' : Replica} {db db' : Database} {a : Act}
    (h : R.step db a = some (R', db')) : Step R db a R' db' := by
  cases a with
  | lock op =>
    simp only [step] at h
    split at h
    · simp at h
    · rename_i shard work hplan
      split at h
      · rename_i hfree
        cases h
        exact .lock hplan hfree
      · simp at h
  | exec shard =>
    simp only [step] at h
    split at h
    · rename_i op id st rest hheld
      cases h
      exact .exec hheld
    · simp at h
  | fire shard =>
    simp only [step] at h
    split at h
    · rename_i op rest e pending hheld
      cases h
      exact .fire hheld
    · simp at h
  | unlock shard =>
    simp only [step] at h
    split at h
    · rename_i op hheld
      cases h
      exact .unlock hheld
    · simp at h
  | drain ids =>
    simp only [step] at h
    split at h
    · rename_i hidle
      split at h
      · rename_i hids
        cases h
        exact .drain hidle hids
      · simp at h
    · simp at h
  | get =>
    simp only [step] at h
    split at h
    · rename_i id todo saves evicted connected hreading
      split at h
      · rename_i hfree
        cases h
        exact .get hreading hfree
      · simp at h
    · simp at h
  | advance =>
    simp only [step, Option.map_eq_some_iff] at h
    obtain ⟨flush, hnext, heq⟩ := h
    cases heq
    exact .advance hnext
  | save agent ok =>
    simp only [step] at h
    split at h
    · rename_i saves evicted connected hsaving
      split at h
      · rename_i hmem
        cases h
        exact .save hsaving hmem
      · simp at h
    · simp at h
  | softDelete task now ok =>
    simp only [step] at h
    split at h
    · rename_i tasks connected hdeleting
      split at h
      · rename_i hmem
        cases h
        exact .softDelete hdeleting hmem
      · simp at h
    · simp at h
  | upsertConnections task now ok =>
    simp only [step] at h
    split at h
    · rename_i tasks hupserting
      split at h
      · rename_i hmem
        cases h
        exact .upsertConnections hupserting hmem
      · simp at h
    · simp at h
  | beginSnapshot =>
    simp only [step] at h
    split at h
    · rename_i hidle
      cases h
      exact .beginSnapshot hidle
    · simp at h
  | list order =>
    simp only [step] at h
    split at h
    · rename_i shard agents hlisting
      split at h
      · rename_i hfree
        split at h
        · rename_i hshard
          cases h
          exact .list hlisting hfree hshard.1 hshard.2
        · simp at h
      · simp at h
    · simp at h
  | due now =>
    simp only [step] at h
    split at h
    · rename_i shard agents hlisting
      split at h
      · rename_i hshard
        subst hshard
        cases h
        exact .due hlisting
      · simp at h
    · simp at h
  | saveSessions task fails =>
    simp only [step] at h
    split at h
    · rename_i tasks hwriting
      split at h
      · rename_i hmem
        cases h
        exact .saveSessions hwriting hmem
      · simp at h
    · simp at h
  | endSnapshot =>
    simp only [step] at h
    split at h
    · rename_i hwritten
      cases h
      exact .endSnapshot hwritten
    · simp at h
  | purge before =>
    cases h
    exact .purge

end Replica

end Grex
