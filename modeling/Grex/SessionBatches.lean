import Grex.Snapshotter
import Mathlib.Data.List.Pairwise
import Mathlib.Data.List.TakeWhile

/-!
Batched session writes against one write for each agent. A batch in which a
statement fails is rolled back as a whole, while the agents in front of the
failing one are still recorded as written. The two ways of writing agree, and
the records are truthful, exactly when every batch with a failure fails at its
first statement and had nothing else to change.
-/

namespace Grex.SessionBatches

open AgentState Tables Snapshotter

/-- The agent's statement would succeed if it were sent alone. -/
def Succeeds (fails : Agent → Bool) (db : Database) (a : Agent) : Prop :=
  fails a = false ∧ a.instanceUID ∈ db.agents.keys

instance (fails : Agent → Bool) (db : Database) : DecidablePred (Succeeds fails db) := fun a =>
  inferInstanceAs (Decidable (fails a = false ∧ a.instanceUID ∈ db.agents.keys))

/-- The write would leave the stored session row as it is. -/
def Unmoved (db : Database) (a : Agent) : Prop :=
  some (upsertSessionRow (db.sessions.find a.instanceUID) a) = db.sessions.find a.instanceUID

/-- A batch that commits, or that fails at once with nothing to write. -/
def Harmless (fails : Agent → Bool) (db : Database) (batch : List Agent) : Prop :=
  (∀ a ∈ batch, Succeeds fails db a) ∨
    ((∃ a rest, batch = a :: rest ∧ ¬ Succeeds fails db a) ∧
      ∀ a ∈ batch, Succeeds fails db a → Unmoved db a)

/-- Tasks whose agents have distinct uids. -/
structure Divides (tasks : List (List Agent)) (agents : List Agent) : Prop where
  perm : tasks.flatten.Perm agents
  nodup : (tasks.flatten.map Agent.instanceUID).Nodup

theorem Divides.of_perm {tasks tasks' : List (List Agent)} {agents : List Agent}
    (hp : tasks.Perm tasks') (hflatten : tasks'.flatten = agents)
    (hnodup : (agents.map Agent.instanceUID).Nodup) : Divides tasks agents := by
  have hperm : tasks.flatten.Perm agents := hflatten ▸ hp.flatten
  exact ⟨hperm, (hperm.map Agent.instanceUID).nodup_iff.mpr hnodup⟩

/-- An agent belongs to one task only. -/
theorem Divides.task_unique {tasks : List (List Agent)} {agents : List Agent}
    (h : Divides tasks agents) {c c' : List Agent} (hc : c ∈ tasks) (hc' : c' ∈ tasks) {a : Agent}
    (ha : a ∈ c) (ha' : a ∈ c') : c = c' := by
  have hnodup : tasks.flatten.Nodup := List.Nodup.of_map _ h.nodup
  have hdisjoint := (List.nodup_flatten.mp hnodup).2
  by_contra hne
  have : Std.Symm (List.Disjoint : List Agent → List Agent → Prop) := ⟨fun _ _ hd => hd.symm⟩
  exact hdisjoint.forall hc hc' hne ha ha'

theorem session_writeTasks {tasks : List (List Agent)} {agents : List Agent}
    (h : Divides tasks agents) (fails : Agent → Bool) (p : Pass) {c : List Agent}
    (hc : c ∈ tasks) {a : Agent} (ha : a ∈ c) :
    (writeTasks fails p tasks).db.sessions.find a.instanceUID =
      if ∀ b ∈ c, Succeeds fails p.db b then
        some (upsertSessionRow (p.db.sessions.find a.instanceUID) a)
      else p.db.sessions.find a.instanceUID := by
  have hslot := Batch.slot_sendAll_self (sessions_independent fails) tasks h.nodup p.db c hc a ha
  have hok : ∀ b, (sessionStatement fails b p.db).isSome ↔ Succeeds fails p.db b :=
    fun b => isSome_sessionStatement fails b p.db
  rw [db_writeTasks, hslot]
  by_cases hall : ∀ b ∈ c, Succeeds fails p.db b
  · rw [if_pos hall, if_pos fun b hb => (hok b).mpr (hall b hb)]
  · rw [if_neg hall, if_neg fun h => hall fun b hb => (hok b).mp (h b hb)]

theorem session_writeTasks_other {tasks : List (List Agent)} {agents : List Agent}
    (h : Divides tasks agents) (fails : Agent → Bool) (p : Pass) (id : String)
    (hid : id ∉ agents.map Agent.instanceUID) :
    (writeTasks fails p tasks).db.sessions.find id = p.db.sessions.find id := by
  have hflat : id ∉ tasks.flatten.map Agent.instanceUID :=
    fun hmem => hid ((h.perm.map Agent.instanceUID).mem_iff.mp hmem)
  rw [db_writeTasks]
  exact Batch.slot_sendAll_other (sessions_independent fails) tasks p.db id hflat

theorem exists_task {tasks : List (List Agent)} {agents : List Agent} (h : Divides tasks agents)
    {a : Agent} (ha : a ∈ agents) : ∃ c ∈ tasks, a ∈ c :=
  List.mem_flatten.mp (h.perm.mem_iff.mpr ha)

/-- A pass in which every write succeeds writes and records each of its agents,
and touches no other. -/
theorem pass_of_all_succeed {tasks : List (List Agent)} {agents : List Agent}
    (h : Divides tasks agents) (fails : Agent → Bool) (p : Pass) (hfresh : p.recorded = [])
    (hok : ∀ a ∈ agents, Succeeds fails p.db a) (id : String) :
    (∃ a ∈ agents, a.instanceUID = id ∧
        (writeTasks fails p tasks).snapshotter.written.find id =
          some ⟨a.lastSeen, p.snapshotter.gen⟩ ∧
        (writeTasks fails p tasks).db.sessions.find id =
          some (upsertSessionRow (p.db.sessions.find id) a)) ∨
      ((∀ a ∈ agents, a.instanceUID ≠ id) ∧
        (writeTasks fails p tasks).snapshotter.written.find id =
          p.snapshotter.written.find id ∧
        (writeTasks fails p tasks).db.sessions.find id = p.db.sessions.find id) := by
  have htask : ∀ c ∈ tasks, ∀ b ∈ c, Succeeds fails p.db b := fun c hc b hb =>
    hok b (h.perm.mem_iff.mp (List.mem_flatten_of_mem hc hb))
  obtain ⟨acked, hrecorded, hsnapshotter⟩ := snapshotter_writeTasks fails p tasks
  have hacked : ∀ a, a ∈ acked ↔ a ∈ agents := by
    intro a
    have hmem := mem_recorded_writeTasks fails p tasks a
    rw [hrecorded, hfresh, List.nil_append] at hmem
    rw [hmem]
    constructor
    · intro h
      rcases h with hnil | ⟨c, hc, htake⟩
      · exact absurd hnil List.not_mem_nil
      · exact h.perm.mem_iff.mp (List.mem_flatten_of_mem hc (List.takeWhile_subset _ htake))
    · intro ha
      obtain ⟨c, hc, hac⟩ := exists_task h ha
      have htake : (c.takeWhile fun b => (sessionStatement fails b p.db).isSome) = c :=
        List.takeWhile_eq_self_iff.mpr fun b hb =>
          (isSome_sessionStatement fails b p.db).mpr (htask c hc b hb)
      exact Or.inr ⟨c, hc, htake.symm ▸ hac⟩
  rw [hsnapshotter]
  rcases find_foldl_recordWritten p.snapshotter acked id with ⟨a, ha, hid, hfind⟩ | ⟨hnone, hfind⟩
  · have hmem := (hacked a).mp ha
    obtain ⟨c, hc, hac⟩ := exists_task h hmem
    have hrow := session_writeTasks h fails p hc hac
    rw [if_pos (htask c hc), hid] at hrow
    exact Or.inl ⟨a, hmem, hid, hfind, hrow⟩
  · have hother : ∀ a ∈ agents, a.instanceUID ≠ id := fun a ha => hnone a ((hacked a).mpr ha)
    refine Or.inr ⟨hother, hfind, session_writeTasks_other h fails p id fun hmem => ?_⟩
    obtain ⟨a, ha, hid⟩ := List.mem_map.mp hmem
    exact hother a ha hid

/-- Batches and single writes leave the same session rows exactly when a batch
with a failure had nothing to write. -/
theorem sessions_eq_iff {batches singles : List (List Agent)} {agents : List Agent}
    (hb : Divides batches agents) (hs : Divides singles agents)
    (hsingle : ∀ a ∈ agents, [a] ∈ singles) (fails : Agent → Bool) (p : Pass) :
    (writeTasks fails p batches).db.sessions = (writeTasks fails p singles).db.sessions ↔
      ∀ c ∈ batches, (∀ a ∈ c, Succeeds fails p.db a) ∨
        ∀ a ∈ c, Succeeds fails p.db a → Unmoved p.db a := by
  have hone : ∀ c ∈ batches, ∀ a ∈ c, [a] ∈ singles := fun c hc a ha =>
    hsingle a (hb.perm.mem_iff.mp (List.mem_flatten_of_mem hc ha))
  constructor
  · intro heq c hc
    by_cases hall : ∀ b ∈ c, Succeeds fails p.db b
    · exact Or.inl hall
    · refine Or.inr fun a ha hok => ?_
      have hbatch := session_writeTasks hb fails p hc ha
      have halone := session_writeTasks hs fails p (hone c hc a ha) List.mem_cons_self
      have hok' : ∀ b ∈ [a], Succeeds fails p.db b := by
        simpa only [List.mem_singleton, forall_eq] using hok
      rw [if_neg hall] at hbatch
      rw [if_pos hok'] at halone
      rw [heq, halone] at hbatch
      exact hbatch
  · intro hharmless
    apply FinMap.ext
    intro id
    by_cases hid : id ∈ agents.map Agent.instanceUID
    · obtain ⟨a, ha, rfl⟩ := List.mem_map.mp hid
      obtain ⟨c, hc, hac⟩ := exists_task hb ha
      rw [session_writeTasks hb fails p hc hac,
        session_writeTasks hs fails p (hsingle a ha) List.mem_cons_self]
      simp only [List.mem_singleton, forall_eq]
      rcases hharmless c hc with hall | hunmoved
      · rw [if_pos hall, if_pos (hall a hac)]
      · by_cases hok : Succeeds fails p.db a
        · rw [if_pos hok, hunmoved a hac hok, ite_self]
        · rw [if_neg hok, if_neg fun hall => hok (hall a hac)]
    · rw [session_writeTasks_other hb fails p id hid, session_writeTasks_other hs fails p id hid]

/-- The records of a batched pass are truthful exactly when a batch with a
failure fails at its first statement. -/
theorem recorded_iff_committed_iff {batches : List (List Agent)} {agents : List Agent}
    (hb : Divides batches agents) (hne : ∀ c ∈ batches, c ≠ []) (fails : Agent → Bool) (p : Pass)
    (hfresh : p.recorded = [] ∧ p.committed = []) :
    (∀ a ∈ agents, a ∈ (writeTasks fails p batches).recorded ↔
        a ∈ (writeTasks fails p batches).committed) ↔
      ∀ c ∈ batches, (∀ a ∈ c, Succeeds fails p.db a) ∨
        ∃ a rest, c = a :: rest ∧ ¬ Succeeds fails p.db a := by
  have hok : ∀ a, (sessionStatement fails a p.db).isSome ↔ Succeeds fails p.db a :=
    fun a => isSome_sessionStatement fails a p.db
  simp only [mem_recorded_writeTasks, mem_committed_writeTasks, hfresh.1, hfresh.2,
    List.not_mem_nil, false_or, hok]
  constructor
  · intro htruth c hc
    obtain ⟨a, rest, rfl⟩ := List.exists_cons_of_ne_nil (hne c hc)
    by_cases ha : Succeeds fails p.db a
    · have hmem : a ∈ agents := hb.perm.mem_iff.mp (List.mem_flatten_of_mem hc List.mem_cons_self)
      have hrecorded : a ∈ (a :: rest).takeWhile fun b => (sessionStatement fails b p.db).isSome := by
        rw [List.takeWhile_cons, if_pos ((hok a).mpr ha)]
        exact List.mem_cons_self
      obtain ⟨c', hc', hac', hall⟩ := (htruth a hmem).mp ⟨_, hc, hrecorded⟩
      rw [hb.task_unique hc hc' List.mem_cons_self hac']
      exact Or.inl hall
    · exact Or.inr ⟨a, rest, rfl, ha⟩
  · intro hbatches a ha
    constructor
    · intro h
      obtain ⟨c, hc, hmem⟩ := h
      rcases hbatches c hc with hall | ⟨b, rest, rfl, hfail⟩
      · exact ⟨c, hc, List.takeWhile_subset _ hmem, hall⟩
      · rw [List.takeWhile_cons, if_neg fun h => hfail ((hok b).mp h)] at hmem
        simp at hmem
    · intro h
      obtain ⟨c, hc, hac, hall⟩ := h
      have htake : (c.takeWhile fun b => (sessionStatement fails b p.db).isSome) = c :=
        List.takeWhile_eq_self_iff.mpr fun b hbc => (hok b).mpr (hall b hbc)
      exact ⟨c, hc, htake.symm ▸ hac⟩

/-- Batches of 500 agree with one write for each agent, and record exactly the
agents whose write took effect, if and only if every batch is harmless. -/
theorem batched_pass_agrees_iff (fails : Agent → Bool) (db : Database) (s : Snapshotter)
    (agents : List Agent) (hnodup : (agents.map Agent.instanceUID).Nodup)
    (batches singles : List (List Agent))
    (hbatches : batches.Perm (chunk agents defaultBatchSize))
    (hsingles : singles.Perm (agents.map fun a => [a])) :
    ((writeTasks fails { db := db, snapshotter := s } batches).db.sessions =
        (writeTasks fails { db := db, snapshotter := s } singles).db.sessions ∧
      ∀ a ∈ agents,
        a ∈ (writeTasks fails { db := db, snapshotter := s } batches).recorded ↔
          a ∈ (writeTasks fails { db := db, snapshotter := s } batches).committed) ↔
      ∀ batch ∈ chunk agents defaultBatchSize, Harmless fails db batch := by
  have hb : Divides batches agents := Divides.of_perm hbatches (flatten_chunk _ _) hnodup
  have hs : Divides singles agents :=
    Divides.of_perm hsingles (List.flatMap_singleton' agents) hnodup
  have hsingle : ∀ a ∈ agents, [a] ∈ singles := fun a ha =>
    hsingles.mem_iff.mpr (List.mem_map.mpr ⟨a, ha, rfl⟩)
  have hne : ∀ c ∈ batches, c ≠ [] := fun c hc =>
    chunk_ne_nil agents defaultBatchSize c (hbatches.mem_iff.mp hc)
  rw [sessions_eq_iff hb hs hsingle, recorded_iff_committed_iff hb hne fails _ ⟨rfl, rfl⟩]
  simp only [← hbatches.mem_iff]
  constructor
  · intro h c hc
    obtain ⟨hrows, hrecords⟩ := h
    rcases hrows c hc with hall | hunmoved
    · exact Or.inl hall
    · rcases hrecords c hc with hall | hfirst
      · exact Or.inl hall
      · exact Or.inr ⟨hfirst, hunmoved⟩
  · intro hharmless
    refine ⟨fun c hc => ?_, fun c hc => ?_⟩
    · rcases hharmless c hc with hall | ⟨_, hunmoved⟩
      · exact Or.inl hall
      · exact Or.inr hunmoved
    · rcases hharmless c hc with hall | ⟨hfirst, _⟩
      · exact Or.inl hall
      · exact Or.inr hfirst

/-- A database in which only agent `a` has rows. -/
def onlyA : Database := saveAgent Database.empty { instanceUID := "a", lastSeen := 1000 }

/-- Agent `a` reported again, and agent `b` has not been saved yet: the batch is
undone by `b`'s foreign key, and `a` is recorded although its row did not move. -/
theorem batch_undone_yet_recorded :
    let newer : Agent := { instanceUID := "a", lastSeen := 2000 }
    let unsaved : Agent := { instanceUID := "b", lastSeen := 2000 }
    let start : Pass := { db := onlyA, snapshotter := {} }
    let batched := writeTasks (fun _ => false) start (chunk [newer, unsaved] defaultBatchSize)
    let single := writeTasks (fun _ => false) start [[newer], [unsaved]]
    newer ∈ batched.recorded ∧ newer ∉ batched.committed ∧
      batched.db.sessions.find "a" = onlyA.sessions.find "a" ∧
      single.db.sessions.find "a" = some (sessionRow newer) ∧
      batched.db.sessions ≠ single.db.sessions := by
  decide +kernel

def bothSaved : Database := saveAgent onlyA { instanceUID := "b", lastSeen := 1000 }

/-- A batch of agents that all have rows commits, and the two ways agree. -/
theorem batched_pass_agrees_saved :
    let first : Agent := { instanceUID := "a", lastSeen := 2000 }
    let second : Agent := { instanceUID := "b", lastSeen := 3000 }
    let start : Pass := { db := bothSaved, snapshotter := {} }
    let batched := writeTasks (fun _ => false) start (chunk [first, second] defaultBatchSize)
    batched.db.sessions = (writeTasks (fun _ => false) start [[second], [first]]).db.sessions ∧
      (∀ a ∈ [first, second], a ∈ batched.recorded ↔ a ∈ batched.committed) ∧
      batched.db.sessions.find "b" = some (sessionRow second) := by
  intro first second start batched
  have hagree := (batched_pass_agrees_iff (fun _ => false) bothSaved {} [first, second] (by decide)
    _ [[second], [first]] (List.Perm.refl _) (List.Perm.swap _ _ _)).mpr fun batch hbatch => by
      have hone : batch = [first, second] := List.mem_singleton.mp hbatch
      left
      rw [hone]
      decide +kernel
  exact ⟨hagree.1, hagree.2, by decide +kernel⟩

end Grex.SessionBatches
