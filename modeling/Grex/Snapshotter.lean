import Grex.Batch
import Grex.Tables

/-!
The session snapshotter: which agents' session rows are due at a tick, and how
they are written. Due agents are divided into tasks, each one transaction: one
batch for every 500 agents, or one statement for each agent when the store
cannot batch. Whatever a task's results acknowledge is recorded as written.
-/

namespace Grex.Snapshotter

open GoTime AgentState Tables

/-- How many statements share one batch. -/
def defaultBatchSize : ℕ := 500

/-- The loop of `chunk`, for a positive size. -/
def chunkLoop {α : Type*} (size : ℕ) : ℕ → List α → List (List α)
  | 0, _ => []
  | _ + 1, [] => []
  | fuel + 1, a :: as => (a :: as).take size :: chunkLoop size fuel ((a :: as).drop size)

/-- Groups of at most `size` in order; a size of zero means one. -/
def chunk {α : Type*} (ids : List α) (size : ℕ) : List (List α) :=
  chunkLoop (max size 1) ids.length ids

theorem flatten_chunkLoop {α : Type*} (size : ℕ) (hsize : 0 < size) (fuel : ℕ) (as : List α)
    (hfuel : as.length ≤ fuel) : (chunkLoop size fuel as).flatten = as := by
  induction fuel generalizing as with
  | zero =>
    obtain rfl : as = [] := List.eq_nil_of_length_eq_zero (by omega)
    rfl
  | succ fuel ih =>
    cases as with
    | nil => rfl
    | cons a as =>
      have hdrop : ((a :: as).drop size).length ≤ fuel := by
        simp only [List.length_drop, List.length_cons] at hfuel ⊢
        omega
      rw [chunkLoop, List.flatten_cons, ih _ hdrop, List.take_append_drop]

/-- Chunking loses nothing and keeps the order. -/
theorem flatten_chunk {α : Type*} (ids : List α) (size : ℕ) : (chunk ids size).flatten = ids :=
  flatten_chunkLoop _ (by omega) _ ids (le_refl _)

theorem chunkLoop_ne_nil {α : Type*} (size : ℕ) (hsize : 0 < size) (fuel : ℕ) (as : List α)
    (c : List α) (hc : c ∈ chunkLoop size fuel as) : c ≠ [] := by
  induction fuel generalizing as with
  | zero => simp [chunkLoop] at hc
  | succ fuel ih =>
    cases as with
    | nil => simp [chunkLoop] at hc
    | cons a as =>
      rcases List.mem_cons.mp hc with rfl | htail
      · simp only [ne_eq, List.take_eq_nil_iff, not_or]
        exact ⟨by omega, by simp⟩
      · exact ih _ htail

theorem chunk_ne_nil {α : Type*} (ids : List α) (size : ℕ) (c : List α)
    (hc : c ∈ chunk ids size) : c ≠ [] :=
  chunkLoop_ne_nil _ (by omega) _ ids c hc

/-- What was last written for one agent, and the pass that last saw it. -/
structure SessionWrite where
  lastSeen : ℤ
  gen : UInt64
  deriving DecidableEq

end Snapshotter

/-- The bookkeeping a snapshotter keeps between passes. -/
structure Snapshotter where
  written : FinMap String Snapshotter.SessionWrite := ∅
  gen : UInt64 := 0

namespace Snapshotter

open GoTime AgentState Tables

/-- Two thirds of the threshold, at most the threshold less one tick, and
never negative; the products and differences wrap. -/
def keepaliveInterval (disconnectAfter tick : ℤ) : ℤ :=
  max 0 (min ((int64 (disconnectAfter * 2)).tdiv 3) (int64 (disconnectAfter - tick)))

/-- One round of the loop in `due`. -/
def dueStep (gen : UInt64) (keepalive now : ℤ) (acc : FinMap String SessionWrite × List Agent)
    (a : Agent) : FinMap String SessionWrite × List Agent :=
  match acc.1.find a.instanceUID with
  | none => (acc.1, acc.2 ++ [a])
  | some w =>
      (acc.1.insert a.instanceUID { w with gen := gen },
        if sub now w.lastSeen < keepalive then acc.2 else acc.2 ++ [a])

/-- The agents to write at this tick; agents the pass did not see are
forgotten. -/
def due (s : Snapshotter) (keepalive now : ℤ) (agents : List Agent) :
    Snapshotter × List Agent :=
  let gen := s.gen + 1
  let (written, list) := agents.foldl (dueStep gen keepalive now) (s.written, [])
  ({ written := written.filterMap fun _ w => if w.gen = gen then some w else none, gen := gen },
    list)

def recordWritten (s : Snapshotter) (a : Agent) : Snapshotter :=
  { s with written := s.written.insert a.instanceUID ⟨a.lastSeen, s.gen⟩ }

/-- Whether one agent is due. -/
def isDue (s : Snapshotter) (keepalive now : ℤ) (a : Agent) : Bool :=
  match s.written.find a.instanceUID with
  | none => true
  | some w => !decide (sub now w.lastSeen < keepalive)

/-- A round of the loop only moves generations. -/
theorem lastSeen_dueStep (gen : UInt64) (keepalive now : ℤ)
    (acc : FinMap String SessionWrite × List Agent) (a : Agent) (id : String) :
    ((dueStep gen keepalive now acc a).1.find id).map SessionWrite.lastSeen =
      (acc.1.find id).map SessionWrite.lastSeen := by
  unfold dueStep
  split
  · rfl
  · rename_i w hw
    rw [FinMap.find_set]
    split
    · rename_i heq
      rw [heq, hw]
      rfl
    · rfl

theorem isDue_congr (s : Snapshotter) (written : FinMap String SessionWrite) (keepalive now : ℤ)
    (a : Agent) (h : ∀ id, (written.find id).map SessionWrite.lastSeen =
      (s.written.find id).map SessionWrite.lastSeen) :
    isDue { s with written := written } keepalive now a = isDue s keepalive now a := by
  have hid := h a.instanceUID
  unfold isDue
  cases hw : written.find a.instanceUID with
  | none =>
    rw [hw] at hid
    cases hs : s.written.find a.instanceUID with
    | none => rfl
    | some w => simp [hs] at hid
  | some w =>
    rw [hw] at hid
    cases hs : s.written.find a.instanceUID with
    | none => simp [hs] at hid
    | some v =>
      rw [hs] at hid
      have hlast : w.lastSeen = v.lastSeen := Option.some.inj hid
      simp [hlast]

theorem foldl_dueStep_due (s : Snapshotter) (gen : UInt64) (keepalive now : ℤ) (agents : List Agent)
    (acc : FinMap String SessionWrite × List Agent)
    (h : ∀ id, (acc.1.find id).map SessionWrite.lastSeen =
      (s.written.find id).map SessionWrite.lastSeen) :
    (agents.foldl (dueStep gen keepalive now) acc).2 =
      acc.2 ++ agents.filter (isDue s keepalive now) := by
  induction agents generalizing acc with
  | nil => simp
  | cons a agents ih =>
    have hstep : (dueStep gen keepalive now acc a).2 =
        acc.2 ++ if isDue s keepalive now a then [a] else [] := by
      have hsame := isDue_congr s acc.1 keepalive now a h
      rw [← hsame]
      unfold dueStep isDue
      cases hfind : acc.1.find a.instanceUID with
      | none => rfl
      | some w => by_cases hold : sub now w.lastSeen < keepalive <;> simp [hold]
    have hnext : ∀ id, ((dueStep gen keepalive now acc a).1.find id).map SessionWrite.lastSeen =
        (s.written.find id).map SessionWrite.lastSeen :=
      fun id => (lastSeen_dueStep gen keepalive now acc a id).trans (h id)
    rw [List.foldl_cons, ih _ hnext, hstep, List.filter_cons, List.append_assoc]
    split <;> simp

/-- The loop selects the agents that are due, in listing order. -/
theorem due_eq_filter (s : Snapshotter) (keepalive now : ℤ) (agents : List Agent) :
    (s.due keepalive now agents).2 = agents.filter (s.isDue keepalive now) :=
  foldl_dueStep_due s (s.gen + 1) keepalive now agents (s.written, []) fun _ => rfl

theorem find_foldl_dueStep (gen : UInt64) (keepalive now : ℤ) (agents : List Agent)
    (acc : FinMap String SessionWrite × List Agent) (id : String) :
    (agents.foldl (dueStep gen keepalive now) acc).1.find id =
      if id ∈ agents.map Agent.instanceUID then
        (acc.1.find id).map fun w => { w with gen := gen }
      else acc.1.find id := by
  induction agents generalizing acc with
  | nil => rfl
  | cons a agents ih =>
    rw [List.foldl_cons, ih]
    have hround : (dueStep gen keepalive now acc a).1.find id =
        if id = a.instanceUID then (acc.1.find id).map fun w => { w with gen := gen }
        else acc.1.find id := by
      unfold dueStep
      cases hw : acc.1.find a.instanceUID with
      | none =>
        by_cases hid : id = a.instanceUID
        · simp [hid, hw]
        · simp [hid]
      | some w =>
        simp only [FinMap.find_set]
        by_cases hid : id = a.instanceUID
        · simp [hid, hw]
        · simp [hid]
    rw [hround]
    by_cases hid : id = a.instanceUID
    · cases acc.1.find id <;> simp [hid]
    · simp [hid]

/-- What a pass leaves of the bookkeeping: the entries of listed agents, now of
its own generation. -/
theorem find_due (s : Snapshotter) (keepalive now : ℤ) (agents : List Agent) (id : String) :
    (s.due keepalive now agents).1.written.find id =
      if id ∈ agents.map Agent.instanceUID then
        (s.written.find id).map fun w => { w with gen := s.gen + 1 }
      else (s.written.find id).filter fun w => decide (w.gen = s.gen + 1) := by
  have hloop := find_foldl_dueStep (s.gen + 1) keepalive now agents (s.written, []) id
  simp only [due, FinMap.find_filterMap, hloop]
  by_cases hid : id ∈ agents.map Agent.instanceUID
  · rw [if_pos hid, if_pos hid]
    cases s.written.find id <;> simp
  · rw [if_neg hid, if_neg hid]
    cases s.written.find id <;> simp [Option.filter]

/-! ### Writing the due rows -/

/-- `saveSessionSQL` in a pass where the chosen agents' statements fail. -/
def sessionStatement (fails : Agent → Bool) (a : Agent) (db : Database) : Option Database :=
  if fails a then none else saveSession db a

/-- A pass under way: `recorded` lists the calls of `recordWritten` and
`committed` the agents whose statement belongs to a committed transaction. -/
structure Pass where
  db : Database
  snapshotter : Snapshotter
  recorded : List Agent := []
  committed : List Agent := []

def writeTask (fails : Agent → Bool) (p : Pass) (task : List Agent) : Pass :=
  let acked := Batch.acknowledged (sessionStatement fails) task p.db
  { db := Batch.send (sessionStatement fails) task p.db
    snapshotter := acked.foldl recordWritten p.snapshotter
    recorded := p.recorded ++ acked
    committed :=
      if (Batch.runAll (sessionStatement fails) task p.db).isSome then p.committed ++ task
      else p.committed }

/-- The writing half of `snapshotOnce`, its tasks in the order they reach the
store. -/
def writeTasks (fails : Agent → Bool) (p : Pass) (tasks : List (List Agent)) : Pass :=
  tasks.foldl (writeTask fails) p

/-- Recording a list of agents sets the entries of exactly those. -/
theorem find_foldl_recordWritten (s : Snapshotter) (as : List Agent) (id : String) :
    (∃ a ∈ as, a.instanceUID = id ∧
        (as.foldl recordWritten s).written.find id = some ⟨a.lastSeen, s.gen⟩) ∨
      ((∀ a ∈ as, a.instanceUID ≠ id) ∧
        (as.foldl recordWritten s).written.find id = s.written.find id) := by
  induction as generalizing s with
  | nil => exact Or.inr ⟨by simp, rfl⟩
  | cons b as ih =>
    rcases ih (recordWritten s b) with ⟨a, ha, hid, hfind⟩ | ⟨hnone, hfind⟩
    · exact Or.inl ⟨a, List.mem_cons_of_mem b ha, hid, hfind⟩
    · by_cases hb : b.instanceUID = id
      · refine Or.inl ⟨b, List.mem_cons_self, hb, hfind.trans ?_⟩
        rw [← hb]
        exact FinMap.find_set_self _ _ _
      · refine Or.inr ⟨fun a ha => ?_, hfind.trans (FinMap.find_set_of_ne _ _ (Ne.symm hb))⟩
        rcases List.mem_cons.mp ha with rfl | ha
        · exact hb
        · exact hnone a ha

theorem sessionStatement_eq_some {fails : Agent → Bool} {a : Agent} {db db' : Database}
    (h : sessionStatement fails a db = some db') :
    fails a = false ∧ saveSession db a = some db' := by
  unfold sessionStatement at h
  cases hfails : fails a with
  | true => simp [hfails] at h
  | false => exact ⟨rfl, by simpa [hfails] using h⟩

theorem isSome_sessionStatement (fails : Agent → Bool) (a : Agent) (db : Database) :
    (sessionStatement fails a db).isSome ↔ fails a = false ∧ a.instanceUID ∈ db.agents.keys := by
  unfold sessionStatement
  cases fails a with
  | true => simp
  | false => simp [saveSession_isSome]

theorem sessions_independent (fails : Agent → Bool) :
    Batch.Independent (sessionStatement fails) Agent.instanceUID
      (fun db id => db.sessions.find id) (fun a old => some (upsertSessionRow old a)) where
  slot_self a db db' h := by
    obtain ⟨_, hsessions, _⟩ := saveSession_eq_some (sessionStatement_eq_some h).2
    rw [hsessions, FinMap.find_set_self]
  slot_other a db db' id h hne := by
    obtain ⟨_, hsessions, _⟩ := saveSession_eq_some (sessionStatement_eq_some h).2
    rw [hsessions, FinMap.find_set_of_ne _ _ hne]
  isSome_stmt a b db db' h := by
    obtain ⟨hagents, _⟩ := saveSession_eq_some (sessionStatement_eq_some h).2
    rw [Bool.eq_iff_iff, isSome_sessionStatement, isSome_sessionStatement, hagents]

theorem db_writeTasks (fails : Agent → Bool) (p : Pass) (tasks : List (List Agent)) :
    (writeTasks fails p tasks).db = Batch.sendAll (sessionStatement fails) tasks p.db := by
  induction tasks generalizing p with
  | nil => rfl
  | cons task tasks ih => exact ih (writeTask fails p task)

/-- Session writes leave the other tables alone and delete no session row. -/
theorem tables_writeTask (fails : Agent → Bool) (p : Pass) (task : List Agent) :
    (writeTask fails p task).db.agents = p.db.agents ∧
      (writeTask fails p task).db.configs = p.db.configs ∧
      p.db.sessions.keys ⊆ (writeTask fails p task).db.sessions.keys := by
  have hstmt : ∀ a db db', sessionStatement fails a db = some db' →
      (db.agents = p.db.agents ∧ db.configs = p.db.configs ∧
        p.db.sessions.keys ⊆ db.sessions.keys) →
      db'.agents = p.db.agents ∧ db'.configs = p.db.configs ∧
        p.db.sessions.keys ⊆ db'.sessions.keys := by
    intro a db db' h hdb
    obtain ⟨hagents, hsessions, hconfigs, _⟩ := saveSession_eq_some (sessionStatement_eq_some h).2
    refine ⟨hagents.trans hdb.1, hconfigs.trans hdb.2.1, fun id hid => ?_⟩
    have hold := hdb.2.2 hid
    rw [hsessions, FinMap.mem_keys, FinMap.find_set]
    split
    · rfl
    · exact (db.sessions.mem_keys id).mp hold
  exact Batch.send_invariant _ task (fun a _ => hstmt a) p.db ⟨rfl, rfl, Finset.Subset.refl _⟩

theorem agents_writeTasks (fails : Agent → Bool) (p : Pass) (tasks : List (List Agent)) :
    (writeTasks fails p tasks).db.agents = p.db.agents := by
  induction tasks generalizing p with
  | nil => rfl
  | cons task tasks ih => exact (ih (writeTask fails p task)).trans (tables_writeTask fails p task).1

/-- The event time of a session row never moves back. -/
theorem session_writeTask_mono (fails : Agent → Bool) (p : Pass) (task : List Agent) (id : String)
    (session : SessionRow) (hsession : p.db.sessions.find id = some session) :
    ∃ session', (writeTask fails p task).db.sessions.find id = some session' ∧
      session.updatedAt ≤ session'.updatedAt := by
  have hstmt : ∀ a ∈ task, ∀ db db', sessionStatement fails a db = some db' →
      (∃ row, db.sessions.find id = some row ∧ session.updatedAt ≤ row.updatedAt) →
      ∃ row, db'.sessions.find id = some row ∧ session.updatedAt ≤ row.updatedAt := by
    intro a _ db db' h hdb
    obtain ⟨row, hrow, hle⟩ := hdb
    obtain ⟨_, hsessions, _⟩ := saveSession_eq_some (sessionStatement_eq_some h).2
    obtain ⟨row', hrow', hmono⟩ := exists_session_upsert hrow a
    exact ⟨row', by rwa [hsessions], hle.trans hmono⟩
  exact Batch.send_invariant _ task hstmt p.db ⟨session, hsession, le_refl _⟩

/-- The bookkeeping moves by exactly the recorded agents. -/
theorem snapshotter_writeTasks (fails : Agent → Bool) (p : Pass) (tasks : List (List Agent)) :
    ∃ acked, (writeTasks fails p tasks).recorded = p.recorded ++ acked ∧
      (writeTasks fails p tasks).snapshotter = acked.foldl recordWritten p.snapshotter := by
  induction tasks generalizing p with
  | nil => exact ⟨[], by simp [writeTasks], rfl⟩
  | cons task tasks ih =>
    obtain ⟨acked, hrecorded, hsnapshotter⟩ := ih (writeTask fails p task)
    refine ⟨Batch.acknowledged (sessionStatement fails) task p.db ++ acked, ?_, ?_⟩
    · change (writeTasks fails (writeTask fails p task) tasks).recorded = _
      rw [hrecorded, ← List.append_assoc]
      rfl
    · change (writeTasks fails (writeTask fails p task) tasks).snapshotter = _
      rw [hsnapshotter, List.foldl_append]
      rfl

theorem isSome_sessionStatement_writeTask (fails : Agent → Bool) (p : Pass) (task : List Agent)
    (a : Agent) :
    (sessionStatement fails a (writeTask fails p task).db).isSome =
      (sessionStatement fails a p.db).isSome :=
  Batch.isSome_send (sessions_independent fails) task p.db a

/-- Recorded are the agents before the first failing statement of their task. -/
theorem mem_recorded_writeTasks (fails : Agent → Bool) (p : Pass) (tasks : List (List Agent))
    (a : Agent) :
    a ∈ (writeTasks fails p tasks).recorded ↔ a ∈ p.recorded ∨
      ∃ task ∈ tasks, a ∈ task.takeWhile fun b => (sessionStatement fails b p.db).isSome := by
  induction tasks generalizing p with
  | nil => simp [writeTasks]
  | cons task tasks ih =>
    have htail := ih (writeTask fails p task)
    simp only [isSome_sessionStatement_writeTask] at htail
    change a ∈ (writeTasks fails (writeTask fails p task) tasks).recorded ↔ _
    rw [htail]
    simp only [writeTask, List.mem_append, List.mem_cons, exists_eq_or_imp,
      Batch.acknowledged_eq_takeWhile (sessions_independent fails), or_assoc]

/-- Committed are the agents of the tasks in which no statement fails. -/
theorem mem_committed_writeTasks (fails : Agent → Bool) (p : Pass) (tasks : List (List Agent))
    (a : Agent) :
    a ∈ (writeTasks fails p tasks).committed ↔ a ∈ p.committed ∨
      ∃ task ∈ tasks, a ∈ task ∧ ∀ b ∈ task, (sessionStatement fails b p.db).isSome := by
  induction tasks generalizing p with
  | nil => simp [writeTasks]
  | cons task tasks ih =>
    have htail := ih (writeTask fails p task)
    simp only [isSome_sessionStatement_writeTask] at htail
    change a ∈ (writeTasks fails (writeTask fails p task) tasks).committed ↔ _
    rw [htail]
    have hcommits := Batch.isSome_runAll (sessions_independent fails) task p.db
    by_cases hrun : (Batch.runAll (sessionStatement fails) task p.db).isSome
    · have hall := hcommits.mp hrun
      simp only [writeTask, hrun, if_true, List.mem_append, List.mem_cons, exists_eq_or_imp,
        or_assoc]
      exact or_congr_right (or_congr_left ⟨fun h => ⟨h, hall⟩, fun h => h.1⟩)
    · have hnot : ¬ ∀ b ∈ task, (sessionStatement fails b p.db).isSome :=
        fun hall => hrun (hcommits.mpr hall)
      simp only [writeTask, hrun, List.mem_cons, exists_eq_or_imp, hnot, and_false, false_or]
      rfl

end Snapshotter

end Grex
