import Grex.Machine
import Grex.Registry
import Grex.Snapshotter

/-!
A session snapshotter over all its passes, on the path that writes one agent at
a time. A pass lists the registry shard by shard, asks for the due agents, and
has their writes end in any order, each on its own; the registry goes on
changing in between, agents being registered and evicted. The history of the
passes and of the writes accounts for what the snapshotter remembers, for whom
a pass skips, and for who is written again after a write that failed.
-/

namespace Grex.SnapshotPasses

open GoTime AgentState Message Machine Snapshotter

/-- Where a pass is: it has listed the shards below `shard`, or is writing. -/
inductive Phase
  | idle
  | listing (shard : ℕ) (agents : List Agent)
  | writing (todo : List Agent)

/-- One snapshotter beside its registry. `clock` is when the latest pass asked
for its due agents. -/
structure Passes where
  registry : Registry
  snapshotter : Snapshotter := {}
  keepalive : ℤ
  clock : ℤ
  phase : Phase := .idle

inductive Act
  | registry (op : Registry.Op)
  | sweepShard (shard : ℕ) (now : ℤ) (order : List String)
  | begin
  | list (order : List String)
  | due (now : ℤ)
  | save (a : Agent) (succeeds : Bool)
  | finish

namespace Passes

/-- `due` for a listing: what is due is to be written. -/
def ask (s : Passes) (now : ℤ) (agents : List Agent) : Passes :=
  let (snapshotter, due) := s.snapshotter.due s.keepalive now agents
  { s with snapshotter := snapshotter, clock := now, phase := .writing due }

/-- A sweep may be atomic, or have its shards spread over the run. The writes
of a pass have all ended before the next one begins. -/
def step (s : Passes) : Act → Option Passes
  | .registry op => (s.registry.step op).map fun q => { s with registry := q.1 }
  | .sweepShard shard now order =>
      if shard < s.registry.count ∧ FinMap.Enumerates order (s.registry.shards shard).keys then
        some { s with registry := (s.registry.sweepShard now order).1 }
      else none
  | .begin =>
      match s.phase with
      | .idle => some { s with phase := .listing 0 [] }
      | _ => none
  | .list order =>
      match s.phase with
      | .listing shard agents =>
          if shard < s.registry.count ∧ FinMap.Enumerates order (s.registry.shards shard).keys then
            some { s with
              phase := .listing (shard + 1) (agents ++ order.filterMap s.registry.get) }
          else none
      | _ => none
  | .due now =>
      match s.phase with
      | .listing shard agents =>
          if shard = s.registry.count ∧ s.clock ≤ now then some (s.ask now agents) else none
      | _ => none
  | .save a succeeds =>
      match s.phase with
      | .writing todo =>
          if a ∈ todo then
            some { s with
              snapshotter := if succeeds then s.snapshotter.recordWritten a else s.snapshotter
              phase := .writing (todo.erase a) }
          else none
      | _ => none
  | .finish =>
      match s.phase with
      | .writing [] => some { s with phase := .idle }
      | _ => none

/-- `NewSessionSnapshotter` over a registry. -/
def start (registry : Registry) (interval clock : ℤ) : Passes where
  registry := registry
  keepalive := keepaliveInterval registry.cfg.disconnectThreshold interval
  clock := clock

/-- The agents whose writes have not ended. -/
def todo (s : Passes) : List Agent :=
  match s.phase with
  | .writing todo => todo
  | _ => []

end Passes

/-- What a snapshotter's history consists of. -/
inductive Event
  | pass (now : ℤ) (agents due : List Agent)
  | saved (a : Agent)
  | failed (a : Agent)
  deriving DecidableEq

/-- The history, newest first. -/
def watch (history : List Event) (s : Passes) (a : Act) (t : Passes) : List Event :=
  match a, s.phase with
  | .due now, .listing _ agents => .pass now agents t.todo :: history
  | .save a succeeds, _ => (if succeeds then .saved a else .failed a) :: history
  | _, _ => history

def passes : Passes × List Event → Act → Option (Passes × List Event) :=
  observed Passes.step watch

namespace Event

/-- A successful write of the agent. -/
def Saves (id : String) (e : Event) : Prop :=
  ∃ a, e = .saved a ∧ a.instanceUID = id

def Fails (id : String) (e : Event) : Prop :=
  ∃ a, e = .failed a ∧ a.instanceUID = id

/-- A pass whose listing has the agent. -/
def Sees (id : String) (e : Event) : Prop :=
  ∃ now agents due, e = .pass now agents due ∧ id ∈ agents.map Agent.instanceUID

/-- A pass whose listing does not have the agent. -/
def Misses (id : String) (e : Event) : Prop :=
  ∃ now agents due, e = .pass now agents due ∧ id ∉ agents.map Agent.instanceUID

end Event

open Event

/-- The latest successful write of the agent carried the given `LastSeen`, and
every pass since has seen the agent. -/
def Credited (id : String) (lastSeen : ℤ) (history : List Event) : Prop :=
  Since (fun e => ∃ a, e = .saved a ∧ a.instanceUID = id ∧ a.lastSeen = lastSeen)
    (fun e => ¬ e.Saves id ∧ ¬ e.Misses id) history

/-- A write of the agent failed, and no pass since has seen the agent. -/
def Owed (id : String) (history : List Event) : Prop :=
  Since (Fails id) (fun e => ¬ e.Sees id) history

/-! ### What the history says about the bookkeeping -/

/-- No write on record keeps the agent from being due. -/
def Overdue (s : Passes) (id : String) : Prop :=
  ∀ w, s.snapshotter.written.find id = some w → s.keepalive ≤ sub s.clock w.lastSeen

structure Honest (s : Passes) (history : List Event) : Prop where
  keepalive_le : s.keepalive ≤ maxDuration
  listed : ∀ shard agents, s.phase = .listing shard agents → s.registry.ListedBelow shard agents
  nodup : (s.todo.map Agent.instanceUID).Nodup
  current : ∀ id w, s.snapshotter.written.find id = some w → w.gen = s.snapshotter.gen
  credited : ∀ id w, s.snapshotter.written.find id = some w → Credited id w.lastSeen history
  todo_overdue : ∀ a ∈ s.todo, Overdue s a.instanceUID
  owed : ∀ id, Owed id history → Overdue s id ∧ id ∉ s.todo.map Agent.instanceUID

theorem honest_start (registry : Registry) (interval clock : ℤ) :
    Honest (Passes.start registry interval clock) [] where
  keepalive_le := by
    have hlimit := (int64_bounds (registry.cfg.disconnectThreshold - interval)).2
    simp only [Passes.start, keepaliveInterval]
    unfold maxDuration at hlimit ⊢
    omega
  listed shard agents h := by cases h
  nodup := List.nodup_nil
  current id w h := by cases h
  credited id w h := by cases h
  todo_overdue a ha := absurd ha List.not_mem_nil
  owed id h := absurd h not_since_nil

/-- The bookkeeping does not look at the registry between two passes. -/
theorem honest_registry {s : Passes} {history : List Event} (h : Honest s history)
    {registry : Registry} (hcount : registry.count = s.registry.count) :
    Honest { s with registry := registry } history :=
  ⟨h.keepalive_le, fun shard agents hphase => (h.listed shard agents hphase).of_count hcount,
    h.nodup, h.current, h.credited, h.todo_overdue, h.owed⟩

/-- Nor at the phase, as long as no writes are left over. -/
theorem honest_phase {s : Passes} {history : List Event} (h : Honest s history) {phase : Phase}
    (htodo : { s with phase := phase }.todo = [])
    (hlisted : ∀ shard agents, phase = .listing shard agents →
      s.registry.ListedBelow shard agents) :
    Honest { s with phase := phase } history where
  keepalive_le := h.keepalive_le
  listed := hlisted
  nodup := by
    rw [htodo]
    exact List.nodup_nil
  current := h.current
  credited := h.credited
  todo_overdue a ha := by
    rw [htodo] at ha
    exact absurd ha List.not_mem_nil
  owed id howed := by
    rw [htodo]
    exact ⟨(h.owed id howed).1, List.not_mem_nil⟩

theorem credited_cons {id : String} {lastSeen : ℤ} {e : Event} {history : List Event}
    (hsaves : ¬ e.Saves id) (hmisses : ¬ e.Misses id) (h : Credited id lastSeen history) :
    Credited id lastSeen (e :: history) :=
  since_cons.mpr (Or.inr ⟨⟨hsaves, hmisses⟩, h⟩)

section Due

variable {s : Passes} {history : List Event} {shard : ℕ} {agents : List Agent} {now : ℤ}

/-- An entry that survives a pass is one of before, of an agent the pass saw. -/
theorem find_due_eq_some (h : Honest s history) {id : String} {w : SessionWrite}
    (hw : (s.snapshotter.due s.keepalive now agents).1.written.find id = some w) :
    id ∈ agents.map Agent.instanceUID ∧ w.gen = s.snapshotter.gen + 1 ∧
      ∃ old, s.snapshotter.written.find id = some old ∧ old.lastSeen = w.lastSeen := by
  rw [find_due] at hw
  by_cases hid : id ∈ agents.map Agent.instanceUID
  · rw [if_pos hid, Option.map_eq_some_iff] at hw
    obtain ⟨old, hold, rfl⟩ := hw
    exact ⟨hid, rfl, old, hold, rfl⟩
  · -- an entry the pass did not see still has the generation of the pass before
    rw [if_neg hid, Option.filter_eq_some_iff] at hw
    have hnext := of_decide_eq_true hw.2
    rw [h.current id w hw.1] at hnext
    simp at hnext

theorem isDue_iff {a : Agent} :
    s.snapshotter.isDue s.keepalive now a = true ↔
      ∀ w, s.snapshotter.written.find a.instanceUID = some w →
        s.keepalive ≤ sub now w.lastSeen := by
  unfold isDue
  cases s.snapshotter.written.find a.instanceUID with
  | none => simp
  | some w => simp

theorem todo_ask : (s.ask now agents).todo =
    agents.filter (s.snapshotter.isDue s.keepalive now) :=
  due_eq_filter s.snapshotter s.keepalive now agents

theorem mem_todo_ask {a : Agent} : a ∈ (s.ask now agents).todo ↔
    a ∈ agents ∧ s.snapshotter.isDue s.keepalive now a = true := by
  rw [todo_ask, List.mem_filter]

theorem sub_mono {t t' : ℤ} (h : t ≤ t') (u : ℤ) : sub t u ≤ sub t' u := by
  unfold sub
  omega

/-- Who is overdue stays so when the clock moves on. -/
theorem isDue_of_overdue {a : Agent} (h : Overdue s a.instanceUID) (hclock : s.clock ≤ now) :
    s.snapshotter.isDue s.keepalive now a = true :=
  isDue_iff.mpr fun w hw => (h w hw).trans (sub_mono hclock w.lastSeen)

/-- A pass asks for its due agents once it has listed every shard. -/
theorem step_due_eq_some {t : Passes} (h : s.step (.due now) = some t) :
    ∃ shard agents, s.phase = .listing shard agents ∧ s.clock ≤ now ∧ t = s.ask now agents := by
  cases hphase : s.phase with
  | listing shard agents =>
    simp only [Passes.step, hphase, Option.ite_none_right_eq_some, Option.some.injEq] at h
    exact ⟨shard, agents, rfl, h.1.2, h.2.symm⟩
  | _ => simp [Passes.step, hphase] at h

theorem honest_due (h : Honest s history) (hphase : s.phase = .listing shard agents) :
    Honest (s.ask now agents) (.pass now agents (s.ask now agents).todo :: history) where
  keepalive_le := h.keepalive_le
  listed shard agents hphase := by cases hphase
  nodup := by
    rw [todo_ask]
    exact (h.listed shard agents hphase).nodup.sublist (List.filter_sublist.map _)
  current id w hw := (find_due_eq_some h hw).2.1
  credited id w hw := by
    obtain ⟨hid, -, old, hold, hlast⟩ := find_due_eq_some h hw
    refine credited_cons ?_ ?_ (hlast ▸ h.credited id old hold)
    · rintro ⟨a, heq, -⟩
      cases heq
    · rintro ⟨now', agents', due, heq, hmiss⟩
      cases heq
      exact hmiss hid
  todo_overdue a ha w hw := by
    obtain ⟨-, -, old, hold, hlast⟩ := find_due_eq_some h hw
    exact hlast ▸ isDue_iff.mp (mem_todo_ask.mp ha).2 old hold
  owed id howed := by
    -- a pass is no failed write, so the agent was owed before and this pass missed it
    rcases since_cons.mp howed with ⟨a, heq, -⟩ | ⟨hsees, -⟩
    · cases heq
    have hid : id ∉ agents.map Agent.instanceUID := fun hid => hsees ⟨now, agents, _, rfl, hid⟩
    refine ⟨fun w hw => absurd (find_due_eq_some h hw).1 hid, fun hmem => hid ?_⟩
    rw [todo_ask] at hmem
    exact (List.filter_sublist.map _).subset hmem

end Due

section Writes

variable {s : Passes} {history : List Event} {todo : List Agent} {a : Agent}

/-- The writes left over once one has ended are of other agents. -/
theorem uid_notMem_erase (hnodup : (todo.map Agent.instanceUID).Nodup) (ha : a ∈ todo) :
    a.instanceUID ∉ (todo.erase a).map Agent.instanceUID := by
  have hperm := (List.perm_cons_erase ha).map Agent.instanceUID
  rw [List.map_cons] at hperm
  exact (List.nodup_cons.mp (hperm.nodup_iff.mp hnodup)).1

theorem erase_map_subset : (todo.erase a).map Agent.instanceUID ⊆ todo.map Agent.instanceUID :=
  (List.erase_sublist.map _).subset

theorem honest_failed (h : Honest s history) (hphase : s.phase = .writing todo) (ha : a ∈ todo) :
    Honest { s with phase := .writing (todo.erase a) } (.failed a :: history) := by
  have htodo : s.todo = todo := by simp only [Passes.todo, hphase]
  have hnodup := htodo ▸ h.nodup
  refine ⟨h.keepalive_le, nofun,
    hnodup.sublist (List.erase_sublist.map _), h.current, fun id w hw => ?_,
    fun b hb => h.todo_overdue b (htodo ▸ List.mem_of_mem_erase hb), fun id howed => ?_⟩
  · refine credited_cons ?_ ?_ (h.credited id w hw)
    · rintro ⟨b, heq, -⟩
      cases heq
    · rintro ⟨now, agents, due, heq, -⟩
      cases heq
  · rcases since_cons.mp howed with ⟨b, heq, rfl⟩ | ⟨-, howed⟩
    · cases heq
      exact ⟨h.todo_overdue a (htodo ▸ ha), uid_notMem_erase hnodup ha⟩
    · obtain ⟨hover, hnot⟩ := h.owed id howed
      exact ⟨hover, fun hid => hnot (htodo ▸ erase_map_subset hid)⟩

/-- A successful write only changes the agent's own entry. -/
theorem honest_saved (h : Honest s history) (hphase : s.phase = .writing todo) (ha : a ∈ todo) :
    Honest
      { s with
        snapshotter := s.snapshotter.recordWritten a
        phase := .writing (todo.erase a) }
      (.saved a :: history) := by
  have htodo : s.todo = todo := by simp only [Passes.todo, hphase]
  have hnodup := htodo ▸ h.nodup
  have hother : ∀ id, id ≠ a.instanceUID →
      (s.snapshotter.recordWritten a).written.find id = s.snapshotter.written.find id :=
    fun id hne => FinMap.find_set_of_ne _ _ hne
  have hself : (s.snapshotter.recordWritten a).written.find a.instanceUID =
      some ⟨a.lastSeen, s.snapshotter.gen⟩ := FinMap.find_set_self _ _ _
  refine ⟨h.keepalive_le, nofun,
    hnodup.sublist (List.erase_sublist.map _), fun id w hw => ?_, fun id w hw => ?_,
    fun b hb => ?_, fun id howed => ?_⟩
  · by_cases hid : id = a.instanceUID
    · obtain rfl := Option.some.inj (hself.symm.trans (hid ▸ hw))
      rfl
    · exact h.current id w (hother id hid ▸ hw)
  · by_cases hid : id = a.instanceUID
    · obtain rfl := Option.some.inj (hself.symm.trans (hid ▸ hw))
      exact since_cons.mpr (Or.inl ⟨a, rfl, hid.symm, rfl⟩)
    · refine credited_cons ?_ ?_ (h.credited id w (hother id hid ▸ hw))
      · rintro ⟨b, heq, hb⟩
        cases heq
        exact hid hb.symm
      · rintro ⟨now, agents, due, heq, -⟩
        cases heq
  · have hne : b.instanceUID ≠ a.instanceUID := fun heq =>
      uid_notMem_erase hnodup ha (heq ▸ List.mem_map_of_mem hb)
    intro w hw
    exact h.todo_overdue b (htodo ▸ List.mem_of_mem_erase hb) w (hother _ hne ▸ hw)
  · rcases since_cons.mp howed with ⟨b, heq, -⟩ | ⟨-, howed⟩
    · cases heq
    obtain ⟨hover, hnot⟩ := h.owed id howed
    have hne : id ≠ a.instanceUID := fun heq =>
      hnot (htodo ▸ heq ▸ List.mem_map_of_mem ha)
    exact ⟨fun w hw => hover w (hother id hne ▸ hw), fun hid => hnot (htodo ▸ erase_map_subset hid)⟩

end Writes

theorem honest_step (p : Passes × List Event) (act : Act) (q : Passes × List Event)
    (h : Honest p.1 p.2) (hstep : passes p act = some q) : Honest q.1 q.2 := by
  obtain ⟨s, history⟩ := p
  obtain ⟨t, history'⟩ := q
  obtain ⟨hst, hwatch⟩ := observed_eq_some.mp hstep
  simp only at h hst hwatch ⊢
  subst hwatch
  cases act with
  | registry op =>
    obtain ⟨r, hr, rfl⟩ := Option.map_eq_some_iff.mp hst
    exact honest_registry h (Registry.count_step hr)
  | sweepShard shard now order =>
    simp only [Passes.step, Option.ite_none_right_eq_some, Option.some.injEq] at hst
    obtain ⟨-, rfl⟩ := hst
    exact honest_registry h (Registry.count_sweepShard s.registry now order)
  | begin =>
    cases hphase : s.phase with
    | idle =>
      simp only [Passes.step, hphase, Option.some.injEq] at hst
      subst hst
      refine honest_phase h rfl fun shard agents heq => ?_
      cases heq
      exact Registry.listedBelow_zero s.registry
    | _ => simp [Passes.step, hphase] at hst
  | list order =>
    cases hphase : s.phase with
    | listing shard agents =>
      simp only [Passes.step, hphase, Option.ite_none_right_eq_some, Option.some.injEq] at hst
      obtain ⟨⟨-, horder⟩, rfl⟩ := hst
      refine honest_phase h rfl fun shard' agents' heq => ?_
      cases heq
      exact (h.listed shard agents hphase).list horder
    | _ => simp [Passes.step, hphase] at hst
  | due now =>
    obtain ⟨shard, agents, hphase, -, rfl⟩ := step_due_eq_some hst
    simp only [watch, hphase]
    exact honest_due h hphase
  | save a succeeds =>
    cases hphase : s.phase with
    | writing todo =>
      simp only [Passes.step, hphase, Option.ite_none_right_eq_some, Option.some.injEq] at hst
      obtain ⟨ha, rfl⟩ := hst
      cases succeeds with
      | true => exact honest_saved h hphase ha
      | false => exact honest_failed h hphase ha
    | _ => simp [Passes.step, hphase] at hst
  | finish =>
    cases hphase : s.phase with
    | writing todo =>
      cases todo with
      | nil =>
        simp only [Passes.step, hphase, Option.some.injEq] at hst
        subst hst
        exact honest_phase h rfl fun shard agents heq => by cases heq
      | cons a todo => simp [Passes.step, hphase] at hst
    | _ => simp [Passes.step, hphase] at hst

/-- Right after a pass has asked for its due agents, the snapshotter remembers
agents the pass saw and no others. An agent the pass saw and skips has been
written successfully, with no pass since that missed it, and the latest such
write carried a `LastSeen` less than the keepalive ago. An agent whose write
failed is due at the first pass that sees it again. -/
theorem pass_accounts (registry : Registry) (interval clock : ℤ) {acts : List Act}
    {p q : Passes × List Event} {now : ℤ}
    (hrun : run passes (Passes.start registry interval clock, []) acts = some p)
    (hdue : passes p (.due now) = some q) :
    ∃ agents due, q.2 = .pass now agents due :: p.2 ∧ q.1.phase = .writing due ∧
      (∀ id ∈ q.1.snapshotter.written.keys, id ∈ agents.map Agent.instanceUID) ∧
      (∀ a ∈ agents, a ∉ due → ∃ lastSeen, Credited a.instanceUID lastSeen p.2 ∧
        now - lastSeen < p.1.keepalive) ∧
      ∀ a ∈ agents, Owed a.instanceUID p.2 → a ∈ due := by
  have h : Honest p.1 p.2 :=
    run_invariant (fun p => Honest p.1 p.2) honest_step (honest_start registry interval clock) hrun
  obtain ⟨s, history⟩ := p
  obtain ⟨t, history'⟩ := q
  obtain ⟨hst, hwatch⟩ := observed_eq_some.mp hdue
  simp only at h hst hwatch ⊢
  obtain ⟨shard, agents, hphase, hclock, rfl⟩ := step_due_eq_some hst
  simp only [watch, hphase] at hwatch
  refine ⟨agents, (s.ask now agents).todo, hwatch, rfl, fun id hid => ?_, fun a ha hskip => ?_,
    fun a ha howed => ?_⟩
  · obtain ⟨w, hw⟩ := Option.isSome_iff_exists.mp ((FinMap.mem_keys _ id).mp hid)
    exact (find_due_eq_some h hw).1
  · rw [mem_todo_ask, not_and, isDue_iff] at hskip
    obtain ⟨w, hw⟩ := not_forall.mp (hskip ha)
    obtain ⟨hfind, hyoung⟩ := Classical.not_imp.mp hw
    have hkeepalive := h.keepalive_le
    refine ⟨w.lastSeen, h.credited a.instanceUID w hfind, ?_⟩
    unfold sub at hyoung
    omega
  · exact mem_todo_ask.mpr ⟨ha, isDue_of_overdue (h.owed a.instanceUID howed).1 hclock⟩

/-- Thirty seconds between heartbeats, so thirty seconds of keepalive at an
interval of five. -/
def settings : Config where
  heartbeatInterval := 30000000000
  staleMissedHeartbeats := 3
  shardCount := 1

def heard : Agent := Registry.heardAgent settings 0

/-- The agent heartbeats, its first write fails, and the next pass has listed
it. -/
def retryActs : List Act :=
  [.registry (.report 0 heartbeat {}), .begin, .list [zeroUID], .due 1000000000,
    .save heard false, .finish, .begin, .list [zeroUID]]

/-- That pass writes it again. -/
theorem pass_accounts_retry :
    ∃ p q, run passes (Passes.start (.new settings) 5000000000 0, []) retryActs = some p ∧
      passes p (.due 6000000000) = some q ∧ Owed zeroUID p.2 ∧
      ∃ due, q.1.phase = .writing due ∧ heard ∈ due := by
  have hruns : ∃ p, run passes (Passes.start (.new settings) 5000000000 0, []) retryActs = some p ∧
      p.2 = [.failed heard, .pass 1000000000 [heard] [heard]] ∧
      (passes p (.due 6000000000)).any fun q =>
        decide (q.2.head? = some (.pass 6000000000 [heard] q.1.todo)) := by
    apply exists_run_of_any
    decide +kernel
  obtain ⟨p, hrun, hhistory, hnext⟩ := hruns
  obtain ⟨q, hq, hlisted⟩ := (Option.any_eq_true _ _).mp hnext
  have howed : Owed zeroUID p.2 := by
    rw [hhistory]
    exact since_cons.mpr (Or.inl ⟨_, rfl, rfl⟩)
  obtain ⟨agents, due, hpass, hphase, -, -, hagain⟩ :=
    pass_accounts (.new settings) 5000000000 0 hrun hq
  have hhead := of_decide_eq_true hlisted
  rw [hpass, List.head?_cons, Option.some.injEq] at hhead
  injection hhead with _ hagents _
  refine ⟨p, q, hrun, hq, howed, due, hphase, hagain _ ?_ howed⟩
  rw [hagents]
  exact List.mem_cons_self

end Grex.SnapshotPasses
