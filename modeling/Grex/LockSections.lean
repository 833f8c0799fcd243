import Grex.DirtyMarks
import Grex.FlushSteps

/-!
What a lock section still means for one agent: the stages it has left for the
agent's slot, the notifications it still owes, and the slot it will leave. The
stages of other agents do not matter. Until the section ends, an agent whose
slot will look different is owed a notification.
-/

namespace Grex.Replica

open GoTime AgentState Message AgentProgram DirtyMarks Tables

/-- The stages of a section that act on one agent's slot. -/
def worksFor (id : String) (rest : List Work) : List (Stage id) :=
  rest.filterMap fun w => if h : w.1 = id then some (h ▸ w.2) else none

theorem worksFor_cons_self {id : String} (st : Stage id) (rest : List Work) :
    worksFor id (⟨id, st⟩ :: rest) = st :: worksFor id rest := by
  simp [worksFor]

theorem worksFor_cons_other {id k : String} (st : Stage k) (rest : List Work) (h : k ≠ id) :
    worksFor id (⟨k, st⟩ :: rest) = worksFor id rest := by
  simp [worksFor, h]

theorem worksFor_append (id : String) (as bs : List Work) :
    worksFor id (as ++ bs) = worksFor id as ++ worksFor id bs :=
  List.filterMap_append

theorem worksFor_works_self {id : String} (p : List (Stage id)) : worksFor id (works p) = p := by
  induction p with
  | nil => rfl
  | cons st p ih =>
    have htail : worksFor id (⟨id, st⟩ :: works p) = st :: worksFor id (works p) :=
      worksFor_cons_self st (works p)
    rw [ih] at htail
    exact htail

theorem worksFor_works_other {id k : String} (p : List (Stage k)) (h : k ≠ id) :
    worksFor id (works p) = [] := by
  induction p with
  | nil => rfl
  | cons st p ih =>
    have htail : worksFor id (⟨k, st⟩ :: works p) = worksFor id (works p) :=
      worksFor_cons_other st (works p) h
    rw [ih] at htail
    exact htail

theorem worksFor_flatMap_not_mem (id : String) (order : List String)
    (p : (k : String) → List (Stage k)) (hid : id ∉ order) :
    worksFor id (order.flatMap fun k => works (p k)) = [] := by
  induction order with
  | nil => rfl
  | cons k order ih =>
    have hk : k ≠ id := fun heq => hid (heq ▸ List.mem_cons_self)
    rw [List.flatMap_cons, worksFor_append, worksFor_works_other _ hk,
      ih fun hmem => hid (List.mem_cons_of_mem k hmem)]
    rfl

/-- A walk that visits each agent once has one agent's own program for it. -/
theorem worksFor_flatMap (id : String) (order : List String) (hnodup : order.Nodup)
    (p : (k : String) → List (Stage k)) :
    worksFor id (order.flatMap fun k => works (p k)) = if id ∈ order then p id else [] := by
  induction order with
  | nil => rfl
  | cons k order ih =>
    obtain ⟨hk, hrest⟩ := List.nodup_cons.mp hnodup
    rw [List.flatMap_cons, worksFor_append]
    by_cases heq : k = id
    · subst heq
      rw [worksFor_works_self, worksFor_flatMap_not_mem k order p hk, List.append_nil,
        if_pos List.mem_cons_self]
    · have hne : id ≠ k := fun h => heq h.symm
      rw [worksFor_works_other _ heq, ih hrest, List.nil_append]
      simp [hne]

theorem announces_nil (id : String) : @Announces id [] := fun _ _ => rfl

/-- Every operation announces what it does to each agent, and works on the
agents of the shard it locks. -/
theorem plan_announces (r : Registry) (op : Locked) (shard : ℕ) (work : List Work)
    (hplan : op.plan r = some (shard, work)) :
    (∀ id, Announces (worksFor id work)) ∧ ∀ w ∈ work, r.shardFor w.1 = shard := by
  have hone : ∀ k, ∀ p : List (Stage k), Announces p →
      (∀ id, Announces (worksFor id (works p))) ∧ ∀ w ∈ works p, r.shardFor w.1 = r.shardFor k := by
    intro k p hp
    refine ⟨fun id => ?_, fun w hw => ?_⟩
    · by_cases heq : k = id
      · subst heq
        rw [worksFor_works_self]
        exact hp
      · rw [worksFor_works_other p heq]
        exact announces_nil id
    · obtain ⟨st, _, rfl⟩ := List.mem_map.mp hw
      rfl
  cases op with
  | report now msg conn =>
    simp only [Locked.plan] at hplan
    split at hplan
    · simp at hplan
    · cases hplan
      exact hone _ _ (report_announces r.cfg _ now msg conn)
  | setConnected id connected =>
    simp only [Locked.plan] at hplan
    cases hplan
    exact hone _ _ (setConnected_announces id connected)
  | sweepShard i now order =>
    simp only [Locked.plan] at hplan
    split at hplan
    · rename_i hshard
      cases hplan
      refine ⟨fun id => ?_, fun w hw => ?_⟩
      · rw [worksFor_flatMap id order hshard.2.nodup fun k => sweepProgram r.cfg k now]
        split
        · exact sweep_announces r.cfg id now
        · exact announces_nil id
      · obtain ⟨id, hid, hw'⟩ := List.mem_flatMap.mp hw
        obtain ⟨st, _, rfl⟩ := List.mem_map.mp hw'
        exact r.routed _ id ((hshard.2.mem_iff id).mp hid)
    · simp at hplan

/-- The section that holds an agent's shard, if any. -/
def sectionOf (R : Replica) (id : String) : Option Section :=
  R.locks.find (R.registry.shardFor id)

def stagesLeft (R : Replica) (id : String) : List (Stage id) :=
  (R.sectionOf id).elim [] fun sec => worksFor id sec.rest

def pendingOf (R : Replica) (id : String) : List Event :=
  (R.sectionOf id).elim [] Section.pending

/-- What a flush will see of the agent once its shard is free. -/
def finalView (R : Replica) (id : String) : Option Flushed :=
  (runProgram (R.stagesLeft id) (R.registry.get id)).1.map flushed

/-- The agent will still be notified of before its shard is free. -/
def Owed (R : Replica) (id : String) : Prop :=
  (∃ e ∈ R.pendingOf id, e.about = id) ∨
    (runProgram (R.stagesLeft id) (R.registry.get id)).2 ≠ []

/-- Sections work on the agents of their own shard. -/
def Routed (R : Replica) : Prop :=
  ∀ shard sec, R.locks.find shard = some sec → ∀ w ∈ sec.rest, R.registry.shardFor w.1 = shard

theorem finalView_of_free {R : Replica} {id : String} (hfree : R.sectionOf id = none) :
    R.finalView id = (R.registry.get id).map flushed := by
  simp [finalView, stagesLeft, hfree, runProgram]

theorem not_owed_of_free {R : Replica} {id : String} (hfree : R.sectionOf id = none) :
    ¬ R.Owed id := by
  simp [Owed, stagesLeft, pendingOf, hfree, runProgram]

theorem shardFor_step {R R' : Replica} {db db' : Database} {a : Act} (h : Step R db a R' db')
    (id : String) : R'.registry.shardFor id = R.registry.shardFor id := by
  rcases registry_step h with hsame | ⟨_, _, _, st, _, _, hexec⟩
  · rw [hsame]
  · rw [hexec]
    rfl

theorem routed_step {R R' : Replica} {db db' : Database} {a : Act} (h : Step R db a R' db')
    (hrouted : R.Routed) : R'.Routed := by
  intro shard sec hsec w hw
  rw [shardFor_step h]
  rcases locks_step h shard sec hsec with ⟨old, hold, _, hrest⟩ | ⟨op, work, _, hplan, rfl⟩
  · exact hrouted shard old hold w (hrest hw)
  · exact (plan_announces R.registry op shard work hplan).2 w hw

/-- The agent's slot and the section on its shard decide its view and what it is
owed. -/
theorem view_of_same_section {R R' : Replica} {id : String}
    (hget : R'.registry.get id = R.registry.get id) (hsection : R'.sectionOf id = R.sectionOf id) :
    R'.finalView id = R.finalView id ∧ (R'.Owed id ↔ R.Owed id) := by
  unfold finalView Owed stagesLeft pendingOf
  rw [hget, hsection]
  exact ⟨rfl, Iff.rfl⟩

/-- A step that leaves the locks and the registry alone leaves all of this. -/
theorem section_same {R R' : Replica} (hlocks : R'.locks = R.locks)
    (hregistry : R'.registry = R.registry) (id : String) :
    R'.finalView id = R.finalView id ∧ (R'.Owed id ↔ R.Owed id) := by
  refine view_of_same_section ?_ ?_
  · rw [hregistry]
  · unfold sectionOf
    rw [hlocks, hregistry]

/-- The first stage left has run and its notifications are pending. -/
theorem view_of_first_stage {R R' : Replica} {id : String} {st : Stage id}
    (hstages : R.stagesLeft id = st :: R'.stagesLeft id) (hnone : R.pendingOf id = [])
    (hget : R'.registry.get id = (st.run (R.registry.get id)).1)
    (hpending : R'.pendingOf id = (st.run (R.registry.get id)).2) :
    R'.finalView id = R.finalView id ∧ (R.Owed id → R'.Owed id) := by
  refine ⟨?_, fun howed => ?_⟩
  · unfold finalView
    rw [hget, hstages]
    rfl
  · rcases howed with ⟨e, he, _⟩ | hevents
    · simp [hnone] at he
    · rw [hstages] at hevents
      by_cases hfirst : (st.run (R.registry.get id)).2 = []
      · refine Or.inr fun hnil => hevents ?_
        rw [hget] at hnil
        simp only [runProgram, hfirst, hnil, List.append_nil]
      · obtain ⟨e, he⟩ := List.exists_mem_of_ne_nil _ hfirst
        exact Or.inl ⟨e, hpending ▸ he, st.about _ (R.registry.get_keyed id) e he⟩

/-- Taking a lock: the agent will be notified of, or will look the same. -/
theorem lock_view {R : Replica} {op : Locked} {shard : ℕ} {work : List Work}
    (hplan : op.plan R.registry = some (shard, work)) (hfree : R.locks.find shard = none)
    (id : String) :
    (R.holds shard (some ⟨op, work, []⟩)).Owed id ∨
      ((R.holds shard (some ⟨op, work, []⟩)).finalView id = R.finalView id ∧
        (R.Owed id → (R.holds shard (some ⟨op, work, []⟩)).Owed id)) := by
  by_cases hid : R.registry.shardFor id = shard
  · subst hid
    have hview := @finalView_of_free R id hfree
    have hafter : (R.holds (R.registry.shardFor id) (some ⟨op, work, []⟩)).stagesLeft id =
        worksFor id work := by
      simp [stagesLeft, sectionOf, holds]
    by_cases hsilent : (runProgram (worksFor id work) (R.registry.get id)).2 = []
    · refine Or.inr ⟨?_, fun howed => absurd howed (not_owed_of_free hfree)⟩
      rw [hview]
      unfold finalView
      rw [hafter]
      exact (plan_announces R.registry op _ work hplan).1 id _ hsilent
    · refine Or.inl (Or.inr ?_)
      rw [hafter]
      exact hsilent
  · obtain ⟨hview, howed⟩ := @view_of_same_section R (R.holds shard (some ⟨op, work, []⟩)) id rfl
      (FinMap.find_set_of_ne _ _ hid)
    exact Or.inr ⟨hview, howed.mpr⟩

/-- Running a stage does not change how the section ends, nor drop a
notification it owes. -/
theorem exec_view {R : Replica} (hrouted : R.Routed) {shard : ℕ} {op : Locked} {k : String}
    {st : Stage k} {rest : List Work}
    (hheld : R.locks.find shard = some ⟨op, ⟨k, st⟩ :: rest, []⟩) (id : String) :
    let R' : Replica := { R.holds shard (some ⟨op, rest, (R.registry.exec st).2⟩) with
      registry := (R.registry.exec st).1 }
    R'.finalView id = R.finalView id ∧ (R.Owed id → R'.Owed id) := by
  intro R'
  have hk : R.registry.shardFor k = shard := hrouted shard _ hheld ⟨k, st⟩ List.mem_cons_self
  have hget : R'.registry.get id = if id = k then (st.run (R.registry.get k)).1
      else R.registry.get id := Registry.get_exec R.registry st id
  by_cases hid : R.registry.shardFor id = shard
  · have hbefore : R.sectionOf id = some ⟨op, ⟨k, st⟩ :: rest, []⟩ := by
      unfold sectionOf
      rw [hid]
      exact hheld
    have hafter : R'.sectionOf id = some ⟨op, rest, (st.run (R.registry.get k)).2⟩ := by
      change (R.locks.set shard _).find (R.registry.shardFor id) = _
      rw [hid, FinMap.find_set_self]
      rfl
    by_cases heq : id = k
    · subst heq
      rw [if_pos rfl] at hget
      refine view_of_first_stage ?_ ?_ hget ?_
      · simp only [stagesLeft, hbefore, hafter, Option.elim_some]
        exact worksFor_cons_self st rest
      · simp only [pendingOf, hbefore, Option.elim_some]
      · simp only [pendingOf, hafter, Option.elim_some]
    · rw [if_neg heq] at hget
      have hstages : R'.stagesLeft id = R.stagesLeft id := by
        simp only [stagesLeft, hbefore, hafter, Option.elim_some]
        exact (worksFor_cons_other st rest fun h => heq h.symm).symm
      refine ⟨?_, fun howed => ?_⟩
      · unfold finalView
        rw [hget, hstages]
      · rcases howed with ⟨e, he, _⟩ | hevents
        · simp [pendingOf, hbefore] at he
        · refine Or.inr ?_
          rw [hget, hstages]
          exact hevents
  · have hne : id ≠ k := fun heq => hid (heq ▸ hk)
    rw [if_neg hne] at hget
    obtain ⟨hview, howed⟩ := view_of_same_section hget (FinMap.find_set_of_ne _ _ hid)
    exact ⟨hview, howed.mpr⟩

/-- Firing a notification marks its agent, and owes the others as before. -/
theorem fire_view {R : Replica} {shard : ℕ} {op : Locked} {rest : List Work} {e : Event}
    {pending : List Event} (hheld : R.locks.find shard = some ⟨op, rest, e :: pending⟩)
    (id : String) :
    let R' : Replica := { R.holds shard (some ⟨op, rest, pending⟩) with
      dirty := insert e.about R.dirty }
    R'.finalView id = R.finalView id ∧ (R.Owed id → R'.Owed id ∨ id ∈ R'.dirty) := by
  intro R'
  by_cases hid : R.registry.shardFor id = shard
  · have hbefore : R.sectionOf id = some ⟨op, rest, e :: pending⟩ := by
      unfold sectionOf
      rw [hid]
      exact hheld
    have hafter : R'.sectionOf id = some ⟨op, rest, pending⟩ := by
      change (R.locks.set shard _).find (R.registry.shardFor id) = _
      rw [hid, FinMap.find_set_self]
    have hstages : R'.stagesLeft id = R.stagesLeft id := by
      simp only [stagesLeft, hbefore, hafter, Option.elim_some]
    refine ⟨?_, fun howed => ?_⟩
    · unfold finalView
      rw [hstages]
      rfl
    · rcases howed with ⟨e', he', habout⟩ | hevents
      · simp only [pendingOf, hbefore, Option.elim_some, List.mem_cons] at he'
        rcases he' with rfl | hmem
        · exact Or.inr (Finset.mem_insert.mpr (Or.inl habout.symm))
        · refine Or.inl (Or.inl ⟨e', ?_, habout⟩)
          simp only [pendingOf, hafter, Option.elim_some]
          exact hmem
      · refine Or.inl (Or.inr ?_)
        rw [hstages]
        exact hevents
  · obtain ⟨hview, howed⟩ := @view_of_same_section R R' id rfl (FinMap.find_set_of_ne _ _ hid)
    exact ⟨hview, fun h => Or.inl (howed.mpr h)⟩

/-- A section is released when it owes nothing more. -/
theorem unlock_view {R : Replica} {shard : ℕ} {op : Locked}
    (hheld : R.locks.find shard = some ⟨op, [], []⟩) (id : String) :
    (R.holds shard none).finalView id = R.finalView id ∧
      (R.Owed id → (R.holds shard none).Owed id) := by
  by_cases hid : R.registry.shardFor id = shard
  · subst hid
    have hafter : (R.holds (R.registry.shardFor id) none).sectionOf id = none :=
      FinMap.find_set_self _ _ _
    have hbefore : R.sectionOf id = some ⟨op, [], []⟩ := hheld
    refine ⟨?_, fun howed => ?_⟩
    · rw [finalView_of_free hafter]
      unfold finalView stagesLeft
      rw [hbefore]
      rfl
    · rcases howed with ⟨e, he, _⟩ | hevents
      · simp [pendingOf, hbefore] at he
      · simp [stagesLeft, hbefore, worksFor, runProgram] at hevents
  · obtain ⟨hview, howed⟩ := @view_of_same_section R (R.holds shard none) id rfl
      (FinMap.find_set_of_ne _ _ hid)
    exact ⟨hview, howed.mpr⟩

end Grex.Replica
