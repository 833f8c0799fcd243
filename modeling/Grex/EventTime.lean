import Grex.Calls

/-!
Event time. LastSeen is the clock reading of the last report applied, and
reports of one agent are applied in the order in which they take the lock, not
in the order in which they read the clock. LastSeen never runs backwards
exactly when the two orders agree, as they do when the reports of one agent
never overlap.
-/

namespace Grex.EventTime

open AgentState Message History Calls Machine

/-- LastSeen is the latest of the readings applied since registration, and is
not before FirstSeen. -/
def Forward (p : Calls × Heard) : Prop :=
  ∀ raw id a, instanceUID raw = .ok id → p.1.registry.get id = some a →
    a.firstSeen ≤ a.lastSeen ∧ ∀ call ∈ p.2 raw, call.now ≤ a.lastSeen

/-- The step does not move the LastSeen of an agent that stays backwards. -/
def NeverBackwards (p : Calls × Heard) (act : Act) : Prop :=
  ∀ q, machine p act = some q → ∀ id a b, p.1.registry.get id = some a →
    q.1.registry.get id = some b → a.lastSeen ≤ b.lastSeen

/-- No report of the agent with a later reading has been applied since its
registration. -/
def InOrder (p : Calls × Heard) (act : Act) : Prop :=
  ∀ call ∈ applied p.1 act, (p.1.registry.get call.id).isSome →
    ∀ earlier ∈ p.2 call.msg.instanceUid, earlier.now ≤ call.now

instance (p : Calls × Heard) (act : Act) : Decidable (InOrder p act) :=
  inferInstanceAs (Decidable (∀ call ∈ applied p.1 act, _ → _))

theorem firstSeen_of_mirrors {cfg : Config} {calls : List Call} {a : Agent}
    (h : Mirrors cfg calls a) : ∃ call ∈ calls, call.now = a.firstSeen := by
  obtain ⟨first, hfirst, hseen⟩ := Option.map_eq_some_iff.mp h.firstSeen
  exact ⟨first, List.mem_of_getLast? hfirst, hseen⟩

theorem lastSeen_of_mirrors {cfg : Config} {calls : List Call} {a : Agent}
    (h : Mirrors cfg calls a) : ∃ call ∈ calls, call.now = a.lastSeen := by
  obtain ⟨last, hlast, hseen⟩ := Option.map_eq_some_iff.mp h.last
  exact ⟨last, List.mem_of_mem_head? hlast, (Prod.mk.inj (Prod.mk.inj hseen).2).2⟩

/-- FirstSeen is one of the readings applied, so it is enough to bound these. -/
theorem forward_of_bounded {p : Calls × Heard} (hmirrored : Mirrored p.2 p.1.registry)
    (h : ∀ raw id a, instanceUID raw = .ok id → p.1.registry.get id = some a →
      ∀ call ∈ p.2 raw, call.now ≤ a.lastSeen) : Forward p := by
  intro raw id a hraw ha
  have hbound := h raw id a hraw ha
  obtain ⟨first, hfirst, hseen⟩ := firstSeen_of_mirrors (hmirrored.mirrors hraw ha)
  exact ⟨hseen ▸ hbound first hfirst, hbound⟩

/-- A report that is applied in order keeps the latest reading last. -/
theorem forward_step {p q : Calls × Heard} {act : Act} (hmirrored : Mirrored p.2 p.1.registry)
    (hp : Forward p) (horder : InOrder p act) (hstep : machine p act = some q) : Forward q := by
  refine forward_of_bounded (mirrored_machine hstep hmirrored)
    (agents_step (fun calls a => ∀ c ∈ calls, c.now ≤ a.lastSeen)
      (fun raw id a hraw ha => (hp raw id a hraw ha).2) (fun call hcall => ?_)
      (fun _ _ _ hbound => hbound) hstep)
  rw [lastSeen_result]
  intro c hc
  rcases mem_record_self.mp hc with rfl | ⟨hsome, hold⟩
  · exact le_refl _
  · exact horder call hcall hsome c hold

/-- A report that is overtaken by a later reading leaves an older LastSeen than
one already applied. -/
theorem not_forward_step {p q : Calls × Heard} {act : Act} (horder : ¬ InOrder p act)
    (hstep : machine p act = some q) : ¬ Forward q := by
  intro hq
  apply horder
  intro call hcall hsome earlier hearlier
  obtain ⟨hget, hhist⟩ := machine_applied hstep hcall
  have hbound := (hq call.msg.instanceUid call.id _ call.valid hget).2 earlier
  rw [hhist, lastSeen_result] at hbound
  exact hbound (mem_record_self.mpr (Or.inr ⟨hsome, hearlier⟩))

theorem neverBackwards_of_inOrder {p : Calls × Heard} {act : Act}
    (hmirrored : Mirrored p.2 p.1.registry) (horder : InOrder p act) : NeverBackwards p act := by
  intro q hstep id a b ha hb
  rcases machine_effect hstep with ⟨call, hcall, hregistry, _⟩ | ⟨_, hpresence, _⟩
  · rw [hregistry, get_apply] at hb
    by_cases hid : id = call.id
    · subst hid
      obtain ⟨last, hlast, hseen⟩ := lastSeen_of_mirrors (hmirrored.mirrors call.valid ha)
      rw [if_pos rfl] at hb
      rw [← Option.some.inj hb, lastSeen_result, ← hseen]
      exact horder call hcall (by rw [ha]; rfl) last hlast
    · rw [if_neg hid, ha] at hb
      obtain rfl := Option.some.inj hb
      exact le_refl _
  · obtain ⟨old, connected, hold, rfl⟩ := hpresence.agent id b hb
    obtain rfl := Option.some.inj (ha.symm.trans hold)
    exact le_refl _

/-- No report of an agent enters while another one of it is under way. -/
def Serial (p : Calls × Heard) : Act → Prop
  | .enter msg _ => ∀ call ∈ p.1.pending, call.msg.instanceUid ≠ msg.instanceUid
  | _ => True

/-- With a clock that does not run backwards, a report under way has a later
reading than all that were applied to its agent. -/
structure Serialized (s : Calls) (hist : Heard) : Prop where
  pending_le : ∀ call ∈ s.pending, call.now ≤ s.clock
  applied_le : ∀ raw, ∀ call ∈ hist raw, call.now ≤ s.clock
  after : ∀ call ∈ s.pending, ∀ earlier ∈ hist call.msg.instanceUid, earlier.now ≤ call.now
  apart : (s.pending.map fun call => call.msg.instanceUid).Nodup

theorem serialized_enter {s : Calls} {hist : Heard} {msg : AgentToServer} {conn : ConnMeta}
    (h : Serialized s hist) (hserial : Serial (s, hist) (.enter msg conn)) :
    Serialized { s with pending := s.pending ++ (callOf s.clock msg conn).toList } hist := by
  cases hcall : callOf s.clock msg conn with
  | none =>
    rw [Option.toList_none, List.append_nil]
    exact h
  | some new =>
    obtain ⟨hnow, hmsg⟩ := callOf_eq_some hcall
    refine ⟨fun call hmem => ?_, h.applied_le, fun call hmem => ?_, ?_⟩
    · rcases List.mem_append.mp hmem with hold | hnew
      · exact h.pending_le call hold
      · obtain rfl := List.mem_singleton.mp hnew
        exact hnow.le
    · rcases List.mem_append.mp hmem with hold | hnew
      · exact h.after call hold
      · obtain rfl := List.mem_singleton.mp hnew
        rw [hnow]
        exact h.applied_le _
    · rw [List.map_append, List.nodup_append]
      refine ⟨h.apart, List.nodup_singleton _, fun raw hraw other hother => ?_⟩
      obtain ⟨call, hmem, rfl⟩ := List.mem_map.mp hraw
      obtain rfl := List.mem_singleton.mp hother
      have hne := hserial call hmem
      rw [← hmsg] at hne
      exact hne

theorem serialized_apply {s t : Calls} {hist : Heard} {i : ℕ} {call : Call}
    (h : Serialized s hist) (hcall : s.pending[i]? = some call)
    (hpending : t.pending = s.pending.eraseIdx i) (hclock : t.clock = s.clock) :
    Serialized t (record hist s.registry call) := by
  have hmem : call ∈ s.pending := List.mem_of_getElem? hcall
  have hother : ∀ c ∈ t.pending, c ∈ s.pending ∧ c.msg.instanceUid ≠ call.msg.instanceUid := by
    intro c hc
    rw [hpending] at hc
    obtain ⟨j, hne, hj⟩ := List.mem_eraseIdx_iff_getElem?.mp hc
    refine ⟨List.mem_of_getElem? hj, fun heq => hne ?_⟩
    have hlt : j < (s.pending.map fun call => call.msg.instanceUid).length := by
      rw [List.length_map]
      exact (List.getElem?_eq_some_iff.mp hj).1
    apply (List.getElem?_inj hlt h.apart).mp
    rw [List.getElem?_map, List.getElem?_map, hj, hcall, Option.map_some, Option.map_some, heq]
  refine ⟨fun c hc => ?_, fun raw c hc => ?_, fun c hc => ?_, ?_⟩
  · rw [hclock]
    exact h.pending_le c (hother c hc).1
  · rw [hclock]
    by_cases hraw : raw = call.msg.instanceUid
    · subst hraw
      rcases mem_record_self.mp hc with rfl | ⟨_, hold⟩
      · exact h.pending_le _ hmem
      · exact h.applied_le _ c hold
    · rw [record_of_ne hraw] at hc
      exact h.applied_le raw c hc
  · rw [record_of_ne (hother c hc).2]
    exact h.after c (hother c hc).1
  · rw [hpending]
    exact h.apart.sublist ((s.pending.eraseIdx_sublist i).map _)

theorem serialized_step {p q : Calls × Heard} {act : Act} (h : Serialized p.1 p.2)
    (hserial : Serial p act) (hstep : machine p act = some q) : Serialized q.1 q.2 := by
  obtain ⟨hst, hhist⟩ := observed_eq_some.mp hstep
  rw [hhist]
  cases act with
  | tick now =>
    simp only [step] at hst
    split at hst
    · rename_i hle
      rw [← Option.some.inj hst]
      exact ⟨fun call hcall => le_trans (h.pending_le call hcall) hle,
        fun raw call hcall => le_trans (h.applied_le raw call hcall) hle, h.after, h.apart⟩
    · cases hst
  | enter msg conn =>
    rw [← Option.some.inj hst]
    exact serialized_enter h hserial
  | apply i =>
    obtain ⟨call, hcall, heq⟩ := Option.map_eq_some_iff.mp hst
    rw [← heq, watch, applied, hcall]
    exact serialized_apply h hcall rfl rfl
  | setConnected id connected =>
    rw [← Option.some.inj hst]
    exact ⟨h.pending_le, h.applied_le, h.after, h.apart⟩
  | sweepShard shard now order =>
    simp only [step] at hst
    split at hst
    · rw [← Option.some.inj hst]
      exact ⟨h.pending_le, h.applied_le, h.after, h.apart⟩
    · cases hst

theorem serialized_start (cfg : Config) (clock : ℤ) :
    Serialized (Calls.start cfg clock).1 (Calls.start cfg clock).2 where
  pending_le _ hcall := nomatch hcall
  applied_le _ _ hcall := nomatch hcall
  after _ hcall := nomatch hcall
  apart := List.nodup_nil

/-- Reports that do not overlap are applied in the order of their readings. -/
theorem inOrder_of_serial (cfg : Config) (clock : ℤ) (acts : List Act)
    (h : Along machine Serial (Calls.start cfg clock) acts) :
    Along machine InOrder (Calls.start cfg clock) acts := by
  refine along_of_invariant (fun p : Calls × Heard => Serialized p.1 p.2)
    (fun _ _ _ hp hserial hstep => serialized_step hp hserial hstep) ?_
    (serialized_start cfg clock) h
  intro p act hp _ call hcall _
  cases act with
  | apply i => exact hp.after call (List.mem_of_getElem? hcall)
  | _ => cases hcall

/-- Event time never runs backwards exactly when the reports of each agent are
applied in the order of their readings. -/
theorem event_time_forward_iff (cfg : Config) (clock : ℤ) (acts : List Act)
    (final : Calls × Heard) (hrun : run machine (Calls.start cfg clock) acts = some final) :
    (Along machine NeverBackwards (Calls.start cfg clock) acts ∧
      ∀ p, Visits machine (Calls.start cfg clock) acts p → Forward p) ↔
    Along machine InOrder (Calls.start cfg clock) acts := by
  have hstart : Mirrored (Calls.start cfg clock).2 (Calls.start cfg clock).1.registry :=
    mirrored_new _ cfg
  have hvisits := visits_good_iff_along
    (fun p : Calls × Heard => Mirrored p.2 p.1.registry ∧ Forward p) Forward
    (fun _ hp => hp.2)
    (fun _ _ _ hp horder hstep =>
      ⟨mirrored_machine hstep hp.1, forward_step hp.1 hp.2 horder hstep⟩)
    (fun _ _ _ _ horder hstep => not_forward_step horder hstep)
    ⟨hstart, fun _ _ _ _ ha => by cases ha⟩ hrun
  refine ⟨fun h => hvisits.mp h.2, fun h => ⟨?_, hvisits.mpr h⟩⟩
  exact along_of_invariant (fun p : Calls × Heard => Mirrored p.2 p.1.registry)
    (fun _ _ _ hp _ hstep => mirrored_machine hstep hp)
    (fun _ _ hp horder => neverBackwards_of_inOrder hp horder) hstart h

/-- Two heartbeats of one agent that read the clock at 5s and at 10s. -/
def overlapping : List Act :=
  [.tick 5000000000, .enter heartbeat {}, .tick 10000000000, .enter heartbeat {}]

theorem event_time_forward_applied_in_order :
    ∃ final, run machine (Calls.start ⟨30000000000, 3, [], 1⟩ 0)
        (overlapping ++ [.apply 0, .apply 0]) = some final ∧
      ∀ p, Visits machine (Calls.start ⟨30000000000, 3, [], 1⟩ 0)
        (overlapping ++ [.apply 0, .apply 0]) p → Forward p := by
  obtain ⟨final, hrun, _⟩ : ∃ final, run machine (Calls.start ⟨30000000000, 3, [], 1⟩ 0)
      (overlapping ++ [.apply 0, .apply 0]) = some final ∧ True :=
    exists_run_of_any (by decide +kernel)
  have horder : Along machine InOrder (Calls.start ⟨30000000000, 3, [], 1⟩ 0)
      (overlapping ++ [.apply 0, .apply 0]) := by decide +kernel
  exact ⟨final, hrun, ((event_time_forward_iff _ _ _ final hrun).mpr horder).2⟩

/-- Applied the other way round, the later one registers the agent and the
earlier one then takes LastSeen back, to before FirstSeen. -/
theorem overtaken_report_moves_last_seen_back :
    ∃ before, run machine (Calls.start ⟨30000000000, 3, [], 1⟩ 0)
        (overlapping ++ [.apply 1]) = some before ∧
      (before.1.registry.get zeroUID).map Agent.lastSeen = some 10000000000 ∧
      ∃ after, machine before (.apply 0) = some after ∧
        (after.1.registry.get zeroUID).map (fun a => (a.firstSeen, a.lastSeen)) =
          some (10000000000, 5000000000) := by
  obtain ⟨before, hrun, hseen, hafter⟩ : ∃ before,
      run machine (Calls.start ⟨30000000000, 3, [], 1⟩ 0) (overlapping ++ [.apply 1]) =
        some before ∧ (before.1.registry.get zeroUID).map Agent.lastSeen = some 10000000000 ∧
      (machine before (.apply 0)).any (fun after =>
        decide ((after.1.registry.get zeroUID).map (fun a => (a.firstSeen, a.lastSeen)) =
          some (10000000000, 5000000000))) = true :=
    exists_run_of_any (by decide +kernel)
  obtain ⟨after, hstep, hback⟩ := (Option.any_eq_true _ _).mp hafter
  exact ⟨before, hrun, hseen, after, hstep, of_decide_eq_true hback⟩

end Grex.EventTime
