import Grex.Reads

/-!
Which record stands for an agent in the merged fleet view. The local record
wins on overlap, whatever its age, so the view is as fresh as it can be exactly
when no agent has reported to another replica since it was last heard here.
-/

namespace Grex.FleetView

open GoTime AgentState Reads

/-- The `Connected` of a stored agent as it should be shown: that of a session row
which was last refreshed too long ago does not count. -/
def presence (now disconnectAfter : ℤ) (a : Agent) : Bool :=
  a.connected && decide (sub now a.sessionUpdatedAt ≤ disconnectAfter)

theorem corrected_eq (now disconnectAfter : ℤ) (a : Agent) :
    corrected now disconnectAfter a = { a with connected := presence now disconnectAfter a } := by
  unfold corrected staleConnected presence
  by_cases hstale : sub now a.sessionUpdatedAt > disconnectAfter
  · cases hconnected : a.connected with
    | false => simp [← hconnected]
    | true => simp [hstale, not_le.mpr hstale]
  · simp [hstale, not_lt.mp hstale]

/-- A record of an agent, and where it was read. -/
inductive Record
  | held (a : Agent)
  | stored (a : Agent)

namespace Record

def agent : Record → Agent
  | held a => a
  | stored a => a

def uid (rec : Record) : String := rec.agent.instanceUID

/-- The event time of a record. -/
def time : Record → ℤ
  | held a => a.lastSeen
  | stored a => a.sessionUpdatedAt

/-- The agent as the view should present it. -/
def shown (now disconnectAfter : ℤ) : Record → Agent
  | held a => a
  | stored a => { a with connected := presence now disconnectAfter a }

@[simp] theorem uid_shown (now disconnectAfter : ℤ) (rec : Record) :
    (rec.shown now disconnectAfter).instanceUID = rec.uid := by
  cases rec <;> rfl

end Record

/-- The records the view could show: soft-deleted rows are none of them. -/
def Candidate (loc db : List Agent) : Record → Prop
  | .held a => a ∈ loc
  | .stored a => a ∈ db ∧ a.evictedAt = none

/-- The records behind the merged view, in its order. -/
def mergeRecords (loc db : List Agent) : List Record :=
  loc.map .held ++ (db.filter fun a =>
    !(loc.any fun b => b.instanceUID == a.instanceUID) && a.evictedAt.isNone).map .stored

theorem shown_mergeRecords (loc db : List Agent) (now disconnectAfter : ℤ) :
    (mergeRecords loc db).map (Record.shown now disconnectAfter) =
      mergeAgents loc db now disconnectAfter := by
  unfold mergeRecords mergeAgents
  rw [List.map_append, List.map_map, List.map_map]
  congr 1
  · exact List.map_id loc
  · exact List.map_congr_left fun a _ => (corrected_eq now disconnectAfter a).symm

/-- Every local record is shown, and the stored ones that are neither evicted
nor local. -/
theorem mem_mergeRecords (loc db : List Agent) (rec : Record) :
    rec ∈ mergeRecords loc db ↔ Candidate loc db rec ∧
      ∀ a, rec = .stored a → ∀ b ∈ loc, b.instanceUID ≠ a.instanceUID := by
  cases rec with
  | held a => simp [mergeRecords, Candidate]
  | stored a => simp [mergeRecords, Candidate, and_assoc, and_comm]

/-- No uid is shown twice. -/
theorem nodup_mergeRecords {loc db : List Agent} (hloc : (loc.map Agent.instanceUID).Nodup)
    (hdb : (db.map Agent.instanceUID).Nodup) : ((mergeRecords loc db).map Record.uid).Nodup := by
  unfold mergeRecords
  rw [List.map_append, List.map_map, List.map_map, List.nodup_append]
  refine ⟨hloc, hdb.sublist (List.filter_sublist.map _), fun id hid other hother heq => ?_⟩
  obtain ⟨a, ha, rfl⟩ := List.mem_map.mp hid
  obtain ⟨b, hb, rfl⟩ := List.mem_map.mp hother
  have hlocal : (loc.any fun c => c.instanceUID == b.instanceUID) = true :=
    List.any_eq_true.mpr ⟨a, ha, beq_iff_eq.mpr heq⟩
  have hkept := (List.mem_filter.mp hb).2
  rw [hlocal] at hkept
  cases hkept

/-- Each record shown has the latest event time among the records of its uid. -/
def Freshest (loc db : List Agent) : Prop :=
  ∀ rec ∈ mergeRecords loc db, ∀ other, Candidate loc db other → other.uid = rec.uid →
    other.time ≤ rec.time

/-- No stored record of a local agent is later than the local one. -/
def NoneMoved (loc db : List Agent) : Prop :=
  ∀ a ∈ loc, ∀ b ∈ db, b.evictedAt = none → b.instanceUID = a.instanceUID →
    b.sessionUpdatedAt ≤ a.lastSeen

theorem freshest_iff {loc db : List Agent} (hloc : (loc.map Agent.instanceUID).Nodup)
    (hdb : (db.map Agent.instanceUID).Nodup) : Freshest loc db ↔ NoneMoved loc db := by
  constructor
  · intro hfresh a ha b hb hlive huid
    have hshown : .held a ∈ mergeRecords loc db :=
      (mem_mergeRecords loc db _).mpr ⟨ha, fun _ h => nomatch h⟩
    exact hfresh _ hshown (.stored b) ⟨hb, hlive⟩ huid
  · intro hmoved rec hrec other hother huid
    obtain ⟨hcandidate, honly⟩ := (mem_mergeRecords loc db rec).mp hrec
    cases rec with
    | held a =>
      cases other with
      | held b =>
        obtain rfl := List.inj_on_of_nodup_map hloc hother hcandidate huid
        exact le_refl _
      | stored b => exact hmoved a hcandidate b hother.1 hother.2 huid
    | stored a =>
      cases other with
      | held b => exact absurd huid (honly a rfl b hother)
      | stored b =>
        obtain rfl := List.inj_on_of_nodup_map hdb hother.1 hcandidate.1 huid
        exact le_refl _

/-- A stored agent that is neither local nor evicted is shown disconnected once its
session row is stale. -/
theorem stale_shown_disconnected {loc db : List Agent} {now disconnectAfter : ℤ} {a : Agent}
    (ha : a ∈ db) (hlive : a.evictedAt = none) (hloc : ∀ b ∈ loc, b.instanceUID ≠ a.instanceUID)
    (hstale : staleConnected a now disconnectAfter = true) :
    { a with connected := false } ∈ mergeAgents loc db now disconnectAfter := by
  have hrecord : .stored a ∈ mergeRecords loc db := by
    refine (mem_mergeRecords loc db _).mpr ⟨⟨ha, hlive⟩, ?_⟩
    rintro _ ⟨⟩ b hb
    exact hloc b hb
  have hshown := List.mem_map_of_mem (f := Record.shown now disconnectAfter) hrecord
  have hcleared := corrected_eq now disconnectAfter a
  rw [corrected, if_pos hstale] at hcleared
  rw [shown_mergeRecords] at hshown
  rw [hcleared]
  exact hshown

/-- The view shows one record for each uid: the local one as it is where there
is one, and the stored one with its presence corrected where there is none. It
is the latest one exactly when no agent has moved away. -/
theorem view_shows_local_first (loc db : List Agent) (now disconnectAfter : ℤ)
    (hloc : (loc.map Agent.instanceUID).Nodup) (hdb : (db.map Agent.instanceUID).Nodup) :
    mergeAgents loc db now disconnectAfter =
        (mergeRecords loc db).map (Record.shown now disconnectAfter) ∧
      ((mergeRecords loc db).map Record.uid).Nodup ∧
      (∀ rec, rec ∈ mergeRecords loc db ↔ Candidate loc db rec ∧
        ∀ a, rec = .stored a → ∀ b ∈ loc, b.instanceUID ≠ a.instanceUID) ∧
      (∀ a ∈ db, a.evictedAt = none → (∀ b ∈ loc, b.instanceUID ≠ a.instanceUID) →
        staleConnected a now disconnectAfter = true →
          { a with connected := false } ∈ mergeAgents loc db now disconnectAfter) ∧
      (Freshest loc db ↔ NoneMoved loc db) :=
  ⟨(shown_mergeRecords loc db now disconnectAfter).symm, nodup_mergeRecords hloc hdb,
    mem_mergeRecords loc db, fun _ => stale_shown_disconnected, freshest_iff hloc hdb⟩

/-- An agent last heard here at 0s, which has lapsed. -/
def lapsed : Agent := { instanceUID := "agent-1", lastSeen := 0 }

/-- Its row after it reported to a sibling at 60s. -/
def moved : Agent :=
  { instanceUID := "agent-1", connected := true, lastSeen := 60000000000,
    sessionUpdatedAt := 60000000000 }

/-- Its row before that. -/
def unmoved : Agent := { lapsed with sessionUpdatedAt := 0 }

/-- The row of an agent whose replica crashed while it was connected. -/
def orphaned : Agent := { instanceUID := "agent-2", connected := true, sessionUpdatedAt := 0 }

theorem view_shows_local_first_lapsed :
    mergeAgents [lapsed] [unmoved, orphaned] 61000000000 45000000000 =
        [lapsed, { orphaned with connected := false }] ∧
      staleConnected orphaned 61000000000 45000000000 = true ∧
      { orphaned with connected := false } ∈
        mergeAgents [lapsed] [unmoved, orphaned] 61000000000 45000000000 ∧
      Freshest [lapsed] [unmoved, orphaned] := by
  obtain ⟨hview, -, -, hstale, hfresh⟩ := view_shows_local_first [lapsed] [unmoved, orphaned]
    61000000000 45000000000 (by decide) (by decide)
  refine ⟨hview, by decide, hstale orphaned (by simp) rfl (by decide) (by decide), hfresh.mpr ?_⟩
  intro a ha b hb _ huid
  simp only [List.mem_cons, List.not_mem_nil, or_false] at ha hb
  obtain rfl := ha
  rcases hb with rfl | rfl
  · decide
  · exact absurd huid (by decide)

/-- The view reports the agent disconnected while the database holds a later
and unexpired connected session. -/
theorem lapsed_record_shadows_live_session :
    mergeAgents [lapsed] [moved] 61000000000 45000000000 = [lapsed] ∧
      lapsed.connected = false ∧ moved.evictedAt = none ∧ moved.connected = true ∧
      staleConnected moved 61000000000 45000000000 = false ∧
      lapsed.lastSeen < moved.sessionUpdatedAt := by
  decide

end Grex.FleetView
