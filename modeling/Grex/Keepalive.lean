import Grex.Machine
import Grex.Reads
import Grex.SessionBatches

/-!
How old a healthy agent's session row can get. A clock is added to one replica:
the agent reports at least once every heartbeat interval, the snapshotter runs
at every tick, takes no time and has all its writes succeed, and the flusher
saves whatever it has read. The row carries the agent's last check-in, not the
time of the write, so its age at the next tick is up to a heartbeat interval
plus a tick, whatever the keepalive is, and storing it in microseconds adds
almost another one.
-/

namespace Grex.Keepalive

open GoTime AgentState Message AgentProgram Tables Snapshotter SessionBatches Machine

/-- One replica with a clock. `taken` are the agents its flusher has read. -/
structure Timed where
  clock : ℤ
  nextTick : ℤ
  registry : Registry
  snapshotter : Snapshotter := {}
  taken : List Agent := []
  db : Database

inductive Act
  | wait (now : ℤ)
  | registry (op : Registry.Op)
  | read (id : String)
  | save (a : Agent)
  | snapshot (orders : ℕ → List String) (tasks : List (List Agent))

namespace Timed

/-- The bookkeeping and the agents of a snapshot taken now. -/
def due (tick : ℤ) (s : Timed) (orders : ℕ → List String) : Snapshotter × List Agent :=
  s.snapshotter.due (keepaliveInterval s.registry.cfg.disconnectThreshold tick) s.clock
    (s.registry.list orders)

def pass (tick : ℤ) (s : Timed) (orders : ℕ → List String) (tasks : List (List Agent)) : Pass :=
  writeTasks (fun _ => false) { db := s.db, snapshotter := (s.due tick orders).1 } tasks

/-- The replica once the snapshot's writes are done. -/
def snapshotted (tick : ℤ) (s : Timed) (orders : ℕ → List String) (tasks : List (List Agent)) :
    Timed :=
  { s with
    snapshotter := (s.pass tick orders tasks).snapshotter
    db := (s.pass tick orders tasks).db
    nextTick := s.nextTick + tick }

/-- Time passes up to the next tick and up to the agent's next report, and the
agent stays registered once it is. Tasks hold `size` agents and reach the store
in any order. -/
def step (tick : ℤ) (size : ℕ) (id : String) (s : Timed) : Act → Option Timed
  | .wait now =>
      if s.clock ≤ now ∧ now ≤ s.nextTick ∧ ((s.registry.get id).all fun a =>
          decide (now ≤ a.lastSeen + s.registry.cfg.heartbeatInterval)) then
        some { s with clock := now }
      else none
  | .registry op =>
      (s.registry.step op).bind fun q =>
        if op.reads s.clock ∧ ((s.registry.get id).isSome → (q.1.get id).isSome) then
          some { s with registry := q.1 }
        else none
  | .read k => some { s with taken := (s.registry.get k).toList ++ s.taken }
  | .save a => if a ∈ s.taken then some { s with db := saveAgent s.db a } else none
  | .snapshot orders tasks =>
      if s.clock = s.nextTick ∧ s.registry.Orders orders ∧
          tasks.isPerm (chunk (s.due tick orders).2 size) ∧
          ∀ a ∈ (s.due tick orders).2, a.instanceUID ∈ s.db.agents.keys then
        some (s.snapshotted tick orders tasks)
      else none

def start (cfg : Config) (db : Database) (clock firstTick : ℤ) : Timed where
  clock := clock
  nextTick := firstTick
  registry := Registry.new cfg
  db := db

/-- What a sibling replica with the same settings makes of the stored row. -/
def stale (s : Timed) (id : String) : Bool :=
  match Reads.storedAgent s.db id with
  | some (some a) => Reads.staleConnected a s.clock s.registry.cfg.disconnectThreshold
  | _ => false

/-- The snapshotter has written the agent's session row. -/
def tracked (s : Timed) (id : String) : Bool := (s.snapshotter.written.find id).isSome

theorem divides_due {s : Timed} {tick : ℤ} {size : ℕ} {orders : ℕ → List String}
    {tasks : List (List Agent)} (horders : s.registry.Orders orders)
    (hperm : tasks.isPerm (chunk (s.due tick orders).2 size) = true) :
    Divides tasks (s.due tick orders).2 := by
  refine Divides.of_perm (List.isPerm_iff.mp hperm) (flatten_chunk _ _) ?_
  unfold due
  rw [due_eq_filter]
  exact (s.registry.nodup_list orders horders).sublist (List.filter_sublist.map _)

theorem find_due_of_registered {s : Timed} (tick : ℤ) {orders : ℕ → List String}
    (horders : s.registry.Orders orders) {id : String} {a : Agent}
    (hget : s.registry.get id = some a) :
    (s.due tick orders).1.written.find id =
      (s.snapshotter.written.find id).map fun w => { w with gen := s.snapshotter.gen + 1 } := by
  rw [due, find_due, if_pos (s.registry.mem_map_list horders hget)]

/-- What a snapshot does to one agent: it is written and recorded as the
registry holds it, or it was written less than a keepalive ago. -/
theorem pass_spec {s : Timed} {tick : ℤ} {size : ℕ} {orders : ℕ → List String}
    {tasks : List (List Agent)} (horders : s.registry.Orders orders)
    (hperm : tasks.isPerm (chunk (s.due tick orders).2 size) = true)
    (hrows : ∀ a ∈ (s.due tick orders).2, a.instanceUID ∈ s.db.agents.keys) (id : String) :
    (∃ a gen, s.registry.get id = some a ∧
        (s.pass tick orders tasks).snapshotter.written.find id = some ⟨a.lastSeen, gen⟩ ∧
        (s.pass tick orders tasks).db.sessions.find id =
          some (upsertSessionRow (s.db.sessions.find id) a)) ∨
      ((∀ a, s.registry.get id = some a → ∃ w, s.snapshotter.written.find id = some w ∧
          sub s.clock w.lastSeen <
            keepaliveInterval s.registry.cfg.disconnectThreshold tick) ∧
        (s.pass tick orders tasks).snapshotter.written.find id =
          (s.due tick orders).1.written.find id ∧
        (s.pass tick orders tasks).db.sessions.find id = s.db.sessions.find id) := by
  have hdue : ∀ a, a ∈ (s.due tick orders).2 ↔ s.registry.get a.instanceUID = some a ∧
      s.snapshotter.isDue (keepaliveInterval s.registry.cfg.disconnectThreshold tick) s.clock a =
        true := by
    intro a
    unfold due
    rw [due_eq_filter, List.mem_filter, s.registry.mem_list orders horders]
  have hok : ∀ a ∈ (s.due tick orders).2, Succeeds (fun _ => false) s.db a :=
    fun a ha => ⟨rfl, hrows a ha⟩
  rcases pass_of_all_succeed (divides_due horders hperm) (fun _ => false)
    { db := s.db, snapshotter := (s.due tick orders).1 } rfl hok id with
    ⟨a, ha, rfl, hwritten, hrow⟩ | ⟨hnone, hwritten, hrow⟩
  · exact Or.inl ⟨a, _, ((hdue a).mp ha).1, hwritten, hrow⟩
  · refine Or.inr ⟨fun a ha => ?_, hwritten, hrow⟩
    have hid := s.registry.get_keyed id a ha
    have hnot : s.snapshotter.isDue (keepaliveInterval s.registry.cfg.disconnectThreshold tick)
        s.clock a = false := by
      by_contra hdueNow
      exact hnone a ((hdue a).mpr ⟨hid ▸ ha, by simpa using hdueNow⟩) hid
    unfold isDue at hnot
    rw [hid] at hnot
    cases hw : s.snapshotter.written.find id with
    | none => simp [hw] at hnot
    | some w =>
      simp only [hw, Bool.not_eq_false', decide_eq_true_eq] at hnot
      exact ⟨w, rfl, hnot⟩

end Timed

/-- The agent's reports, ticks and session row keep pace with each other. -/
structure Fresh (cfg : Config) (tick : ℤ) (id : String) (s : Timed) : Prop where
  settings : s.registry.cfg = cfg
  heard : ∀ a, s.registry.get id = some a → s.clock ≤ a.lastSeen + cfg.heartbeatInterval
  registered : s.tracked id = true → (s.registry.get id).isSome
  young : ∀ w, s.snapshotter.written.find id = some w →
    s.clock ≤ s.nextTick ∧ s.nextTick ≤ w.lastSeen + cfg.heartbeatInterval + tick ∧
      ∃ row, s.db.sessions.find id = some row ∧ micros w.lastSeen ≤ row.updatedAt

section Run

variable {cfg : Config} {tick : ℤ} {size : ℕ} {id : String} {s : Timed}

theorem fresh_wait {now : ℤ} (hfresh : Fresh cfg tick id s) (hnow : now ≤ s.nextTick)
    (hheard : ((s.registry.get id).all fun a =>
      decide (now ≤ a.lastSeen + s.registry.cfg.heartbeatInterval)) = true) :
    Fresh cfg tick id { s with clock := now } where
  settings := hfresh.settings
  heard a ha := by
    rw [ha, hfresh.settings] at hheard
    simpa using hheard
  registered := hfresh.registered
  young w hw := by
    obtain ⟨_, hnext, hrow⟩ := hfresh.young w hw
    exact ⟨hnow, hnext, hrow⟩

theorem fresh_registry {op : Registry.Op} {q : Registry × List Event}
    (hpos : 0 < cfg.heartbeatInterval) (hfresh : Fresh cfg tick id s)
    (hop : s.registry.step op = some q) (hreads : op.reads s.clock = true)
    (hstays : (s.registry.get id).isSome → (q.1.get id).isSome) :
    Fresh cfg tick id { s with registry := q.1 } where
  settings := (Registry.cfg_step hop).trans hfresh.settings
  heard a ha := by
    change s.clock ≤ _
    rcases Registry.lastSeen_step hop hreads ha with hnow | ⟨b, hb, hsame⟩
    · omega
    · have hheard := hfresh.heard b hb
      omega
  registered h := hstays (hfresh.registered h)
  young := hfresh.young

theorem fresh_save {a : Agent} (hfresh : Fresh cfg tick id s) :
    Fresh cfg tick id { s with db := saveAgent s.db a } where
  settings := hfresh.settings
  heard := hfresh.heard
  registered := hfresh.registered
  young w hw := by
    obtain ⟨hclock, hnext, row, hrow, hle⟩ := hfresh.young w hw
    refine ⟨hclock, hnext, ?_⟩
    change ∃ row, (saveAgent s.db a).sessions.find id = some row ∧ _
    rw [sessions_saveAgent]
    obtain ⟨row', hrow', hmono⟩ := exists_session_upsert hrow a
    exact ⟨row', hrow', hle.trans hmono⟩

/-- A difference below the keepalive is a true difference. -/
theorem le_add_of_sub_lt {t u d bound : ℤ} (h : sub t u < d) (hd : d ≤ bound)
    (hbound : bound ≤ maxDuration) : t ≤ u + bound := by
  unfold sub at h
  omega

/-- A snapshot keeps pace if every entry it leaves is of a registered agent and
at most a heartbeat interval old. -/
theorem fresh_snapshotted {orders : ℕ → List String} {tasks : List (List Agent)}
    (htick : 0 < tick) (hfresh : Fresh cfg tick id s) (hclock : s.clock = s.nextTick)
    (hentry : ∀ w, (s.pass tick orders tasks).snapshotter.written.find id = some w →
      (s.registry.get id).isSome ∧ s.clock ≤ w.lastSeen + cfg.heartbeatInterval ∧
        ∃ row, (s.pass tick orders tasks).db.sessions.find id = some row ∧
          micros w.lastSeen ≤ row.updatedAt) :
    Fresh cfg tick id (s.snapshotted tick orders tasks) where
  settings := hfresh.settings
  heard := hfresh.heard
  registered h := by
    obtain ⟨w, hw⟩ := Option.isSome_iff_exists.mp h
    exact (hentry w hw).1
  young w hw := by
    obtain ⟨_, hold, hrow⟩ := hentry w hw
    have hclock' : s.clock ≤ s.nextTick + tick := by omega
    have hnext : s.nextTick + tick ≤ w.lastSeen + cfg.heartbeatInterval + tick := by omega
    exact ⟨hclock', hnext, hrow⟩

theorem Fresh.untracked (hfresh : Fresh cfg tick id s) (hget : s.registry.get id = none) :
    s.snapshotter.written.find id = none := by
  cases hw : s.snapshotter.written.find id with
  | none => rfl
  | some w =>
    have hsome := hfresh.registered (by simp [Timed.tracked, hw])
    rw [hget] at hsome
    cases hsome

theorem fresh_snapshot {orders : ℕ → List String} {tasks : List (List Agent)}
    (htick : 0 < tick) (hmax : cfg.heartbeatInterval ≤ maxDuration)
    (hkeep : keepaliveInterval cfg.disconnectThreshold tick ≤ cfg.heartbeatInterval)
    (hfresh : Fresh cfg tick id s) (hclock : s.clock = s.nextTick)
    (horders : s.registry.Orders orders)
    (hperm : tasks.isPerm (chunk (s.due tick orders).2 size) = true)
    (hrows : ∀ a ∈ (s.due tick orders).2, a.instanceUID ∈ s.db.agents.keys) :
    Fresh cfg tick id (s.snapshotted tick orders tasks) ∧
      (s.tracked id = true → (s.snapshotted tick orders tasks).tracked id = true) := by
  rcases Timed.pass_spec horders hperm hrows id with
    ⟨a, gen, ha, hwritten, hrow⟩ | ⟨hyoung, hwritten, hrow⟩
  · have hheard := hfresh.heard a ha
    refine ⟨fresh_snapshotted htick hfresh hclock fun w hw => ?_, fun _ => ?_⟩
    · rw [hwritten] at hw
      obtain rfl := Option.some.inj hw
      exact ⟨by simp [ha], hheard, _, hrow, (le_updatedAt_upsert none _ a).2⟩
    · simp [Timed.tracked, Timed.snapshotted, hwritten]
  · cases hget : s.registry.get id with
    | none =>
      have huntracked := hfresh.untracked hget
      have hgone : (s.pass tick orders tasks).snapshotter.written.find id = none := by
        rw [hwritten, Timed.due, find_due, huntracked]
        simp
      refine ⟨fresh_snapshotted htick hfresh hclock fun w hw => ?_, fun h => ?_⟩
      · rw [hgone] at hw
        cases hw
      · simp [Timed.tracked, huntracked] at h
    | some a =>
      obtain ⟨v, hv, hage⟩ := hyoung a hget
      rw [hfresh.settings] at hage
      have hclose := le_add_of_sub_lt hage hkeep hmax
      obtain ⟨_, _, row, hold, hle⟩ := hfresh.young v hv
      have hkept : (s.pass tick orders tasks).snapshotter.written.find id =
          some { v with gen := s.snapshotter.gen + 1 } := by
        rw [hwritten, Timed.find_due_of_registered tick horders hget, hv]
        rfl
      refine ⟨fresh_snapshotted htick hfresh hclock fun w hw => ?_, fun _ => ?_⟩
      · rw [hkept] at hw
        obtain rfl := Option.some.inj hw
        exact ⟨by simp [hget], hclose, row, hrow.trans hold, hle⟩
      · simp [Timed.tracked, Timed.snapshotted, hkept]

theorem fresh_step {a : Act} {s' : Timed} (htick : 0 < tick)
    (hpos : 0 < cfg.heartbeatInterval) (hmax : cfg.heartbeatInterval ≤ maxDuration)
    (hkeep : keepaliveInterval cfg.disconnectThreshold tick ≤ cfg.heartbeatInterval)
    (hfresh : Fresh cfg tick id s) (hstep : s.step tick size id a = some s') :
    Fresh cfg tick id s' ∧ (s.tracked id = true → s'.tracked id = true) := by
  cases a with
  | wait now =>
    simp only [Timed.step] at hstep
    split at hstep
    · rename_i hguard
      obtain rfl := Option.some.inj hstep
      exact ⟨fresh_wait hfresh hguard.2.1 hguard.2.2, fun h => h⟩
    · cases hstep
  | registry op =>
    obtain ⟨q, hop, hrest⟩ := Option.bind_eq_some_iff.mp hstep
    split at hrest
    · rename_i hguard
      obtain rfl := Option.some.inj hrest
      exact ⟨fresh_registry hpos hfresh hop hguard.1 hguard.2, fun h => h⟩
    · cases hrest
  | read k =>
    obtain rfl := Option.some.inj hstep
    exact ⟨⟨hfresh.settings, hfresh.heard, hfresh.registered, hfresh.young⟩, fun h => h⟩
  | save a =>
    simp only [Timed.step] at hstep
    split at hstep
    · obtain rfl := Option.some.inj hstep
      exact ⟨fresh_save hfresh, fun h => h⟩
    · cases hstep
  | snapshot orders tasks =>
    simp only [Timed.step] at hstep
    split at hstep
    · rename_i hguard
      obtain rfl := Option.some.inj hstep
      exact fresh_snapshot htick hmax hkeep hfresh hguard.1 hguard.2.1 hguard.2.2.1 hguard.2.2.2
    · cases hstep

theorem fresh_run {acts : List Act} {s' : Timed} (htick : 0 < tick)
    (hpos : 0 < cfg.heartbeatInterval) (hmax : cfg.heartbeatInterval ≤ maxDuration)
    (hkeep : keepaliveInterval cfg.disconnectThreshold tick ≤ cfg.heartbeatInterval)
    (hfresh : Fresh cfg tick id s) (hrun : run (Timed.step tick size id) s acts = some s') :
    Fresh cfg tick id s' ∧ (s.tracked id = true → s'.tracked id = true) := by
  refine run_invariant (fun u => Fresh cfg tick id u ∧ (s.tracked id = true → u.tracked id = true))
    ?_ ⟨hfresh, fun h => h⟩ hrun
  intro u a v hu hst
  obtain ⟨hv, htracked⟩ := fresh_step htick hpos hmax hkeep hu.1 hst
  exact ⟨hv, fun h => htracked (hu.2 h)⟩

theorem fresh_start (cfg : Config) (tick : ℤ) (id : String) (db : Database)
    (clock firstTick : ℤ) : Fresh cfg tick id (Timed.start cfg db clock firstTick) where
  settings := rfl
  heard a ha := by cases ha
  registered h := by cases h
  young w hw := by cases hw

/-- The stored row of a tracked agent is at most one report gap and one tick
old, and less than a microsecond more. -/
theorem Fresh.age_le {row : SessionRow} (hfresh : Fresh cfg tick id s)
    (htracked : s.tracked id = true) (hrow : s.db.sessions.find id = some row) :
    s.clock - Reads.readTime row.updatedAt ≤ cfg.heartbeatInterval + tick + 999 := by
  obtain ⟨w, hw⟩ := Option.isSome_iff_exists.mp htracked
  obtain ⟨hclock, hnext, row', hrow', hle⟩ := hfresh.young w hw
  rw [hrow] at hrow'
  obtain rfl := Option.some.inj hrow'
  have hmicros := micros_bounds w.lastSeen
  unfold Reads.readTime
  omega

end Run

/-- What a sibling makes of the stored agent depends on its session row only. -/
theorem stale_iff (s : Timed) (id : String) :
    s.stale id = true ↔ ∃ row, s.db.sessions.find id = some row ∧ row.connected = true ∧
      sub s.clock (Reads.readTime row.updatedAt) > s.registry.cfg.disconnectThreshold := by
  unfold Timed.stale Reads.storedAgent
  cases hrow : s.db.sessions.find id with
  | none => cases s.db.agents.find id <;> simp [Reads.scanAgent]
  | some row =>
    have hkey : id ∈ s.db.agents.keys :=
      s.db.session_fk id ((s.db.sessions.mem_keys_iff id).mpr ⟨row, hrow⟩)
    obtain ⟨agent, hagent⟩ := (s.db.agents.mem_keys_iff id).mp hkey
    simp [hagent, Reads.scanAgent, Reads.staleConnected]

/-- The keepalive never exceeds the heartbeat interval, unless the threshold
overflows. -/
theorem keepalive_le {cfg : Config} (tick : ℤ) (hpos : 0 < cfg.heartbeatInterval)
    (hlong : cfg.heartbeatInterval ≤ cfg.disconnectThreshold) :
    keepaliveInterval cfg.disconnectThreshold tick ≤ cfg.heartbeatInterval := by
  have hhalf : cfg.heartbeatInterval.tdiv 2 = cfg.heartbeatInterval / 2 :=
    Int.tdiv_eq_ediv_of_nonneg (by omega)
  have hthreshold : cfg.disconnectThreshold ≤ cfg.heartbeatInterval + cfg.heartbeatInterval / 2 := by
    unfold Config.disconnectThreshold
    rw [hhalf]
    exact int64_le_self (by omega)
  have hdouble : int64 (cfg.disconnectThreshold * 2) ≤ 3 * cfg.heartbeatInterval :=
    (int64_le_self (by omega)).trans (by omega)
  have hthird : (int64 (cfg.disconnectThreshold * 2)).tdiv 3 ≤ cfg.heartbeatInterval := by
    have hdiv := Int.tdiv_le_tdiv (by omega : (0 : ℤ) < 3) hdouble
    rwa [Int.mul_tdiv_cancel_left _ (by omega)] at hdiv
  unfold keepaliveInterval
  omega

/-- No agent ever reads as stale at a sibling once its session row was first
written, whenever in the first tick period the replica starts. -/
def NeverStale (cfg : Config) (tick : ℤ) (size : ℕ) : Prop :=
  ∀ (id : String) (db : Database) (clock firstTick : ℤ) (before after : List Act) (s s' : Timed),
    clock ≤ firstTick → firstTick ≤ clock + tick →
    run (Timed.step tick size id) (Timed.start cfg db clock firstTick) before = some s →
    s.tracked id = true → run (Timed.step tick size id) s after = some s' → s'.stale id = false

theorem neverStale_of_margin {cfg : Config} {tick : ℤ} (size : ℕ) (htick : 0 < tick)
    (hpos : 0 < cfg.heartbeatInterval) (hmax : cfg.heartbeatInterval ≤ maxDuration)
    (hmargin : cfg.heartbeatInterval + tick + 999 ≤ cfg.disconnectThreshold ∨
      cfg.disconnectThreshold = maxDuration) : NeverStale cfg tick size := by
  intro id db clock firstTick before after s s' _ _ hbefore htracked hafter
  by_contra hstale
  obtain ⟨row, hrow, _, hold⟩ := (stale_iff s' id).mp (Bool.eq_true_of_not_eq_false hstale)
  have hsub := sub_le_max s'.clock (Reads.readTime row.updatedAt)
  have hkeep : keepaliveInterval cfg.disconnectThreshold tick ≤ cfg.heartbeatInterval :=
    keepalive_le tick hpos (by omega)
  obtain ⟨hfresh, _⟩ :=
    fresh_run htick hpos hmax hkeep (fresh_start cfg tick id db clock firstTick) hbefore
  obtain ⟨hfresh', hkept⟩ := fresh_run htick hpos hmax hkeep hfresh hafter
  have hage := hfresh'.age_le (hkept htracked) hrow
  rw [hfresh'.settings] at hold
  unfold sub minDuration at hold
  omega

/-! ### Runs in which a row grows as old as it can -/

section Worst

variable {cfg : Config} (tick : ℤ) (size : ℕ)

/-- The agent reports and time passes until its next report at the latest. -/
theorem run_heartbeat (s : Timed) (t : ℤ) (hclock : s.clock ≤ t) (htick : t ≤ s.nextTick)
    (hgap : t ≤ s.clock + s.registry.cfg.heartbeatInterval) :
    run (Timed.step tick size zeroUID) s
        [.registry (.report s.clock heartbeat {}), .wait t] =
      some { s with registry := (s.registry.report s.clock heartbeat {}).1, clock := t } := by
  have hget := s.registry.get_heartbeat s.clock zeroUID
  rw [if_pos rfl] at hget
  have hcfg := s.registry.cfg_report s.clock heartbeat {}
  have hseen := (reported_presence s.registry.cfg s.clock heartbeat {}
    (found zeroUID s.clock (s.registry.get zeroUID))).2.1
  simp [run, Timed.step, Registry.step, Registry.Op.reads, hget, hcfg, hseen, hclock, htick, hgap]

/-- A reporting agent can be kept reporting up to the next tick. -/
theorem exists_run_to_tick (hpos : 0 < cfg.heartbeatInterval) (n : ℕ) (s : Timed)
    (hcfg : s.registry.cfg = cfg) (hclock : s.clock ≤ s.nextTick)
    (hn : (s.nextTick - s.clock).toNat ≤ n) :
    ∃ acts s', run (Timed.step tick size zeroUID) s acts = some s' ∧ s'.clock = s.nextTick ∧
      s'.db = s.db ∧ s'.registry.cfg = cfg := by
  induction n generalizing s with
  | zero => exact ⟨[], s, rfl, by omega, rfl, hcfg⟩
  | succ n ih =>
    have hround := run_heartbeat tick size s
      (min (s.clock + cfg.heartbeatInterval) s.nextTick) (by omega) (by omega) (by
        rw [hcfg]
        omega)
    have hnext := (s.registry.cfg_report s.clock heartbeat {}).trans hcfg
    obtain ⟨acts, s', hrun, hfinal⟩ := ih
      { s with
        registry := (s.registry.report s.clock heartbeat {}).1
        clock := min (s.clock + cfg.heartbeatInterval) s.nextTick }
      hnext (by change min _ _ ≤ s.nextTick; omega) (by
        change (s.nextTick - min _ _).toNat ≤ n
        omega)
    exact ⟨_, s', run_append_eq_some.mpr ⟨_, hround, hrun⟩, hfinal⟩

/-- The registry after its first report, at 999 ns. -/
def firstHeard (cfg : Config) : Registry := ((Registry.new cfg).report 999 heartbeat {}).1

def firstAgent (cfg : Config) : Agent := reported cfg 999 heartbeat {} (registered zeroUID 999)

theorem get_firstHeard (cfg : Config) (id : String) :
    (firstHeard cfg).get id = if id = zeroUID then some (firstAgent cfg) else none :=
  Registry.get_heardOnce cfg 999 id

theorem get_firstAgent (cfg : Config) : (firstHeard cfg).get zeroUID = some (firstAgent cfg) :=
  Registry.get_heardOnce_self cfg 999

theorem uid_firstAgent (cfg : Config) : (firstAgent cfg).instanceUID = zeroUID :=
  (firstHeard cfg).get_keyed zeroUID _ (get_firstAgent cfg)

theorem cfg_firstHeard (cfg : Config) : (firstHeard cfg).cfg = cfg :=
  Registry.cfg_heardOnce cfg 999

theorem lastSeen_firstAgent (cfg : Config) : (firstAgent cfg).lastSeen = 999 :=
  Registry.lastSeen_heardAgent cfg 999

theorem connected_firstAgent (cfg : Config) : (firstAgent cfg).connected = true :=
  Registry.connected_heardAgent cfg 999

/-- The agent has been flushed and the first tick is due. -/
def firstFlushed (cfg : Config) (firstTick : ℤ) : Timed where
  clock := firstTick
  nextTick := firstTick
  registry := firstHeard cfg
  taken := [firstAgent cfg]
  db := saveAgent Database.empty (firstAgent cfg)

theorem run_to_firstFlushed (cfg : Config) (firstTick : ℤ) (hfirst : 999 ≤ firstTick)
    (hgap : firstTick ≤ 999 + cfg.heartbeatInterval) :
    run (Timed.step tick size zeroUID) (Timed.start cfg Database.empty 999 firstTick)
        ([.registry (.report 999 heartbeat {}), .wait firstTick] ++
          [.read zeroUID, .save (firstAgent cfg)]) = some (firstFlushed cfg firstTick) := by
  have hbeat := run_heartbeat tick size (Timed.start cfg Database.empty 999 firstTick) firstTick
    hfirst (le_refl _) hgap
  refine run_append_eq_some.mpr ⟨_, hbeat, ?_⟩
  have hget : (((Registry.new cfg).report 999 heartbeat {}).1).get zeroUID =
      some (firstAgent cfg) := get_firstAgent cfg
  simp [run, Timed.step, Timed.start, hget, firstFlushed, firstHeard]

/-- The agent has been flushed and has not reported again. -/
structure Silent (cfg : Config) (s : Timed) : Prop where
  registry : s.registry = firstHeard cfg
  saved : zeroUID ∈ s.db.agents.keys
  row : s.db.sessions.find zeroUID = some (sessionRow (firstAgent cfg))

theorem silent_firstFlushed (cfg : Config) (firstTick : ℤ) :
    Silent cfg (firstFlushed cfg firstTick) where
  registry := rfl
  saved := by
    change zeroUID ∈ (saveAgent Database.empty (firstAgent cfg)).agents.keys
    rw [agents_saveAgent, uid_firstAgent, FinMap.mem_keys, FinMap.find_set_self]
    rfl
  row := by
    change (saveAgent Database.empty (firstAgent cfg)).sessions.find zeroUID = _
    rw [sessions_saveAgent, uid_firstAgent, FinMap.find_set_self]
    rfl

/-- Whatever is due has been flushed before. -/
theorem Silent.rows {s : Timed} (hs : Silent cfg s) {orders : ℕ → List String}
    (horders : s.registry.Orders orders) :
    ∀ b ∈ (s.due tick orders).2, b.instanceUID ∈ s.db.agents.keys := by
  intro b hb
  unfold Timed.due at hb
  rw [due_eq_filter, List.mem_filter] at hb
  have hget := (s.registry.mem_list orders horders b).mp hb.1
  rw [hs.registry, get_firstHeard] at hget
  split at hget
  · rename_i hzero
    rw [hzero]
    exact hs.saved
  · cases hget

theorem step_snapshot (id : String) {s : Timed} {orders : ℕ → List String}
    {tasks : List (List Agent)} (hclock : s.clock = s.nextTick)
    (horders : s.registry.Orders orders)
    (hperm : tasks.isPerm (chunk (s.due tick orders).2 size) = true)
    (hrows : ∀ a ∈ (s.due tick orders).2, a.instanceUID ∈ s.db.agents.keys) :
    s.step tick size id (.snapshot orders tasks) = some (s.snapshotted tick orders tasks) :=
  if_pos ⟨hclock, horders, hperm, hrows⟩

/-- A snapshot of a silent agent writes its only check-in once more, or nothing. -/
theorem silent_snapshot {s : Timed} (hs : Silent cfg s) (hclock : s.clock = s.nextTick) :
    ∃ orders tasks,
      s.step tick size zeroUID (.snapshot orders tasks) = some (s.snapshotted tick orders tasks) ∧
      Silent cfg (s.snapshotted tick orders tasks) ∧
      (s.snapshotted tick orders tasks).tracked zeroUID = true := by
  obtain ⟨orders, horders⟩ := s.registry.exists_orders
  have hrows := hs.rows tick horders
  have hperm := List.isPerm_iff.mpr (List.Perm.refl (chunk (s.due tick orders).2 size))
  have hget : s.registry.get zeroUID = some (firstAgent cfg) := by
    rw [hs.registry, get_firstAgent]
  have hsaved : zeroUID ∈ (s.pass tick orders (chunk (s.due tick orders).2 size)).db.agents.keys := by
    unfold Timed.pass
    rw [agents_writeTasks]
    exact hs.saved
  refine ⟨orders, _, step_snapshot tick size zeroUID hclock horders hperm hrows, ?_⟩
  rcases Timed.pass_spec horders hperm hrows zeroUID with
    ⟨b, gen, hb, hwritten, hrow⟩ | ⟨htracked, hwritten, hrow⟩
  · obtain rfl : firstAgent cfg = b := Option.some.inj (hget.symm.trans hb)
    have hagain : upsertSessionRow (some (sessionRow (firstAgent cfg))) (firstAgent cfg) =
        sessionRow (firstAgent cfg) := by simp [upsertSessionRow]
    rw [hs.row, hagain] at hrow
    refine ⟨⟨hs.registry, hsaved, hrow⟩, ?_⟩
    simp [Timed.tracked, Timed.snapshotted, hwritten]
  · refine ⟨⟨hs.registry, hsaved, hrow.trans hs.row⟩, ?_⟩
    obtain ⟨w, hw, _⟩ := htracked (firstAgent cfg) hget
    rw [Timed.find_due_of_registered tick horders hget, hw] at hwritten
    simp [Timed.tracked, Timed.snapshotted, hwritten]

/-- The agent stays silent for as long as it may, over any number of ticks. -/
theorem exists_silent_run (htick : 0 < tick) (k : ℕ) (s : Timed) (hs : Silent cfg s)
    (hclock : s.clock = s.nextTick)
    (hlast : s.nextTick + k * tick = 999 + cfg.heartbeatInterval) :
    ∃ acts s', run (Timed.step tick size zeroUID) s acts = some s' ∧ Silent cfg s' ∧
      s'.tracked zeroUID = true ∧ s'.clock = 999 + cfg.heartbeatInterval ∧
      s'.nextTick = s'.clock + tick := by
  induction k generalizing s with
  | zero =>
    obtain ⟨orders, tasks, hstep, hs', htracked⟩ := silent_snapshot tick size hs hclock
    have hend : s.clock = 999 + cfg.heartbeatInterval := by
      rw [hclock]
      simpa using hlast
    have hnext : s.nextTick + tick = s.clock + tick := by rw [hclock]
    exact ⟨_, _, run_cons_eq_some.mpr ⟨_, hstep, run_nil _⟩, hs', htracked, hend, hnext⟩
  | succ k ih =>
    obtain ⟨orders, tasks, hstep, hs', _⟩ := silent_snapshot tick size hs hclock
    have hrest : s.nextTick + tick + k * tick = 999 + cfg.heartbeatInterval := by
      rw [← hlast]
      push_cast
      ring
    have hgap : s.nextTick + tick ≤ 999 + cfg.heartbeatInterval := by
      have hk : 0 ≤ (k : ℤ) * tick := Int.mul_nonneg (Int.natCast_nonneg k) htick.le
      omega
    have hwait : (s.snapshotted tick orders tasks).step tick size zeroUID
        (.wait (s.nextTick + tick)) =
          some { s.snapshotted tick orders tasks with clock := s.nextTick + tick } := by
      refine if_pos ⟨?_, le_refl _, ?_⟩
      · change s.clock ≤ s.nextTick + tick
        omega
      · rw [hs'.registry, get_firstAgent, cfg_firstHeard]
        simpa [lastSeen_firstAgent] using hgap
    obtain ⟨acts, s', hrun, hend⟩ :=
      ih { s.snapshotted tick orders tasks with clock := s.nextTick + tick }
        ⟨hs'.registry, hs'.saved, hs'.row⟩ rfl hrest
    exact ⟨_, s', run_cons_eq_some.mpr ⟨_, hstep, run_cons_eq_some.mpr ⟨_, hwait, hrun⟩⟩, hend⟩

/-- Some first tick makes a later one fall exactly one heartbeat interval after
the report; its snapshot still writes that report. -/
theorem exists_run_to_last_write (cfg : Config) (hpos : 0 < cfg.heartbeatInterval)
    (htick : 0 < tick) :
    ∃ firstTick acts s, 999 ≤ firstTick ∧ firstTick ≤ 999 + tick ∧
      run (Timed.step tick size zeroUID) (Timed.start cfg Database.empty 999 firstTick) acts =
        some s ∧
      Silent cfg s ∧ s.tracked zeroUID = true ∧ s.clock = 999 + cfg.heartbeatInterval ∧
      s.nextTick = s.clock + tick := by
  have hdiv := Int.mul_ediv_add_emod (cfg.heartbeatInterval - 1) tick
  have hmod := Int.emod_nonneg (cfg.heartbeatInterval - 1) htick.ne'
  have hlt := Int.emod_lt_of_pos (cfg.heartbeatInterval - 1) htick
  obtain ⟨k, hk⟩ := Int.eq_ofNat_of_zero_le
    (Int.ediv_nonneg (by omega : 0 ≤ cfg.heartbeatInterval - 1) htick.le)
  rw [hk, mul_comm] at hdiv
  have hticks : 0 ≤ (k : ℤ) * tick := Int.mul_nonneg (Int.natCast_nonneg k) htick.le
  have hlast : 1000 + (cfg.heartbeatInterval - 1) % tick + k * tick =
      999 + cfg.heartbeatInterval := by omega
  obtain ⟨acts, s, hrun, hend⟩ := exists_silent_run tick size htick k
    (firstFlushed cfg (1000 + (cfg.heartbeatInterval - 1) % tick)) (silent_firstFlushed cfg _)
    rfl hlast
  exact ⟨_, _, s, by omega, by omega, run_append_eq_some.mpr
    ⟨_, run_to_firstFlushed tick size cfg _ (by omega) (by omega), hrun⟩, hend⟩

/-- One tick later the row is one heartbeat interval, one tick and 999 ns old. -/
theorem exists_stale_of_no_margin (cfg : Config) (hpos : 0 < cfg.heartbeatInterval)
    (htick : 0 < tick) (hshort : cfg.disconnectThreshold < cfg.heartbeatInterval + tick + 999)
    (hbelow : cfg.disconnectThreshold < maxDuration) : ¬ NeverStale cfg tick size := by
  intro hnever
  obtain ⟨firstTick, before, s, hfirst, hphase, hbefore, hs, htracked, hclock, hnext⟩ :=
    exists_run_to_last_write tick size cfg hpos htick
  have hcfg : s.registry.cfg = cfg := by rw [hs.registry, cfg_firstHeard]
  obtain ⟨after, s', hafter, hclock', hdb, hcfg'⟩ :=
    exists_run_to_tick tick size hpos _ s hcfg (by omega) (le_refl _)
  have hzero : Reads.readTime (sessionRow (firstAgent cfg)).updatedAt = 0 := by
    change micros (firstAgent cfg).lastSeen * 1000 = 0
    rw [lastSeen_firstAgent]
    rfl
  have hold : sub s'.clock 0 > cfg.disconnectThreshold := by
    unfold sub
    omega
  have hstale : s'.stale zeroUID = true := by
    refine (stale_iff s' zeroUID).mpr ⟨_, hdb ▸ hs.row, connected_firstAgent cfg, ?_⟩
    rw [hzero, hcfg']
    exact hold
  rw [hnever zeroUID Database.empty _ _ before after s s' hfirst hphase hbefore htracked hafter]
    at hstale
  cases hstale

end Worst

/-- A healthy agent never reads as disconnected at a sibling exactly if the
disconnect threshold leaves room for a report gap, a tick and 999 ns, or is the
longest duration there is. -/
theorem never_stale_iff_margin (cfg : Config) (tick : ℤ) (size : ℕ)
    (hpos : 0 < cfg.heartbeatInterval) (hmax : cfg.heartbeatInterval ≤ maxDuration)
    (htick : 0 < tick) :
    NeverStale cfg tick size ↔
      cfg.heartbeatInterval + tick + 999 ≤ cfg.disconnectThreshold ∨
        cfg.disconnectThreshold = maxDuration := by
  constructor
  · intro hnever
    by_contra hnot
    have hbounds : cfg.disconnectThreshold ≤ maxDuration := (int64_bounds _).2
    exact exists_stale_of_no_margin tick size cfg hpos htick (by omega) (by omega) hnever
  · exact neverStale_of_margin size htick hpos hmax

/-- A fleet with a threshold of 9 s. -/
def tight : Config where
  heartbeatInterval := 6000000000
  staleMissedHeartbeats := 3
  shardCount := 1

/-- Its only agent, heard at time 0. -/
def quiet : Agent := touched 0 heartbeat {} (registered zeroUID 0)

/-- A tick of 4 s and a keepalive of 5 s: a report at 0 s is written at 1.5 s and
again at 5.5 s, just before the next report at 6 s. At 9.2 s, before the next
tick, the agent reads as disconnected. -/
theorem healthy_agent_reads_stale :
    keepaliveInterval tight.disconnectThreshold 4000000000 = 5000000000 ∧
    ∃ s, run (Timed.step 4000000000 defaultBatchSize zeroUID)
        (Timed.start tight Database.empty 0 1500000000)
        [.registry (.report 0 heartbeat {}), .read zeroUID, .save quiet, .wait 1500000000,
          .snapshot (fun _ => [zeroUID]) [[quiet]]] = some s ∧ s.tracked zeroUID = true ∧
      ∃ s', run (Timed.step 4000000000 defaultBatchSize zeroUID) s
          [.wait 5500000000, .snapshot (fun _ => [zeroUID]) [[quiet]], .wait 6000000000,
            .registry (.report 6000000000 heartbeat {}), .wait 9200000000] = some s' ∧
        s'.stale zeroUID = true := by
  have hruns : ∃ s, run (Timed.step 4000000000 defaultBatchSize zeroUID)
      (Timed.start tight Database.empty 0 1500000000)
      [.registry (.report 0 heartbeat {}), .read zeroUID, .save quiet, .wait 1500000000,
        .snapshot (fun _ => [zeroUID]) [[quiet]]] = some s ∧ s.tracked zeroUID = true ∧
      (run (Timed.step 4000000000 defaultBatchSize zeroUID) s
        [.wait 5500000000, .snapshot (fun _ => [zeroUID]) [[quiet]], .wait 6000000000,
          .registry (.report 6000000000 heartbeat {}), .wait 9200000000]).any fun s' =>
          decide (s'.stale zeroUID = true) := by
    apply exists_run_of_any
    decide +kernel
  obtain ⟨s, hs, htracked, hnext⟩ := hruns
  exact ⟨by decide, s, hs, htracked, exists_run_of_any hnext⟩

/-- The default fleet: heartbeats every 30 s, a snapshot every 5 s. -/
theorem never_stale_by_default :
    NeverStale { heartbeatInterval := 30000000000, staleMissedHeartbeats := 3 } 5000000000
      defaultBatchSize :=
  (never_stale_iff_margin { heartbeatInterval := 30000000000, staleMissedHeartbeats := 3 }
    5000000000 defaultBatchSize (by decide) (by decide) (by decide)).mpr (Or.inl (by decide))

end Grex.Keepalive
