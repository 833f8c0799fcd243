import Grex.AgentProgram

/-!
The sharded registry. Each agent lives in the shard its instance uid hashes
to, under its own uid; both facts are fields, so no operation can misplace an
agent. Every operation is a slot program run in place, and its effect is
described through `get`, which hides the shards.
-/

namespace Grex.Registry

open GoTime AgentState Message AgentProgram

/-- The 32-bit FNV-1a hash of the id's bytes. -/
def fnv32a (id : String) : UInt32 :=
  id.toUTF8.data.toList.foldl (fun h b => (h ^^^ b.toUInt32) * 16777619) 2166136261

/-- The remainder is taken in 32 bits. -/
def shardIndex (count : ℕ) (id : String) : ℕ := (fnv32a id % UInt32.ofNat count).toNat

theorem shardIndex_lt {count : ℕ} (hpos : 0 < count) (id : String) : shardIndex count id < count := by
  have hhash := (fnv32a id).toNat_lt
  unfold shardIndex
  rw [UInt32.toNat_mod, UInt32.toNat_ofNat']
  have hle := Nat.mod_le count (2 ^ 32)
  rcases Nat.eq_zero_or_pos (count % 2 ^ 32) with hzero | hsome
  · have hlarge : 2 ^ 32 ≤ count := Nat.le_of_dvd hpos (Nat.dvd_of_mod_eq_zero hzero)
    rw [hzero, Nat.mod_zero]
    omega
  · have hlt := Nat.mod_lt (fnv32a id).toNat hsome
    omega

theorem shardIndex_eq_mod {count : ℕ} (hcount : count < 2 ^ 32) (id : String) :
    shardIndex count id = (fnv32a id).toNat % count := by
  unfold shardIndex
  rw [UInt32.toNat_mod, UInt32.toNat_ofNat', Nat.mod_eq_of_lt hcount]

end Registry

open AgentState Message AgentProgram Registry in
/-- Shards at or past `count` are empty, because no id is routed there. -/
structure Registry where
  cfg : Config
  count : ℕ
  count_pos : 0 < count
  shards : ℕ → FinMap String Agent
  routed : ∀ i id, id ∈ (shards i).keys → shardIndex count id = i
  keyed : ∀ i id, Keyed id ((shards i).find id)

namespace Registry

open GoTime AgentState Message AgentProgram

def shardFor (r : Registry) (id : String) : ℕ := shardIndex r.count id

theorem shardFor_lt (r : Registry) (id : String) : r.shardFor id < r.count :=
  shardIndex_lt r.count_pos id

/-- An empty registry; a shard count that is not positive means the default. -/
def new (cfg : Config) : Registry where
  cfg := cfg
  count := if cfg.shardCount ≤ 0 then defaultShardCount else cfg.shardCount.toNat
  count_pos := by
    unfold defaultShardCount
    split <;> omega
  shards _ := ∅
  routed i id h := by simp at h
  keyed i id a h := by simp at h

def get (r : Registry) (id : String) : Option Agent := (r.shards (r.shardFor id)).find id

theorem get_keyed (r : Registry) (id : String) : Keyed id (r.get id) :=
  r.keyed (r.shardFor id) id

@[simp] theorem get_new (cfg : Config) (id : String) : (new cfg).get id = none := rfl

/-- A shard holds exactly the registered agents that are routed to it. -/
theorem find_shard (r : Registry) (i : ℕ) (id : String) :
    (r.shards i).find id = if r.shardFor id = i then r.get id else none := by
  by_cases hi : r.shardFor id = i
  · subst hi
    rw [if_pos rfl]
    rfl
  · rw [if_neg hi]
    apply ((r.shards i).find_eq_none id).mpr
    intro hmem
    exact hi (r.routed i id hmem)

theorem mem_shard_keys (r : Registry) (i : ℕ) (id : String) :
    id ∈ (r.shards i).keys ↔ r.shardFor id = i ∧ (r.get id).isSome := by
  rw [(r.shards i).mem_keys, find_shard]
  by_cases hi : r.shardFor id = i
  · simp [hi]
  · simp [hi]

/-- Overwrite one agent's slot in the shard that owns it. -/
def put (r : Registry) (id : String) (slot : Option Agent) (hslot : Keyed id slot) : Registry where
  cfg := r.cfg
  count := r.count
  count_pos := r.count_pos
  shards := Function.update r.shards (r.shardFor id) ((r.shards (r.shardFor id)).set id slot)
  routed i j hj := by
    by_cases hi : i = r.shardFor id
    · subst hi
      rw [Function.update_self, FinMap.mem_keys, FinMap.find_set] at hj
      by_cases hji : j = id
      · rw [hji]
        rfl
      · rw [if_neg hji, ← FinMap.mem_keys] at hj
        exact r.routed _ j hj
    · rw [Function.update_of_ne hi] at hj
      exact r.routed i j hj
  keyed i j := by
    by_cases hi : i = r.shardFor id
    · subst hi
      rw [Function.update_self, FinMap.find_set]
      by_cases hji : j = id
      · rw [if_pos hji, hji]
        exact hslot
      · rw [if_neg hji]
        exact r.keyed _ j
    · rw [Function.update_of_ne hi]
      exact r.keyed i j

@[simp] theorem cfg_put (r : Registry) (id : String) (slot : Option Agent)
    (h : Keyed id slot) : (r.put id slot h).cfg = r.cfg := rfl

@[simp] theorem shardFor_put (r : Registry) (id j : String) (slot : Option Agent)
    (h : Keyed id slot) : (r.put id slot h).shardFor j = r.shardFor j := rfl

theorem get_put (r : Registry) (id j : String) (slot : Option Agent) (h : Keyed id slot) :
    (r.put id slot h).get j = if j = id then slot else r.get j := by
  unfold get
  rw [shardFor_put]
  by_cases hj : j = id
  · subst hj
    simp [put]
  · rw [if_neg hj]
    by_cases hshard : r.shardFor j = r.shardFor id
    · simp only [put, hshard, Function.update_self]
      exact FinMap.find_set_of_ne _ _ hj
    · simp only [put, Function.update_of_ne hshard]

/-- Run one stage in place and return the notifications it fires. -/
def exec (r : Registry) {id : String} (st : Stage id) : Registry × List Event :=
  (r.put id (st.run (r.get id)).1 (st.keeps _ (r.get_keyed id)), (st.run (r.get id)).2)

theorem get_exec (r : Registry) {id : String} (st : Stage id) (j : String) :
    (r.exec st).1.get j = if j = id then (st.run (r.get id)).1 else r.get j :=
  get_put r id j _ (st.keeps _ (r.get_keyed id))

/-- Run a whole slot program in place. -/
def execAll (r : Registry) {id : String} (p : List (Stage id)) : Registry × List Event :=
  (r.put id (runProgram p (r.get id)).1 (runProgram_keyed p _ (r.get_keyed id)),
    (runProgram p (r.get id)).2)

theorem get_execAll (r : Registry) {id : String} (p : List (Stage id)) (j : String) :
    (r.execAll p).1.get j = if j = id then (runProgram p (r.get id)).1 else r.get j :=
  get_put r id j _ (runProgram_keyed p _ (r.get_keyed id))

theorem eventsOf_execAll (r : Registry) {id : String} (p : List (Stage id)) (j : String) :
    eventsOf j (r.execAll p).2 = if j = id then (runProgram p (r.get id)).2 else [] := by
  have habout := runProgram_about p _ (r.get_keyed id)
  by_cases hj : j = id
  · rw [if_pos hj, hj]
    exact eventsOf_eq_self habout
  · rw [if_neg hj]
    exact eventsOf_eq_nil habout hj

/-! ### Operations -/

/-- Messages with an invalid uid are dropped. -/
def report (r : Registry) (now : ℤ) (msg : AgentToServer) (conn : ConnMeta) :
    Registry × List Event :=
  match instanceUID msg.instanceUid with
  | .error _ => (r, [])
  | .ok id => r.execAll (reportProgram r.cfg id now msg conn)

def setConnected (r : Registry) (id : String) (connected : Bool) : Registry × List Event :=
  r.execAll (setConnectedProgram id connected)

/-- The sweep of one shard, under that shard's lock, in the iteration order of
its map. -/
def sweepShard (r : Registry) (now : ℤ) : List String → Registry × List Event
  | [] => (r, [])
  | id :: order =>
      let (swept, fired) := r.execAll (sweepProgram r.cfg id now)
      let (final, rest) := swept.sweepShard now order
      (final, fired ++ rest)

/-- The first `n` shards, one after another. -/
def sweepShards (r : Registry) (now : ℤ) (orders : ℕ → List String) : ℕ → Registry × List Event
  | 0 => (r, [])
  | n + 1 =>
      let (swept, fired) := r.sweepShards now orders n
      let (final, rest) := swept.sweepShard now (orders n)
      (final, fired ++ rest)

def sweep (r : Registry) (now : ℤ) (orders : ℕ → List String) : Registry × List Event :=
  r.sweepShards now orders r.count

/-- The ids `Sweep` returns are those it announces as evicted. -/
def evictedIds (events : List Event) : List String :=
  events.filterMap fun
    | .agentEvicted id => some id
    | _ => none

theorem count_evictedIds (events : List Event) (id : String) :
    (evictedIds events).count id = events.count (.agentEvicted id) := by
  induction events with
  | nil => rfl
  | cons e events ih =>
    cases e with
    | agentEvicted k =>
      change (k :: evictedIds events).count id = _
      rw [List.count_cons, List.count_cons, ih]
      simp
    | _ =>
      change (evictedIds events).count id = _
      rw [ih, List.count_cons_of_ne]
      simp

theorem mem_evictedIds {events : List Event} {id : String} :
    id ∈ evictedIds events ↔ .agentEvicted id ∈ events := by
  rw [← List.count_pos_iff, count_evictedIds, List.count_pos_iff]

/-- Every shard is walked in an order that visits each of its keys once. -/
def Orders (r : Registry) (orders : ℕ → List String) : Prop :=
  ∀ i, i < r.count → FinMap.Enumerates (orders i) (r.shards i).keys

/-- What a sweep does to one slot. -/
def sweptSlot (cfg : Config) (id : String) (now : ℤ) (slot : Option Agent) : Option Agent :=
  (runProgram (sweepProgram cfg id now) slot).1

@[simp] theorem sweptSlot_none (cfg : Config) (id : String) (now : ℤ) :
    sweptSlot cfg id now none = none := rfl

theorem cfg_sweepShard (r : Registry) (now : ℤ) (order : List String) :
    (r.sweepShard now order).1.cfg = r.cfg := by
  induction order generalizing r with
  | nil => rfl
  | cons id order ih => exact ih (r.execAll (sweepProgram r.cfg id now)).1

theorem count_sweepShard (r : Registry) (now : ℤ) (order : List String) :
    (r.sweepShard now order).1.count = r.count := by
  induction order generalizing r with
  | nil => rfl
  | cons id order ih => exact ih (r.execAll (sweepProgram r.cfg id now)).1

/-- Each visited agent is swept once; the others are left alone. -/
theorem get_sweepShard (r : Registry) (now : ℤ) (order : List String) (hnodup : order.Nodup)
    (id : String) :
    (r.sweepShard now order).1.get id =
      if id ∈ order then sweptSlot r.cfg id now (r.get id) else r.get id := by
  induction order generalizing r with
  | nil => rfl
  | cons j order ih =>
    have hj : j ∉ order := (List.nodup_cons.mp hnodup).1
    have htail := ih (r.execAll (sweepProgram r.cfg j now)).1 (List.nodup_cons.mp hnodup).2
    change ((r.execAll (sweepProgram r.cfg j now)).1.sweepShard now order).1.get id = _
    rw [htail, get_execAll]
    by_cases hid : id = j
    · subst hid
      simp only [if_pos, List.mem_cons, true_or, if_neg hj]
      rfl
    · simp only [List.mem_cons, hid, false_or]
      rfl

/-- The walk of a whole shard meets every registered agent routed to it: what is done
to those it meets is done to all of the shard, if it is nothing for an empty slot. -/
theorem ite_mem_order {β : Type*} (r : Registry) {i : ℕ} {order : List String}
    (horder : FinMap.Enumerates order (r.shards i).keys) {id : String} {met passed : β}
    (hnone : r.get id = none → met = passed) :
    (if id ∈ order then met else passed) = if r.shardFor id = i then met else passed := by
  have hmem : id ∈ order ↔ r.shardFor id = i ∧ (r.get id).isSome :=
    (horder.mem_iff id).trans (r.mem_shard_keys i id)
  by_cases hshard : r.shardFor id = i
  · rw [if_pos hshard]
    cases hget : r.get id with
    | none => rw [hnone hget, ite_self]
    | some a =>
      have hin : id ∈ order := hmem.mpr ⟨hshard, by simp [hget]⟩
      rw [if_pos hin]
  · have hout : id ∉ order := fun h => hshard (hmem.mp h).1
    rw [if_neg hshard, if_neg hout]

/-- Sweeping a whole shard sweeps every agent routed to it. -/
theorem get_sweepShard_enumerates (r : Registry) (now : ℤ) (i : ℕ) (order : List String)
    (horder : FinMap.Enumerates order (r.shards i).keys) (id : String) :
    (r.sweepShard now order).1.get id =
      if r.shardFor id = i then sweptSlot r.cfg id now (r.get id) else r.get id := by
  rw [get_sweepShard r now order horder.nodup]
  apply r.ite_mem_order horder
  intro hnone
  rw [hnone, sweptSlot_none]

theorem cfg_sweepShards (r : Registry) (now : ℤ) (orders : ℕ → List String) (n : ℕ) :
    (r.sweepShards now orders n).1.cfg = r.cfg := by
  induction n with
  | zero => rfl
  | succ n ih => exact (cfg_sweepShard _ now (orders n)).trans ih

theorem count_sweepShards (r : Registry) (now : ℤ) (orders : ℕ → List String) (n : ℕ) :
    (r.sweepShards now orders n).1.count = r.count := by
  induction n with
  | zero => rfl
  | succ n ih => exact (count_sweepShard _ now (orders n)).trans ih

theorem shardFor_sweepShards (r : Registry) (now : ℤ) (orders : ℕ → List String) (n : ℕ)
    (id : String) : (r.sweepShards now orders n).1.shardFor id = r.shardFor id := by
  unfold shardFor
  rw [count_sweepShards]

/-- A shard whose agents are all in place is walked in the same orders. -/
theorem enumerates_of_same {r r' : Registry} {n : ℕ} {order : List String}
    (horder : FinMap.Enumerates order (r.shards n).keys)
    (hshard : ∀ id, r'.shardFor id = r.shardFor id)
    (hget : ∀ id, r.shardFor id = n → r'.get id = r.get id) :
    FinMap.Enumerates order (r'.shards n).keys := by
  refine ⟨horder.nodup, fun id => ?_⟩
  rw [horder.mem_iff id, mem_shard_keys, mem_shard_keys, hshard]
  by_cases hid : r.shardFor id = n
  · rw [hget id hid]
  · simp [hid]

theorem get_sweepShards (r : Registry) (now : ℤ) (orders : ℕ → List String)
    (horders : r.Orders orders) (n : ℕ) (hn : n ≤ r.count) (id : String) :
    (r.sweepShards now orders n).1.get id =
      if r.shardFor id < n then sweptSlot r.cfg id now (r.get id) else r.get id := by
  induction n generalizing id with
  | zero => rfl
  | succ n ih =>
    have hprev := ih (by omega)
    have hkeys := enumerates_of_same (horders n (by omega)) (shardFor_sweepShards r now orders n)
      fun j hj => (hprev j).trans (if_neg (by omega))
    have hstep := get_sweepShard_enumerates _ now n (orders n) hkeys id
    change ((r.sweepShards now orders n).1.sweepShard now (orders n)).1.get id = _
    rw [hstep, shardFor_sweepShards, cfg_sweepShards, hprev id]
    by_cases hshard : r.shardFor id = n
    · rw [if_pos hshard, if_neg (by omega), if_pos (by omega)]
    · rw [if_neg hshard]
      by_cases hlt : r.shardFor id < n
      · rw [if_pos hlt, if_pos (by omega)]
      · rw [if_neg hlt, if_neg (by omega)]

/-- A sweep treats every registered agent alike, whatever its shard. -/
theorem get_sweep (r : Registry) (now : ℤ) (orders : ℕ → List String)
    (horders : r.Orders orders) (id : String) :
    (r.sweep now orders).1.get id = sweptSlot r.cfg id now (r.get id) := by
  unfold sweep
  rw [get_sweepShards r now orders horders r.count (le_refl _) id, if_pos (r.shardFor_lt id)]

theorem get_report (r : Registry) (now : ℤ) (msg : AgentToServer) (conn : ConnMeta)
    (id j : String) (hid : instanceUID msg.instanceUid = .ok id) :
    (r.report now msg conn).1.get j =
      if j = id then some (reported r.cfg now msg conn (found id now (r.get id)))
      else r.get j := by
  simp only [report, hid]
  rw [get_execAll, runProgram_reportProgram]

theorem cfg_report (r : Registry) (now : ℤ) (msg : AgentToServer) (conn : ConnMeta) :
    (r.report now msg conn).1.cfg = r.cfg := by
  unfold report
  split <;> rfl

theorem get_setConnected (r : Registry) (id j : String) (connected : Bool) :
    (r.setConnected id connected).1.get j =
      if j = id then (r.get id).map fun a => { a with connected := connected } else r.get j := by
  unfold setConnected
  rw [get_execAll]
  cases r.get id with
  | none => rfl
  | some a => rw [runProgram_setConnected, Option.map_some]

theorem events_report (r : Registry) (now : ℤ) (msg : AgentToServer) (conn : ConnMeta)
    (id : String) (hid : instanceUID msg.instanceUid = .ok id) :
    (r.report now msg conn).2 =
      (runProgram (reportProgram r.cfg id now msg conn) (r.get id)).2 := by
  simp only [report, hid]
  rfl

/-- The notifications a sweep of one slot fires. -/
def sweptEvents (cfg : Config) (id : String) (now : ℤ) (slot : Option Agent) : List Event :=
  (runProgram (sweepProgram cfg id now) slot).2

@[simp] theorem sweptEvents_none (cfg : Config) (id : String) (now : ℤ) :
    sweptEvents cfg id now none = [] := rfl

theorem sweptEvents_some (cfg : Config) (id : String) (now : ℤ) (a : Agent) :
    sweptEvents cfg id now (some a) =
      (if a.connected ∧ age now a > cfg.disconnectThreshold then [.agentDisconnected id] else []) ++
        if age now a > cfg.evictAfter then [.agentEvicted id] else [] :=
  congrArg Prod.snd (runProgram_sweep cfg id now a)

theorem sweptEvents_about (r : Registry) (id : String) (now : ℤ) :
    ∀ e ∈ sweptEvents r.cfg id now (r.get id), e.about = id :=
  runProgram_about _ _ (r.get_keyed id)

theorem eventsOf_sweepShard (r : Registry) (now : ℤ) (order : List String) (hnodup : order.Nodup)
    (id : String) :
    eventsOf id (r.sweepShard now order).2 =
      if id ∈ order then sweptEvents r.cfg id now (r.get id) else [] := by
  induction order generalizing r with
  | nil => rfl
  | cons j order ih =>
    have hj : j ∉ order := (List.nodup_cons.mp hnodup).1
    have htail := ih (r.execAll (sweepProgram r.cfg j now)).1 (List.nodup_cons.mp hnodup).2
    change eventsOf id ((r.execAll (sweepProgram r.cfg j now)).2 ++
      ((r.execAll (sweepProgram r.cfg j now)).1.sweepShard now order).2) = _
    rw [eventsOf_append, htail, eventsOf_execAll, get_execAll]
    by_cases hid : id = j
    · subst hid
      simp only [if_pos, List.mem_cons, true_or, if_neg hj, List.append_nil]
      rfl
    · simp only [List.mem_cons, hid, false_or, if_false, List.nil_append]
      rfl

theorem eventsOf_sweepShard_enumerates (r : Registry) (now : ℤ) (i : ℕ) (order : List String)
    (horder : FinMap.Enumerates order (r.shards i).keys) (id : String) :
    eventsOf id (r.sweepShard now order).2 =
      if r.shardFor id = i then sweptEvents r.cfg id now (r.get id) else [] := by
  rw [eventsOf_sweepShard r now order horder.nodup]
  apply r.ite_mem_order horder
  intro hnone
  rw [hnone, sweptEvents_none]

theorem eventsOf_sweepShards (r : Registry) (now : ℤ) (orders : ℕ → List String)
    (horders : r.Orders orders) (n : ℕ) (hn : n ≤ r.count) (id : String) :
    eventsOf id (r.sweepShards now orders n).2 =
      if r.shardFor id < n then sweptEvents r.cfg id now (r.get id) else [] := by
  induction n with
  | zero => rfl
  | succ n ih =>
    have hget := get_sweepShards r now orders horders n (by omega)
    have hkeys := enumerates_of_same (horders n (by omega)) (shardFor_sweepShards r now orders n)
      fun j hj => (hget j).trans (if_neg (by omega))
    have hstep := eventsOf_sweepShard_enumerates _ now n (orders n) hkeys id
    change eventsOf id ((r.sweepShards now orders n).2 ++
      ((r.sweepShards now orders n).1.sweepShard now (orders n)).2) = _
    rw [eventsOf_append, ih (by omega), hstep, shardFor_sweepShards, cfg_sweepShards, hget id]
    by_cases hshard : r.shardFor id = n
    · rw [if_neg (by omega), if_pos hshard, if_neg (by omega), if_pos (by omega), List.nil_append]
    · rw [if_neg hshard, List.append_nil]
      by_cases hlt : r.shardFor id < n
      · rw [if_pos hlt, if_pos (by omega)]
      · rw [if_neg hlt, if_neg (by omega)]

/-- A sweep notifies of every agent what the sweep of its slot does. -/
theorem eventsOf_sweep (r : Registry) (now : ℤ) (orders : ℕ → List String)
    (horders : r.Orders orders) (id : String) :
    eventsOf id (r.sweep now orders).2 = sweptEvents r.cfg id now (r.get id) := by
  unfold sweep
  rw [eventsOf_sweepShards r now orders horders r.count (le_refl _) id, if_pos (r.shardFor_lt id)]

theorem mem_events_sweep (r : Registry) (now : ℤ) (orders : ℕ → List String)
    (horders : r.Orders orders) (e : Event) :
    e ∈ (r.sweep now orders).2 ↔ ∃ id, e ∈ sweptEvents r.cfg id now (r.get id) := by
  rw [← mem_eventsOf_about, eventsOf_sweep r now orders horders]
  refine ⟨fun he => ⟨_, he⟩, fun h => ?_⟩
  obtain ⟨id, he⟩ := h
  rw [r.sweptEvents_about id now e he]
  exact he

/-- Agents may have left, and those that stay differ in their presence only. -/
structure OnlyPresence (r r' : Registry) : Prop where
  cfg : r'.cfg = r.cfg
  agent : ∀ id a', r'.get id = some a' →
    ∃ a connected, r.get id = some a ∧ a' = { a with connected := connected }

theorem onlyPresence_refl (r : Registry) : OnlyPresence r r :=
  ⟨rfl, fun _ a' ha' => ⟨a', a'.connected, ha', rfl⟩⟩

theorem onlyPresence_setConnected (r : Registry) (k : String) (connected : Bool) :
    OnlyPresence r (r.setConnected k connected).1 := by
  refine ⟨rfl, fun id a' ha' => ?_⟩
  rw [r.get_setConnected k id connected] at ha'
  split at ha'
  · rename_i hk
    subst hk
    obtain ⟨a, ha, rfl⟩ := Option.map_eq_some_iff.mp ha'
    exact ⟨a, connected, ha, rfl⟩
  · exact ⟨a', a'.connected, ha', rfl⟩

theorem sweptSlot_eq_some {cfg : Config} {id : String} {now : ℤ} {slot : Option Agent} {a' : Agent}
    (h : sweptSlot cfg id now slot = some a') :
    ∃ a connected, slot = some a ∧ a' = { a with connected := connected } := by
  cases slot with
  | none => cases h
  | some a =>
    rw [sweptSlot, runProgram_sweep] at h
    split at h
    · cases h
    · exact ⟨a, _, rfl, (Option.some.inj h).symm⟩

theorem onlyPresence_sweepShard (r : Registry) (now : ℤ) (order : List String)
    (hnodup : order.Nodup) : OnlyPresence r (r.sweepShard now order).1 := by
  refine ⟨r.cfg_sweepShard now order, fun id a' ha' => ?_⟩
  rw [r.get_sweepShard now order hnodup id] at ha'
  split at ha'
  · exact sweptSlot_eq_some ha'
  · exact ⟨a', a'.connected, ha', rfl⟩

/-! ### Listing -/

/-- The agents of all shards, each shard in the iteration order of its map. -/
def list (r : Registry) (orders : ℕ → List String) : List Agent :=
  (List.range r.count).flatMap fun shard => (orders shard).filterMap r.get

theorem mem_list (r : Registry) (orders : ℕ → List String) (horders : r.Orders orders)
    (a : Agent) : a ∈ r.list orders ↔ r.get a.instanceUID = some a := by
  simp only [list, List.mem_flatMap, List.mem_range, List.mem_filterMap]
  constructor
  · intro h
    obtain ⟨shard, _, id, _, hget⟩ := h
    rw [r.get_keyed id a hget]
    exact hget
  · intro hget
    have hshard := r.shardFor_lt a.instanceUID
    have hkey : a.instanceUID ∈ (r.shards (r.shardFor a.instanceUID)).keys :=
      (r.mem_shard_keys _ _).mpr ⟨rfl, by simp [hget]⟩
    exact ⟨_, hshard, a.instanceUID, ((horders _ hshard).mem_iff _).mpr hkey, hget⟩

theorem mem_map_list (r : Registry) {orders : ℕ → List String} (horders : r.Orders orders)
    {id : String} {a : Agent} (hget : r.get id = some a) :
    id ∈ (r.list orders).map Agent.instanceUID := by
  have hid := r.get_keyed id a hget
  exact List.mem_map.mpr ⟨a, (r.mem_list orders horders a).mpr (hid ▸ hget), hid⟩

/-- A shard lists the ids it is walked in. -/
theorem map_filterMap_get (r : Registry) {order : List String} {shard : ℕ}
    (horder : FinMap.Enumerates order (r.shards shard).keys) :
    (order.filterMap r.get).map Agent.instanceUID = order := by
  have hall : ∀ ids : List String, ids ⊆ order →
      (ids.filterMap r.get).map Agent.instanceUID = ids := by
    intro ids hids
    induction ids with
    | nil => rfl
    | cons id ids ih =>
      obtain ⟨hid, hrest⟩ := List.cons_subset.mp hids
      have hkey := (r.mem_shard_keys shard id).mp ((horder.mem_iff id).mp hid)
      obtain ⟨a, ha⟩ := Option.isSome_iff_exists.mp hkey.2
      rw [List.filterMap_cons_some ha, List.map_cons, ih hrest, r.get_keyed id a ha]
  exact hall order (List.Subset.refl order)

/-- Agents listed from the shards below one, each at most once. -/
structure ListedBelow (r : Registry) (shard : ℕ) (agents : List Agent) : Prop where
  nodup : (agents.map Agent.instanceUID).Nodup
  below : ∀ a ∈ agents, r.shardFor a.instanceUID < shard

theorem listedBelow_zero (r : Registry) : r.ListedBelow 0 [] :=
  ⟨List.nodup_nil, by simp⟩

/-- The agents of the next shard are none of those listed before. -/
theorem ListedBelow.list {r : Registry} {shard : ℕ} {agents : List Agent}
    (hlisted : r.ListedBelow shard agents) {order : List String}
    (horder : FinMap.Enumerates order (r.shards shard).keys) :
    r.ListedBelow (shard + 1) (agents ++ order.filterMap r.get) := by
  have hrouted : ∀ id ∈ order, r.shardFor id = shard :=
    fun id hid => r.routed shard id ((horder.mem_iff id).mp hid)
  constructor
  · rw [List.map_append, r.map_filterMap_get horder]
    refine List.nodup_append.mpr ⟨hlisted.nodup, horder.nodup, fun id hid id' hid' heq => ?_⟩
    obtain ⟨a, ha, rfl⟩ := List.mem_map.mp hid
    have hlt := hlisted.below a ha
    rw [heq, hrouted id' hid'] at hlt
    omega
  · intro a ha
    rcases List.mem_append.mp ha with hold | hnew
    · exact Nat.lt_succ_of_lt (hlisted.below a hold)
    · obtain ⟨id, hid, hget⟩ := List.mem_filterMap.mp hnew
      rw [r.get_keyed id a hget]
      exact Nat.lt_succ_of_le (hrouted id hid).le

/-- What has been listed stays listed while the registry changes. -/
theorem ListedBelow.of_count {r r' : Registry} {shard : ℕ} {agents : List Agent}
    (hlisted : r.ListedBelow shard agents) (hcount : r'.count = r.count) :
    r'.ListedBelow shard agents := by
  refine ⟨hlisted.nodup, fun a ha => ?_⟩
  have hlt := hlisted.below a ha
  unfold shardFor at hlt ⊢
  rwa [hcount]

theorem nodup_list (r : Registry) (orders : ℕ → List String) (horders : r.Orders orders) :
    ((r.list orders).map Agent.instanceUID).Nodup := by
  unfold list
  rw [List.map_flatMap, List.nodup_flatMap]
  constructor
  · intro shard hshard
    have horder := horders shard (List.mem_range.mp hshard)
    rw [r.map_filterMap_get horder]
    exact horder.nodup
  · refine List.Pairwise.imp_of_mem ?_ List.nodup_range
    intro i j hi hj hij id hid hid'
    have hordi := horders i (List.mem_range.mp hi)
    have hordj := horders j (List.mem_range.mp hj)
    simp only [r.map_filterMap_get hordi] at hid
    simp only [r.map_filterMap_get hordj] at hid'
    exact hij ((r.routed i id ((hordi.mem_iff id).mp hid)).symm.trans
      (r.routed j id ((hordj.mem_iff id).mp hid')))

/-- Registries with the same agents list them up to order. -/
theorem perm_list {r r' : Registry} (hget : ∀ id, r.get id = r'.get id)
    {orders orders' : ℕ → List String} (horders : r.Orders orders) (horders' : r'.Orders orders') :
    (r.list orders).Perm (r'.list orders') := by
  have hnodup := List.Nodup.of_map _ (r.nodup_list orders horders)
  have hnodup' := List.Nodup.of_map _ (r'.nodup_list orders' horders')
  refine (List.perm_ext_iff_of_nodup hnodup hnodup').mpr fun a => ?_
  rw [r.mem_list orders horders, r'.mem_list orders' horders', hget]

/-- Every registry can be walked. -/
theorem exists_orders (r : Registry) : ∃ orders, r.Orders orders :=
  ⟨fun i => (r.shards i).keys.toList, fun _ _ =>
    ⟨Finset.nodup_toList _, fun _ => Finset.mem_toList⟩⟩

/-! ### A registry that has heard one agent -/

def heardOnce (cfg : Config) (now : ℤ) : Registry := ((new cfg).report now heartbeat {}).1

def heardAgent (cfg : Config) (now : ℤ) : Agent :=
  reported cfg now heartbeat {} (registered zeroUID now)

theorem uid_heartbeat : instanceUID heartbeat.instanceUid = .ok zeroUID := by decide

theorem get_heartbeat (r : Registry) (now : ℤ) (id : String) :
    (r.report now heartbeat {}).1.get id =
      if id = zeroUID then
        some (reported r.cfg now heartbeat {} (found zeroUID now (r.get zeroUID)))
      else r.get id :=
  r.get_report now heartbeat {} zeroUID id uid_heartbeat

theorem get_heardOnce (cfg : Config) (now : ℤ) (id : String) :
    (heardOnce cfg now).get id = if id = zeroUID then some (heardAgent cfg now) else none :=
  get_heartbeat (new cfg) now id

theorem get_heardOnce_self (cfg : Config) (now : ℤ) :
    (heardOnce cfg now).get zeroUID = some (heardAgent cfg now) := by
  rw [get_heardOnce, if_pos rfl]

theorem cfg_heardOnce (cfg : Config) (now : ℤ) : (heardOnce cfg now).cfg = cfg :=
  (new cfg).cfg_report now heartbeat {}

theorem lastSeen_heardAgent (cfg : Config) (now : ℤ) : (heardAgent cfg now).lastSeen = now :=
  (reported_presence cfg now heartbeat {} (registered zeroUID now)).2.1

theorem connected_heardAgent (cfg : Config) (now : ℤ) : (heardAgent cfg now).connected = true :=
  (reported_presence cfg now heartbeat {} (registered zeroUID now)).1

/-! ### The registry as a machine -/

inductive Op
  | report (now : ℤ) (msg : AgentToServer) (conn : ConnMeta)
  | setConnected (id : String) (connected : Bool)
  | sweep (now : ℤ) (orders : ℕ → List String)

instance (r : Registry) (orders : ℕ → List String) : Decidable (r.Orders orders) :=
  inferInstanceAs (Decidable (∀ i, i < r.count → _))

/-- A sweep is refused when its iteration orders are not those of its maps. -/
def step (r : Registry) : Op → Option (Registry × List Event)
  | .report now msg conn => some (r.report now msg conn)
  | .setConnected id connected => some (r.setConnected id connected)
  | .sweep now orders => if r.Orders orders then some (r.sweep now orders) else none

/-- The operation reads the given time, if it reads the clock at all. -/
def Op.reads (now : ℤ) : Op → Bool
  | .report t _ _ => decide (t = now)
  | .setConnected _ _ => true
  | .sweep t _ => decide (t = now)

/-- The program an operation runs on one agent's slot. -/
def Op.program (cfg : Config) (id : String) : Op → List (Stage id)
  | .report now msg conn =>
      match instanceUID msg.instanceUid with
      | .error _ => []
      | .ok k => if k = id then reportProgram cfg id now msg conn else []
  | .setConnected k connected => if k = id then setConnectedProgram id connected else []
  | .sweep now _ => sweepProgram cfg id now

/-- Every operation acts on each agent by itself, whatever its shard. -/
theorem step_program {r : Registry} {op : Op} {q : Registry × List Event}
    (h : r.step op = some q) (id : String) :
    q.1.get id = (runProgram (op.program r.cfg id) (r.get id)).1 ∧
      eventsOf id q.2 = (runProgram (op.program r.cfg id) (r.get id)).2 := by
  cases op with
  | report now msg conn =>
    obtain rfl := Option.some.inj h
    cases huid : instanceUID msg.instanceUid with
    | error err =>
      simp only [report, Op.program, huid]
      exact ⟨rfl, rfl⟩
    | ok k =>
      simp only [report, Op.program, huid]
      rw [get_execAll, eventsOf_execAll]
      by_cases hk : id = k
      · subst hk
        simp
      · rw [if_neg hk, if_neg hk, if_neg fun heq => hk heq.symm]
        exact ⟨rfl, rfl⟩
  | setConnected k connected =>
    obtain rfl := Option.some.inj h
    simp only [setConnected, Op.program]
    rw [get_execAll, eventsOf_execAll]
    by_cases hk : id = k
    · subst hk
      simp
    · rw [if_neg hk, if_neg hk, if_neg fun heq => hk heq.symm]
      exact ⟨rfl, rfl⟩
  | sweep now orders =>
    simp only [step] at h
    split at h
    · rename_i horders
      obtain rfl := Option.some.inj h
      exact ⟨get_sweep r now orders horders id, eventsOf_sweep r now orders horders id⟩
    · cases h

/-- No operation changes the settings or the number of shards. -/
theorem fixed_step {r : Registry} {op : Op} {q : Registry × List Event} (h : r.step op = some q) :
    q.1.cfg = r.cfg ∧ q.1.count = r.count := by
  cases op with
  | report now msg conn =>
    obtain rfl := Option.some.inj h
    refine ⟨cfg_report r now msg conn, ?_⟩
    simp only [report]
    split <;> rfl
  | setConnected id connected =>
    obtain rfl := Option.some.inj h
    exact ⟨rfl, rfl⟩
  | sweep now orders =>
    simp only [step] at h
    split at h
    · obtain rfl := Option.some.inj h
      exact ⟨cfg_sweepShards r now orders r.count, count_sweepShards r now orders r.count⟩
    · cases h

theorem cfg_step {r : Registry} {op : Op} {q : Registry × List Event} (h : r.step op = some q) :
    q.1.cfg = r.cfg :=
  (fixed_step h).1

theorem count_step {r : Registry} {op : Op} {q : Registry × List Event}
    (h : r.step op = some q) : q.1.count = r.count :=
  (fixed_step h).2

/-- An operation at `now` leaves an agent last seen when it was before, or at
`now`. -/
theorem lastSeen_step {r : Registry} {op : Op} {q : Registry × List Event} {now : ℤ}
    (h : r.step op = some q) (hnow : op.reads now = true) {id : String} {a' : Agent}
    (ha' : q.1.get id = some a') :
    a'.lastSeen = now ∨ ∃ a, r.get id = some a ∧ a'.lastSeen = a.lastSeen := by
  cases op with
  | report t msg conn =>
    obtain rfl : t = now := of_decide_eq_true hnow
    obtain rfl := Option.some.inj h
    cases huid : instanceUID msg.instanceUid with
    | error err =>
      simp only [report, huid] at ha'
      exact Or.inr ⟨a', ha', rfl⟩
    | ok k =>
      rw [r.get_report t msg conn k id huid] at ha'
      split at ha'
      · obtain rfl := Option.some.inj ha'
        exact Or.inl (reported_presence _ _ _ _ _).2.1
      · exact Or.inr ⟨a', ha', rfl⟩
  | setConnected k connected =>
    obtain rfl := Option.some.inj h
    obtain ⟨a, _, ha, rfl⟩ := (r.onlyPresence_setConnected k connected).agent id a' ha'
    exact Or.inr ⟨a, ha, rfl⟩
  | sweep t orders =>
    simp only [step] at h
    split at h
    · rename_i horders
      obtain rfl := Option.some.inj h
      rw [r.get_sweep t orders horders id] at ha'
      obtain ⟨a, connected, ha, rfl⟩ := sweptSlot_eq_some ha'
      exact Or.inr ⟨a, ha, rfl⟩
    · cases h

end Registry

end Grex
