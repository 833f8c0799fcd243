import Grex.History
import Grex.Machine

/-!
Concurrent calls to one registry. A report parses the uid and reads the clock
before it takes its shard's lock, so the reports that are under way are applied
in any order, and presence changes and the sweeps of single shards come between.
An observer keeps the messages applied since each agent's registration.
-/

namespace Grex

open AgentState Message History

structure Calls where
  registry : Registry
  clock : ℤ
  pending : List Call

namespace Calls

inductive Act
  | tick (now : ℤ)
  | enter (msg : AgentToServer) (conn : ConnMeta)
  | apply (i : ℕ)
  | setConnected (id : String) (connected : Bool)
  | sweepShard (shard : ℕ) (now : ℤ) (order : List String)

/-- The clock does not run backwards. -/
def step (s : Calls) : Act → Option Calls
  | .tick now => if s.clock ≤ now then some { s with clock := now } else none
  | .enter msg conn =>
      some { s with pending := s.pending ++ (callOf s.clock msg conn).toList }
  | .apply i => (s.pending[i]?).map fun call =>
      { s with
        registry := call.apply s.registry
        pending := s.pending.eraseIdx i }
  | .setConnected id connected =>
      some { s with registry := (s.registry.setConnected id connected).1 }
  | .sweepShard shard now order =>
      if shard < s.registry.count ∧ FinMap.Enumerates order (s.registry.shards shard).keys then
        some { s with registry := (s.registry.sweepShard now order).1 }
      else none

/-- The report a step applies. -/
def applied (s : Calls) : Act → Option Call
  | .apply i => s.pending[i]?
  | _ => none

def watch (hist : Heard) (s : Calls) (a : Act) (_ : Calls) : Heard :=
  observe hist s.registry (applied s a)

/-- The calls together with the messages applied so far. -/
def machine : Calls × Heard → Act → Option (Calls × Heard) := Machine.observed step watch

def start (cfg : Config) (clock : ℤ) : Calls × Heard :=
  ({ registry := Registry.new cfg, clock := clock, pending := [] }, fun _ => [])

theorem step_effect {s t : Calls} {a : Act} (h : step s a = some t) :
    Effect (applied s a) s.registry t.registry := by
  cases a with
  | tick now =>
    simp only [step] at h
    split at h
    · obtain rfl := Option.some.inj h
      exact Or.inr ⟨rfl, Registry.onlyPresence_refl _⟩
    · cases h
  | enter msg conn =>
    obtain rfl := Option.some.inj h
    exact Or.inr ⟨rfl, Registry.onlyPresence_refl _⟩
  | apply i =>
    obtain ⟨call, hcall, rfl⟩ := Option.map_eq_some_iff.mp h
    exact Or.inl ⟨call, hcall, rfl⟩
  | setConnected id connected =>
    obtain rfl := Option.some.inj h
    exact Or.inr ⟨rfl, s.registry.onlyPresence_setConnected id connected⟩
  | sweepShard shard now order =>
    simp only [step] at h
    split at h
    · rename_i hsweep
      obtain rfl := Option.some.inj h
      exact Or.inr ⟨rfl, s.registry.onlyPresence_sweepShard now order hsweep.2.nodup⟩
    · cases h

theorem machine_effect {p q : Calls × Heard} {a : Act} (h : machine p a = some q) :
    (∃ call, applied p.1 a = some call ∧
      q.1.registry = call.apply p.1.registry ∧ q.2 = record p.2 p.1.registry call) ∨
    (applied p.1 a = none ∧ Registry.OnlyPresence p.1.registry q.1.registry ∧ q.2 = p.2) := by
  obtain ⟨hstep, hhist⟩ := Machine.observed_eq_some.mp h
  rw [hhist]
  exact (step_effect hstep).observed p.2

/-- What holds of each registered agent and its history is kept by a step if the
report it applies brings it about and `Connected` has no part in it. -/
theorem agents_step (P : List Call → Agent → Prop) {p q : Calls × Heard} {act : Act}
    (hp : ∀ raw id a, instanceUID raw = .ok id → p.1.registry.get id = some a → P (p.2 raw) a)
    (hreport : ∀ call, applied p.1 act = some call →
      P (record p.2 p.1.registry call call.msg.instanceUid) (call.result p.1.registry))
    (hconnected : ∀ calls a connected, P calls a → P calls { a with connected := connected })
    (hstep : machine p act = some q) :
    ∀ raw id a, instanceUID raw = .ok id → q.1.registry.get id = some a → P (q.2 raw) a := by
  intro raw id a hraw ha
  rcases machine_effect hstep with ⟨call, hcall, hregistry, hhist⟩ | ⟨_, hpresence, hhist⟩
  · rw [hregistry, get_apply] at ha
    rw [hhist]
    by_cases hid : id = call.id
    · subst hid
      obtain rfl := instanceUID_inj hraw call.valid
      rw [if_pos rfl] at ha
      rw [← Option.some.inj ha]
      exact hreport call hcall
    · rw [if_neg hid] at ha
      rw [record_of_ne (Call.uid_ne hraw hid)]
      exact hp raw id a hraw ha
  · obtain ⟨old, connected, hold, rfl⟩ := hpresence.agent id a ha
    rw [hhist]
    exact hconnected _ old connected (hp raw id old hraw hold)

/-- After a step that applies a report, the agent is the report's result. -/
theorem machine_applied {p q : Calls × Heard} {a : Act} {call : Call} (h : machine p a = some q)
    (hcall : applied p.1 a = some call) :
    q.1.registry.get call.id = some (call.result p.1.registry) ∧
      q.2 = record p.2 p.1.registry call := by
  rcases machine_effect h with ⟨call', hcall', hregistry, hhist⟩ | ⟨hnone, _, _⟩
  · obtain rfl := Option.some.inj (hcall'.symm.trans hcall)
    exact ⟨by rw [hregistry, get_apply_self], hhist⟩
  · rw [hnone] at hcall
    cases hcall

theorem mirrored_machine {p q : Calls × Heard} {a : Act} (h : machine p a = some q)
    (hp : Mirrored p.2 p.1.registry) : Mirrored q.2 q.1.registry := by
  obtain ⟨hstep, hhist⟩ := Machine.observed_eq_some.mp h
  rw [hhist]
  exact mirrored_effect hp (step_effect hstep)

end Calls

end Grex
