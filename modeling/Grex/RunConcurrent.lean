import Grex.Interleave
import Mathlib.Tactic.Abel

/-!
`runConcurrent`: the loop that starts a routine for each task, the buffered
channel that bounds how many of them run at once, and the wait group the caller
blocks on. Sends, receives and the counter are single steps, and so is each
atomic action of a task, so a run is any interleaving of the caller with the
routines it has started. Deferred calls run last in, first out: a routine gives
its slot back before it is counted as done.
-/

namespace Grex.RunConcurrent

open Machine Interleave Interleave.Program

variable {σ : Type*}

/-- Where the caller is: at the head of its loop, at the send, at the `go`
statement, at `wg.Wait()`, or returned. -/
inductive Phase
  | loop
  | send
  | spawn
  | wait
  | returned
  deriving DecidableEq

/-- Where a routine is: in its task, at the deferred receive, at the deferred
`wg.Done()`, or gone. -/
inductive Routine (σ : Type*)
  | running (left : Program σ)
  | release
  | finish
  | ended

/-- The tasks still to be started, the routines in the order they were
started, the length of the channel, the counter of the wait group, and what the
tasks act on. -/
structure State (σ : Type*) where
  phase : Phase
  todo : List (Program σ)
  routines : List (Routine σ)
  sem : ℕ
  wg : ℤ
  shared : σ

inductive Act
  | caller
  | routine (i : ℕ)
  deriving DecidableEq

/-- The capacity of the channel. -/
def slots (maxConcurrent : ℤ) : ℕ :=
  (if maxConcurrent < 1 then 1 else maxConcurrent).toNat

def start (tasks : List (Program σ)) (shared : σ) : State σ where
  phase := .loop
  todo := tasks
  routines := []
  sem := 0
  wg := 0
  shared := shared

/-- A send blocks while the channel is full, a receive while it is empty, and
`wg.Wait()` while the counter is not zero. -/
def step (cap : ℕ) (s : State σ) : Act → Option (State σ)
  | .caller =>
      match s.phase, s.todo with
      | .loop, [] => some { s with phase := .wait }
      | .loop, _ :: _ => some { s with phase := .send, wg := s.wg + 1 }
      | .send, _ => if s.sem < cap then some { s with phase := .spawn, sem := s.sem + 1 } else none
      | .spawn, [] => none
      | .spawn, task :: todo =>
          some { s with phase := .loop, todo := todo, routines := s.routines ++ [.running task] }
      | .wait, _ => if s.wg = 0 then some { s with phase := .returned } else none
      | .returned, _ => none
  | .routine i =>
      match s.routines[i]? with
      | some (.running (.act update rest)) =>
          some { s with
            routines := s.routines.set i (.running (rest s.shared))
            shared := update s.shared }
      | some (.running .ret) => some { s with routines := s.routines.set i .release }
      | some .release =>
          if 0 < s.sem then
            some { s with routines := s.routines.set i .finish, sem := s.sem - 1 }
          else none
      | some .finish => some { s with routines := s.routines.set i .ended, wg := s.wg - 1 }
      | _ => none

/-- Everything one step can do. -/
inductive Step (cap : ℕ) (s : State σ) : Act → State σ → Prop
  | done (hphase : s.phase = .loop) (htodo : s.todo = []) :
      Step cap s .caller { s with phase := .wait }
  | add {task : Program σ} {todo : List (Program σ)} (hphase : s.phase = .loop)
      (htodo : s.todo = task :: todo) :
      Step cap s .caller { s with phase := .send, wg := s.wg + 1 }
  | send (hphase : s.phase = .send) (hroom : s.sem < cap) :
      Step cap s .caller { s with phase := .spawn, sem := s.sem + 1 }
  | spawn {task : Program σ} {todo : List (Program σ)} (hphase : s.phase = .spawn)
      (htodo : s.todo = task :: todo) :
      Step cap s .caller
        { s with phase := .loop, todo := todo, routines := s.routines ++ [.running task] }
  | wait (hphase : s.phase = .wait) (hzero : s.wg = 0) :
      Step cap s .caller { s with phase := .returned }
  | act {i : ℕ} {update : σ → σ} {rest : σ → Program σ}
      (hi : s.routines[i]? = some (.running (.act update rest))) :
      Step cap s (.routine i)
        { s with
          routines := s.routines.set i (.running (rest s.shared))
          shared := update s.shared }
  | ret {i : ℕ} (hi : s.routines[i]? = some (.running .ret)) :
      Step cap s (.routine i) { s with routines := s.routines.set i .release }
  | release {i : ℕ} (hi : s.routines[i]? = some .release) (hsem : 0 < s.sem) :
      Step cap s (.routine i)
        { s with routines := s.routines.set i .finish, sem := s.sem - 1 }
  | finish {i : ℕ} (hi : s.routines[i]? = some .finish) :
      Step cap s (.routine i) { s with routines := s.routines.set i .ended, wg := s.wg - 1 }

theorem step_cases {cap : ℕ} {s t : State σ} {a : Act} (h : step cap s a = some t) :
    Step cap s a t := by
  cases a with
  | caller =>
    simp only [step] at h
    split at h
    · rename_i hphase htodo
      cases h
      exact .done hphase htodo
    · rename_i task todo hphase htodo
      cases h
      exact .add hphase htodo
    · rename_i hphase
      split at h
      · rename_i hroom
        cases h
        exact .send hphase hroom
      · cases h
    · cases h
    · rename_i task todo hphase htodo
      cases h
      exact .spawn hphase htodo
    · rename_i hphase
      split at h
      · rename_i hzero
        cases h
        exact .wait hphase hzero
      · cases h
    · cases h
  | routine i =>
    simp only [step] at h
    split at h
    · rename_i update rest hi
      cases h
      exact .act hi
    · rename_i hi
      cases h
      exact .ret hi
    · rename_i hi
      split at h
      · rename_i hsem
        cases h
        exact .release hi hsem
      · cases h
    · rename_i hi
      cases h
      exact .finish hi
    · cases h

/-! ### The channel and the counter -/

namespace Routine

/-- The task is under way. -/
def isRunning : Routine σ → Bool
  | running _ => true
  | _ => false

/-- The routine has a slot of the channel. -/
def holdsSlot : Routine σ → Bool
  | running _ | release => true
  | _ => false

/-- The routine is counted by the wait group. -/
def isCounted : Routine σ → Bool
  | ended => false
  | _ => true

/-- What is left of its task. -/
def left : Routine σ → Program σ
  | running t => t
  | _ => .ret

end Routine

/-- What the channel and the counter say at every moment. -/
structure Inv (cap : ℕ) (s : State σ) : Prop where
  sem : s.sem = s.routines.countP Routine.holdsSlot + if s.phase = .spawn then 1 else 0
  wg : s.wg = s.routines.countP Routine.isCounted +
    if s.phase = .send ∨ s.phase = .spawn then 1 else 0
  room : s.sem ≤ cap
  todo : s.phase = .wait ∨ s.phase = .returned → s.todo = []
  current : s.phase = .send ∨ s.phase = .spawn → s.todo ≠ []
  returned : s.phase = .returned → s.wg = 0

theorem inv_start (cap : ℕ) (tasks : List (Program σ)) (shared : σ) :
    Inv cap (start tasks shared) where
  sem := rfl
  wg := rfl
  room := Nat.zero_le _
  todo := by simp [start]
  current := by simp [start]
  returned := by simp [start]

theorem countP_set_of {l : List (Routine σ)} {i : ℕ} {r : Routine σ} (p : Routine σ → Bool)
    (hi : l[i]? = some r) (r' : Routine σ) :
    (l.set i r').countP p + (if p r then 1 else 0) = l.countP p + if p r' then 1 else 0 := by
  obtain ⟨hlt, hget⟩ := List.getElem?_eq_some_iff.mp hi
  have hpos : p r = true → 0 < l.countP p := fun hp =>
    List.countP_pos_iff.mpr ⟨r, List.mem_of_getElem? hi, hp⟩
  rw [List.countP_set hlt, hget]
  by_cases hp : p r
  · have := hpos hp
    simp only [hp, if_true]
    omega
  · simp [hp]

theorem Inv.ne_returned {cap : ℕ} {s : State σ} (h : Inv cap s) {i : ℕ} {r : Routine σ}
    (hi : s.routines[i]? = some r) (hr : r.isCounted = true) : s.phase ≠ .returned := by
  intro hphase
  have hwg := h.wg
  rw [h.returned hphase, hphase] at hwg
  have hpos : 0 < s.routines.countP Routine.isCounted :=
    List.countP_pos_iff.mpr ⟨r, List.mem_of_getElem? hi, hr⟩
  simp only [reduceCtorEq, or_self, if_false] at hwg
  omega

/-- One routine moves on: the channel and the counter follow it. -/
theorem Inv.set {cap : ℕ} {s : State σ} (h : Inv cap s) {i : ℕ} {r r' : Routine σ}
    (hi : s.routines[i]? = some r) (hr : r.isCounted = true)
    {sem : ℕ} {wg : ℤ} (shared : σ)
    (hsem : sem + (if r.holdsSlot then 1 else 0) = s.sem + if r'.holdsSlot then 1 else 0)
    (hwg : wg + 1 = s.wg + if r'.isCounted then 1 else 0)
    (hslot : r'.holdsSlot = true → r.holdsSlot = true) :
    Inv cap { s with routines := s.routines.set i r', sem := sem, wg := wg, shared := shared } where
  sem := by
    have hcount := countP_set_of Routine.holdsSlot hi r'
    have hold := h.sem
    dsimp only
    omega
  wg := by
    have hcount := countP_set_of Routine.isCounted hi r'
    have hold := h.wg
    rw [if_pos hr] at hcount
    dsimp only
    split at hcount <;> split at hwg <;> first | omega | simp_all
  room := by
    have hroom := h.room
    dsimp only
    split at hsem <;> split at hsem <;> first | omega | simp_all
  todo := h.todo
  current := h.current
  returned := fun hphase => absurd hphase (h.ne_returned hi hr)

theorem inv_step (cap : ℕ) (s : State σ) (a : Act) (t : State σ) (h : Inv cap s)
    (hstep : step cap s a = some t) : Inv cap t := by
  have hsem := h.sem
  have hwg := h.wg
  cases step_cases hstep with
  | done hphase hnil =>
    simp only [hphase] at hsem hwg
    exact ⟨by simpa using hsem, by simpa using hwg, h.room, fun _ => hnil, by simp, by simp⟩
  | add hphase hcons =>
    simp only [hphase] at hsem hwg
    refine ⟨by simpa using hsem, by simpa using hwg, h.room, by simp, ?_, by simp⟩
    exact fun _ => hcons ▸ List.cons_ne_nil _ _
  | send hphase hlt =>
    simp only [hphase] at hsem hwg
    refine ⟨by simpa using hsem, by simpa using hwg, hlt, by simp, ?_, by simp⟩
    exact fun _ => h.current (Or.inl hphase)
  | spawn hphase hcons =>
    simp only [hphase] at hsem hwg
    refine ⟨?_, ?_, h.room, by simp, by simp, by simp⟩
    · simpa [List.countP_append, Routine.holdsSlot] using hsem
    · simpa [List.countP_append, Routine.isCounted] using hwg
  | wait hphase hzero =>
    simp only [hphase] at hsem hwg
    exact ⟨by simpa using hsem, by simpa using hwg, h.room, fun _ => h.todo (Or.inl hphase), by simp,
      fun _ => hzero⟩
  | act hi => exact h.set hi rfl _ rfl rfl fun _ => rfl
  | ret hi => exact h.set hi rfl s.shared rfl rfl fun _ => rfl
  | release hi hpos =>
    refine h.set hi rfl s.shared ?_ rfl fun _ => rfl
    simp only [Routine.holdsSlot, if_true, Bool.false_eq_true, if_false]
    omega
  | finish hi =>
    refine h.set hi rfl s.shared rfl ?_ id
    simp [Routine.isCounted]

theorem inv_run {cap : ℕ} {tasks : List (Program σ)} {shared : σ} {acts : List Act} {s : State σ}
    (hrun : run (step cap) (start tasks shared) acts = some s) : Inv cap s :=
  run_invariant (Inv cap) (inv_step cap) (inv_start cap tasks shared) hrun

/-! ### The tasks -/

/-- What is left of each task, in the order of the tasks. -/
def remaining (s : State σ) : List (Program σ) := s.routines.map Routine.left ++ s.todo

theorem map_left_set {l : List (Routine σ)} {i : ℕ} {r : Routine σ} (hi : l[i]? = some r)
    {r' : Routine σ} (hleft : r'.left = r.left) : (l.set i r').map Routine.left = l.map Routine.left := by
  obtain ⟨hlt, hget⟩ := List.getElem?_eq_some_iff.mp hi
  apply List.ext_getElem?
  intro j
  rw [List.map_set, List.getElem?_set, hleft]
  split
  · rename_i hij
    subst hij
    simp [hlt, hget]
  · rfl

/-- A step of the caller and the deferred calls leave the tasks alone; every
other step is an action of one of them. -/
theorem remaining_step {cap : ℕ} {s t : State σ} {a : Act} (hstep : step cap s a = some t) :
    (remaining t, t.shared) = (remaining s, s.shared) ∨
      ∃ i, Interleave.step (remaining s, s.shared) i = some (remaining t, t.shared) := by
  cases step_cases hstep with
  | done | add | send | wait => exact Or.inl rfl
  | spawn hphase hcons => simp [remaining, hcons, Routine.left]
  | act hi =>
    rename_i i update rest
    obtain ⟨hlt, hget⟩ := List.getElem?_eq_some_iff.mp hi
    have hlt' : i < (s.routines.map Routine.left).length := by simpa using hlt
    refine Or.inr ⟨i, step_eq_some.mpr ⟨update, rest, ?_, ?_⟩⟩
    · simp [remaining, List.getElem?_append_left hlt', hi, Routine.left]
    · simp [remaining, List.set_append_left _ _ hlt', List.map_set, Routine.left]
  | ret hi =>
    have hleft := map_left_set hi (show Routine.left .release = _ from rfl)
    exact Or.inl (by simp only [remaining, hleft])
  | release hi =>
    have hleft := map_left_set hi (show Routine.left .finish = _ from rfl)
    exact Or.inl (by simp only [remaining, hleft])
  | finish hi =>
    have hleft := map_left_set hi (show Routine.left .ended = _ from rfl)
    exact Or.inl (by simp only [remaining, hleft])

theorem remaining_run {cap : ℕ} {s t : State σ} {acts : List Act}
    (hrun : run (step cap) s acts = some t) :
    ∃ sched, run Interleave.step (remaining s, s.shared) sched = some (remaining t, t.shared) := by
  induction acts generalizing s with
  | nil =>
    obtain rfl := Option.some.inj hrun
    exact ⟨[], rfl⟩
  | cons a acts ih =>
    obtain ⟨u, hstep, htail⟩ := run_cons_eq_some.mp hrun
    obtain ⟨sched, hsched⟩ := ih htail
    rcases remaining_step hstep with hsame | ⟨i, hi⟩
    · exact ⟨sched, hsame ▸ hsched⟩
    · exact ⟨i :: sched, run_cons_eq_some.mpr ⟨_, hi, hsched⟩⟩

theorem Inv.ended_of_returned {cap : ℕ} {s : State σ} (h : Inv cap s) (hphase : s.phase = .returned)
    {i : ℕ} {r : Routine σ} (hi : s.routines[i]? = some r) : r = .ended := by
  by_contra hne
  refine h.ne_returned hi ?_ hphase
  cases r with
  | ended => exact absurd rfl hne
  | _ => rfl

theorem Inv.remaining_of_returned {cap : ℕ} {s : State σ} (h : Inv cap s)
    (hphase : s.phase = .returned) (t : Program σ) (ht : t ∈ remaining s) : t = .ret := by
  rw [remaining, h.todo (Or.inr hphase), List.append_nil, List.mem_map] at ht
  obtain ⟨r, hr, rfl⟩ := ht
  obtain ⟨i, hi⟩ := List.getElem?_of_mem hr
  rw [h.ended_of_returned hphase hi]
  rfl

theorem countP_isRunning_le (l : List (Routine σ)) :
    l.countP Routine.isRunning ≤ l.countP Routine.holdsSlot := by
  apply List.countP_mono_left
  intro r _ hr
  cases r with
  | running t => rfl
  | _ => cases hr

/-- At every moment at most `maxConcurrent` tasks are under way, at least one
being allowed, and the counter of the wait group is not negative. What the
tasks have done so far is an interleaving of them all, each from its beginning,
and when the call returns each of them has come to its end. -/
theorem runConcurrent_interleaves (tasks : List (Program σ)) (maxConcurrent : ℤ) (shared : σ)
    (acts : List Act) (s : State σ)
    (hrun : run (step (slots maxConcurrent)) (start tasks shared) acts = some s) :
    s.routines.countP Routine.isRunning ≤ slots maxConcurrent ∧ 0 ≤ s.wg ∧
      ∃ sched, run Interleave.step (tasks, shared) sched = some (remaining s, s.shared) ∧
        (s.phase = .returned → ∀ t ∈ remaining s, t = .ret) := by
  have hinv := inv_run hrun
  obtain ⟨sched, hsched⟩ := remaining_run hrun
  refine ⟨?_, ?_, sched, by simpa [remaining, start] using hsched, hinv.remaining_of_returned⟩
  · have hle := countP_isRunning_le s.routines
    have hsem := hinv.sem
    have hroom := hinv.room
    omega
  · have hwg := hinv.wg
    split at hwg <;> omega

/-- Two tasks on one counter with one slot: the second starts once the first
has given its slot back. -/
theorem runConcurrent_interleaves_counter :
    ∃ s, run (step (slots 1))
        (start [atomic (· + 1), atomic (· * 2)] 3)
        [.caller, .caller, .caller, .caller, .routine 0, .routine 0, .routine 0, .caller, .caller,
          .routine 1, .caller, .routine 0, .routine 1, .routine 1, .routine 1, .caller] = some s ∧
      s.phase = .returned ∧ s.shared = 8 ∧
      ∃ sched, run Interleave.step ([atomic (· + 1), atomic (· * 2)], 3) sched =
        some (remaining s, 8) := by
  obtain ⟨s, hrun, hphase, hshared⟩ : ∃ s, run (step (slots 1))
      (start [atomic (· + 1), atomic (· * 2)] 3)
      [.caller, .caller, .caller, .caller, .routine 0, .routine 0, .routine 0, .caller, .caller,
        .routine 1, .caller, .routine 0, .routine 1, .routine 1, .routine 1, .caller] = some s ∧
      s.phase = .returned ∧ s.shared = 8 := by
    apply exists_run_of_any
    decide
  obtain ⟨_, _, sched, hsched, _⟩ := runConcurrent_interleaves _ 1 3 _ s hrun
  exact ⟨s, hrun, hphase, hshared, sched, hshared ▸ hsched⟩

/-! ### Progress -/

/-- How much there is to do: a number of stages, and what is left of a task. -/
abbrev Rank (σ : Type*) := ℕ × Program σ

def Rank.Below : Rank σ → Rank σ → Prop := Prod.Lex (· < ·) After

theorem Rank.wellFounded_below : WellFounded (@Rank.Below σ) :=
  WellFounded.prod_lex wellFounded_lt wellFounded_after

theorem Rank.below_of_lt {m n : ℕ} {t u : Program σ} (h : m < n) : Rank.Below (m, t) (n, u) :=
  Prod.Lex.left _ _ h

def Routine.rank : Routine σ → Rank σ
  | running t => (3, t)
  | release => (2, .ret)
  | finish => (1, .ret)
  | ended => (0, .ret)

def Phase.stages : Phase → ℕ
  | loop => 4
  | send => 3
  | spawn => 2
  | wait => 1
  | returned => 0

/-- Everything that has yet to happen. -/
def ranks (s : State σ) : Multiset (Rank σ) :=
  {(4 * s.todo.length + s.phase.stages, .ret)} +
    ((s.routines.map Routine.rank : List (Rank σ)) : Multiset (Rank σ))

open Relation

/-- The caller moves on without starting a routine. -/
theorem ranks_caller {s : State σ} {phase : Phase} {sem : ℕ} {wg : ℤ}
    (h : phase.stages < s.phase.stages) :
    CutExpand Rank.Below (ranks { s with phase := phase, sem := sem, wg := wg }) (ranks s) := by
  apply cutExpand_single_add
  exact Rank.below_of_lt (by dsimp only; omega)

theorem ranks_set {s : State σ} {i : ℕ} {r r' : Routine σ} {sem : ℕ} {wg : ℤ} {shared : σ}
    (hi : s.routines[i]? = some r) (h : Rank.Below r'.rank r.rank) :
    CutExpand Rank.Below
      (ranks { s with routines := s.routines.set i r', sem := sem, wg := wg, shared := shared })
      (ranks s) := by
  apply (cutExpand_add_left _).mpr
  obtain ⟨others, hold, hnew⟩ := exists_perm_set s.routines i r r' hi
  refine ⟨{r'.rank}, r.rank, by simpa using h, ?_⟩
  rw [Multiset.coe_eq_coe.mpr (hold.map _), Multiset.coe_eq_coe.mpr (hnew.map _)]
  simp only [List.map_cons, ← Multiset.cons_coe, ← Multiset.singleton_add]
  abel

/-- Every step brings one of the ranks down; a started routine ranks below the
caller that has it to start. -/
theorem ranks_step {cap : ℕ} {s t : State σ} {a : Act} (hstep : step cap s a = some t) :
    CutExpand Rank.Below (ranks t) (ranks s) := by
  cases step_cases hstep with
  | done hphase | add hphase | send hphase | wait hphase =>
    exact ranks_caller (by rw [hphase]; decide)
  | spawn hphase hcons =>
    rename_i task todo
    refine ⟨{(4 * todo.length + 4, .ret), (3, task)}, (4 * s.todo.length + 2, .ret), ?_, ?_⟩
    · intro r hr
      rw [hcons, List.length_cons]
      rcases Multiset.mem_cons.mp hr with rfl | hr
      · exact Rank.below_of_lt (by omega)
      · rw [Multiset.mem_singleton.mp hr]
        exact Rank.below_of_lt (by omega)
    · simp only [ranks, hphase, Phase.stages, List.map_append, List.map_cons, List.map_nil,
        Routine.rank, ← Multiset.coe_add, Multiset.coe_singleton, Multiset.insert_eq_cons,
        ← Multiset.singleton_add]
      abel
  | act hi => exact ranks_set hi (Prod.Lex.right _ ⟨_, _, _, rfl, rfl⟩)
  | ret hi | release hi | finish hi => exact ranks_set hi (Rank.below_of_lt (Nat.lt_succ_self _))

/-- Whatever the order of the steps, there are finitely many of them. -/
theorem wellFounded_step (cap : ℕ) :
    WellFounded fun t s : State σ => ∃ a, step cap s a = some t := by
  refine Subrelation.wf ?_ (InvImage.wf ranks Rank.wellFounded_below.cutExpand)
  intro t s hstep
  obtain ⟨a, ha⟩ := hstep
  exact ranks_step ha

/-- A step of the caller, or of a routine that is not stuck. -/
def Act.Free (stuck : Finset ℕ) : Act → Prop
  | .caller => True
  | .routine i => i ∉ stuck

theorem countP_le_card (p : Routine σ → Bool) (l : List (Routine σ)) (stuck : Finset ℕ)
    (h : ∀ i r, l[i]? = some r → p r = true → i ∈ stuck) : l.countP p ≤ stuck.card := by
  induction l using List.reverseRecOn generalizing stuck with
  | nil => simp
  | append_singleton l r ih =>
    have hinit : ∀ i r', l[i]? = some r' → (l ++ [r])[i]? = some r' ∧ i ≠ l.length := by
      intro i r' hi
      obtain ⟨hlt, _⟩ := List.getElem?_eq_some_iff.mp hi
      exact ⟨by rw [List.getElem?_append_left hlt, hi], by omega⟩
    rw [List.countP_append, List.countP_singleton]
    split
    · rename_i hr
      have hlast : l.length ∈ stuck := h l.length r (by simp) hr
      have hcard := Finset.card_erase_add_one hlast
      have hle := ih (stuck.erase l.length) fun i r' hi hp =>
        Finset.mem_erase.mpr ⟨(hinit i r' hi).2, h i r' (hinit i r' hi).1 hp⟩
      omega
    · exact ih stuck fun i r' hi hp => h i r' (hinit i r' hi).1 hp

/-- A routine that is not gone can take its next step. -/
theorem Inv.exists_step {cap : ℕ} {s : State σ} (h : Inv cap s) {i : ℕ} {r : Routine σ}
    (hi : s.routines[i]? = some r) (hr : r.isCounted = true) :
    step cap s (.routine i) ≠ none := by
  simp only [step, hi]
  cases r with
  | running t => cases t <;> simp
  | release =>
    have hheld : 0 < s.routines.countP Routine.holdsSlot :=
      List.countP_pos_iff.mpr ⟨_, List.mem_of_getElem? hi, rfl⟩
    have hsem : 0 < s.sem := by
      rw [h.sem]
      omega
    simp [hsem]
  | finish => simp
  | ended => cases hr

/-- With fewer stuck tasks than slots the caller never stays blocked on the
channel, and it is blocked on the wait group only while a stuck task is left. -/
theorem Inv.caller_blocked {cap : ℕ} {s : State σ} (h : Inv cap s) {stuck : Finset ℕ}
    (hstuck : stuck.card < cap)
    (hended : ∀ i r, s.routines[i]? = some r → r.isCounted = true → i ∈ stuck)
    (hblocked : step cap s .caller = none) :
    s.todo = [] ∧ (stuck = ∅ → s.phase = .returned) := by
  have hheld : s.routines.countP Routine.holdsSlot ≤ stuck.card := by
    apply countP_le_card
    intro i r hi hr
    refine hended i r hi ?_
    cases r with
    | ended => cases hr
    | _ => rfl
  cases hphase : s.phase with
  | loop => cases htodo : s.todo <;> simp [step, hphase, htodo] at hblocked
  | send =>
    have hsem := h.sem
    simp only [hphase, reduceCtorEq, if_false] at hsem
    simp only [step, hphase] at hblocked
    rw [if_pos (by omega)] at hblocked
    cases hblocked
  | spawn =>
    obtain ⟨task, todo, htodo⟩ := List.exists_cons_of_ne_nil (h.current (Or.inr hphase))
    simp [step, hphase, htodo] at hblocked
  | wait =>
    refine ⟨h.todo (Or.inl hphase), fun hempty => ?_⟩
    have hcounted : s.routines.countP Routine.isCounted ≤ stuck.card :=
      countP_le_card _ _ _ hended
    have hwg := h.wg
    simp only [hphase, reduceCtorEq, or_self, if_false] at hwg
    have hzero : s.wg = 0 := by
      rw [hempty, Finset.card_empty] at hcounted
      omega
    simp [step, hphase, hzero] at hblocked
  | returned => exact ⟨h.todo (Or.inr hphase), fun _ => rfl⟩

theorem length_step {cap : ℕ} (n : ℕ) (s : State σ) (a : Act) (t : State σ)
    (h : s.routines.length + s.todo.length = n) (hstep : step cap s a = some t) :
    t.routines.length + t.todo.length = n := by
  cases step_cases hstep with
  | spawn hphase hcons =>
    rw [hcons, List.length_cons] at h
    simp only [List.length_append, List.length_cons, List.length_nil]
    omega
  | _ => simpa using h

/-- A stuck task occupies its own slot and no more. However the steps are
ordered, a call comes to a state in which nothing but stuck tasks can move;
with fewer of those than slots every other task has come to its end there, and
with none of them the call has returned. -/
theorem runConcurrent_isolates (tasks : List (Program σ)) (maxConcurrent : ℤ) (shared : σ)
    (stuck : Finset ℕ) (hstuck : stuck.card < slots maxConcurrent) :
    (WellFounded fun t s : State σ => ∃ a, step (slots maxConcurrent) s a = some t) ∧
      ∀ acts s, run (step (slots maxConcurrent)) (start tasks shared) acts = some s →
        (∀ a, a.Free stuck → step (slots maxConcurrent) s a = none) →
        (∀ i < tasks.length, i ∉ stuck → s.routines[i]? = some .ended) ∧
          (stuck = ∅ → s.phase = .returned) := by
  refine ⟨wellFounded_step _, fun acts s hrun hblocked => ?_⟩
  have hinv := inv_run hrun
  have hended : ∀ i r, s.routines[i]? = some r → r.isCounted = true → i ∈ stuck := by
    intro i r hi hr
    by_contra hfree
    exact hinv.exists_step hi hr (hblocked (.routine i) hfree)
  obtain ⟨htodo, hreturned⟩ := hinv.caller_blocked hstuck hended (hblocked .caller trivial)
  refine ⟨fun i hi hfree => ?_, hreturned⟩
  have hlength : s.routines.length + s.todo.length = tasks.length :=
    run_invariant _ (length_step tasks.length) (by simp [start]) hrun
  rw [htodo, List.length_nil, Nat.add_zero] at hlength
  obtain ⟨r, hr⟩ : ∃ r, s.routines[i]? = some r :=
    ⟨_, List.getElem?_eq_getElem (by omega)⟩
  rw [hr]
  cases r with
  | ended => rfl
  | _ => exact absurd (hended i _ hr rfl) hfree

/-- The first of two tasks hangs, and the second one is done all the same. -/
theorem runConcurrent_isolates_second :
    ({0} : Finset ℕ).card < slots 2 ∧
      ∃ s, run (step (slots 2))
          (start [atomic (· + 1), atomic (· * 2)] 3)
          [.caller, .caller, .caller, .caller, .caller, .caller, .caller, .routine 1, .routine 1,
            .routine 1, .routine 1] = some s ∧
        s.phase = .wait ∧ (∀ a, a.Free {0} → step (slots 2) s a = none) ∧
        s.routines[1]? = some .ended := by
  refine ⟨by decide, ?_⟩
  obtain ⟨s, hrun, hphase, hcaller, hsecond, hlength⟩ : ∃ s, run (step (slots 2))
      (start [atomic (· + 1), atomic (· * 2)] 3)
      [.caller, .caller, .caller, .caller, .caller, .caller, .caller, .routine 1, .routine 1,
        .routine 1, .routine 1] = some s ∧ s.phase = .wait ∧ (step (slots 2) s .caller).isNone ∧
      (step (slots 2) s (.routine 1)).isNone ∧ s.routines.length = 2 := by
    apply exists_run_of_any
    decide
  have hblocked : ∀ a, a.Free {0} → step (slots 2) s a = none := by
    intro a hfree
    cases a with
    | caller => exact Option.isNone_iff_eq_none.mp hcaller
    | routine i =>
      match i with
      | 0 => exact absurd (Finset.mem_singleton_self 0) hfree
      | 1 => exact Option.isNone_iff_eq_none.mp hsecond
      | i + 2 =>
        have hnone : s.routines[i + 2]? = none := List.getElem?_eq_none (by omega)
        simp only [step, hnone]
  have hisolates := runConcurrent_isolates [atomic (· + 1), atomic (· * 2)] 2 3 {0} (by decide)
  exact ⟨s, hrun, hphase, hblocked, (hisolates.2 _ s hrun hblocked).1 1 (by decide) (by decide)⟩

end Grex.RunConcurrent
