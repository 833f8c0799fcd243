import Grex.Machine
import Mathlib.Data.List.Flatten
import Mathlib.Data.List.Perm.Basic
import Mathlib.Logic.Hydra

/-!
Tasks that share a state and run interleaved. A task is a program of atomic
actions, each of which may choose what follows from the state it finds. When
the actions of a task after its first one commute with everything the others
do, an interleaving of such tasks is the tasks one after the other, in the
order of their first actions.
-/

namespace Grex.Interleave

open Machine

variable {σ α β : Type*}

inductive Program (σ : Type*)
  | ret
  | act (update : σ → σ) (rest : σ → Program σ)

namespace Program

/-- What is left of a program after its next action. -/
def After (t' t : Program σ) : Prop := ∃ update rest s, t = .act update rest ∧ t' = rest s

/-- Every program comes to its end. -/
theorem wellFounded_after : WellFounded (@After σ) := by
  refine ⟨fun t => ?_⟩
  induction t with
  | ret =>
    refine ⟨_, fun t' h => ?_⟩
    obtain ⟨update, rest, s, heq, _⟩ := h
    cases heq
  | act update rest ih =>
    refine ⟨_, fun t' h => ?_⟩
    obtain ⟨update', rest', s, heq, rfl⟩ := h
    cases heq
    exact ih s

/-- The actions of a list, one by one. -/
def actions (g : β → σ → σ) : List β → Program σ
  | [] => .ret
  | b :: bs => .act (g b) fun _ => actions g bs

/-- One action, and then the actions it asks for. -/
def doing (first : σ → σ) (after : σ → List β) (g : β → σ → σ) : Program σ :=
  .act first fun s => actions g (after s)

/-- One action. -/
def atomic (f : σ → σ) : Program σ := .act f fun _ => .ret

end Program

open Program

/-- The next action of the program at a position. -/
def step (p : List (Program σ) × σ) (i : ℕ) : Option (List (Program σ) × σ) :=
  match p.1[i]? with
  | some (.act update rest) => some (p.1.set i (rest p.2), update p.2)
  | _ => none

theorem step_eq_some {p q : List (Program σ) × σ} {i : ℕ} :
    step p i = some q ↔ ∃ update rest, p.1[i]? = some (.act update rest) ∧
      q = (p.1.set i (rest p.2), update p.2) := by
  unfold step
  constructor
  · intro h
    split at h
    · rename_i update rest hi
      exact ⟨update, rest, hi, (Option.some.inj h).symm⟩
    · cases h
  · rintro ⟨update, rest, hi, rfl⟩
    simp only [hi]

/-- Replacing an entry of a list leaves the others. -/
theorem exists_perm_set (l : List α) (i : ℕ) (a b : α) (hi : l[i]? = some a) :
    ∃ others, l.Perm (a :: others) ∧ (l.set i b).Perm (b :: others) := by
  induction l generalizing i with
  | nil => simp at hi
  | cons c l ih =>
    cases i with
    | zero =>
      obtain rfl : c = a := by simpa using hi
      exact ⟨l, List.Perm.refl _, List.Perm.refl _⟩
    | succ i =>
      obtain ⟨others, hold, hnew⟩ := ih i (by simpa using hi)
      exact ⟨c :: others, (hold.cons c).trans (List.Perm.swap a c _),
        (hnew.cons c).trans (List.Perm.swap b c _)⟩

/-! ### One action that matters -/

section Doing

variable (first : α → σ → σ) (after : α → σ → List β) (g : β → σ → σ)

/-- A task as it was given, or the actions it has still to do. -/
def remains : α ⊕ List β → Program σ
  | .inl a => doing (first a) (after a) g
  | .inr bs => actions g bs

/-- The tasks that have not begun. -/
def unbegun (os : List (α ⊕ List β)) : List α := os.filterMap Sum.getLeft?

/-- The actions that the tasks under way have still to do. -/
def pending (os : List (α ⊕ List β)) : List β := os.flatMap (Sum.elim (fun _ => []) id)

/-- The state once they are done. -/
def settled (bs : List β) (s : σ) : σ := bs.foldl (fun s b => g b s) s

/-- A task without interruption. -/
def atOnce (s : σ) (a : α) : σ := settled g (after a s) (first a s)

variable {first after g}

theorem settled_perm {B : β → Prop} (hcomm : ∀ b b', B b → B b' → ∀ s, g b (g b' s) = g b' (g b s))
    {bs bs' : List β} (hperm : bs.Perm bs') (hbs : ∀ b ∈ bs, B b) (s : σ) :
    settled g bs s = settled g bs' s :=
  hperm.foldl_eq' (fun b hb b' hb' s => hcomm b' b (hbs b' hb') (hbs b hb) s) s

theorem first_settled (hfirst : ∀ a b s, first a (g b s) = g b (first a s)) (a : α) (bs : List β)
    (s : σ) : first a (settled g bs s) = settled g bs (first a s) := by
  induction bs generalizing s with
  | nil => rfl
  | cons b bs ih =>
    change first a (settled g bs (g b s)) = settled g bs (g b (first a s))
    rw [ih, hfirst]

theorem after_settled (hafter : ∀ a b s, after a (g b s) = after a s) (a : α) (bs : List β)
    (s : σ) : after a (settled g bs s) = after a s := by
  induction bs generalizing s with
  | nil => rfl
  | cons b bs ih => exact (ih (g b s)).trans (hafter a b s)

/-- What an interleaving has done is, once every task under way is done, some
of the tasks one after the other. -/
theorem run_doing {B : β → Prop}
    (hcomm : ∀ b b', B b → B b' → ∀ s, g b (g b' s) = g b' (g b s))
    (hfirst : ∀ a b s, first a (g b s) = g b (first a s))
    (hafter : ∀ a b s, after a (g b s) = after a s)
    (os : List (α ⊕ List β)) (hbegun : ∀ b ∈ pending os, B b)
    (hunbegun : ∀ a ∈ unbegun os, ∀ s, ∀ b ∈ after a s, B b) (s : σ) (sched : List ℕ)
    (q : List (Program σ) × σ) (hrun : run step (os.map (remains first after g), s) sched = some q) :
    ∃ (order : List α) (os' : List (α ⊕ List β)), q.1 = os'.map (remains first after g) ∧
      (unbegun os).Perm (order ++ unbegun os') ∧
      settled g (pending os') q.2 = order.foldl (atOnce first after g) (settled g (pending os) s) := by
  induction sched generalizing os s with
  | nil =>
    obtain rfl := Option.some.inj hrun
    exact ⟨[], os, rfl, List.Perm.refl _, rfl⟩
  | cons i sched ih =>
    obtain ⟨p, hstep, htail⟩ := run_cons_eq_some.mp hrun
    obtain ⟨update, rest, hi, rfl⟩ := step_eq_some.mp hstep
    rw [List.getElem?_map, Option.map_eq_some_iff] at hi
    obtain ⟨o, ho, hact⟩ := hi
    have hset : ∀ o', (os.map (remains first after g)).set i (remains first after g o') =
        (os.set i o').map (remains first after g) := fun o' => List.map_set.symm
    match o, ho, hact with
    | .inl a, ho, hact =>
      cases hact
      obtain ⟨others, hold, hnew⟩ := exists_perm_set os i (.inl a) (.inr (after a s)) ho
      have hpend : (pending (os.set i (.inr (after a s)))).Perm (pending os ++ after a s) := by
        have h1 := hold.flatMap_right (Sum.elim (fun _ => []) id)
        have h2 := hnew.flatMap_right (Sum.elim (fun _ => []) id)
        exact h2.trans ((List.perm_append_comm).trans (h1.symm.append_right _))
      have hun : (unbegun os).Perm (a :: unbegun (os.set i (.inr (after a s)))) := by
        have h1 := hold.filterMap Sum.getLeft?
        have h2 := hnew.filterMap Sum.getLeft?
        exact h1.trans (h2.symm.cons a)
      have ha : a ∈ unbegun os := hun.mem_iff.mpr List.mem_cons_self
      have hbegun' : ∀ b ∈ pending (os.set i (.inr (after a s))), B b := by
        intro b hb
        rcases List.mem_append.mp (hpend.mem_iff.mp hb) with hb | hb
        · exact hbegun b hb
        · exact hunbegun a ha s b hb
      obtain ⟨order, os', hq, hperm, hs⟩ := ih (os.set i (.inr (after a s))) hbegun'
        (fun a' ha' => hunbegun a' (hun.mem_iff.mpr (List.mem_cons_of_mem a ha')))
        (first a s) ((hset (.inr (after a s))) ▸ htail)
      refine ⟨a :: order, os', hq, hun.trans (hperm.cons a), hs.trans ?_⟩
      rw [List.foldl_cons, atOnce, after_settled hafter, first_settled hfirst,
        settled_perm hcomm hpend hbegun']
      simp only [settled, List.foldl_append]
    | .inr (b :: bs), ho, hact =>
      cases hact
      obtain ⟨others, hold, hnew⟩ := exists_perm_set os i (.inr (b :: bs)) (.inr bs) ho
      have hpend : (pending os).Perm (b :: pending (os.set i (.inr bs))) := by
        have h1 := hold.flatMap_right (Sum.elim (fun _ => []) id)
        have h2 := hnew.flatMap_right (Sum.elim (fun _ => []) id)
        exact h1.trans (h2.symm.cons b)
      have hun : (unbegun os).Perm (unbegun (os.set i (.inr bs))) :=
        (hold.filterMap Sum.getLeft?).trans (hnew.filterMap Sum.getLeft?).symm
      obtain ⟨order, os', hq, hperm, hs⟩ := ih (os.set i (.inr bs))
        (fun b' hb' => hbegun b' (hpend.mem_iff.mpr (List.mem_cons_of_mem b hb')))
        (fun a' ha' => hunbegun a' (hun.mem_iff.mpr ha')) (g b s) ((hset (.inr bs)) ▸ htail)
      refine ⟨order, os', hq, hun.trans hperm, hs.trans ?_⟩
      rw [settled_perm hcomm hpend hbegun]
      rfl

variable (first after g) in
/-- Tasks whose later actions commute with the other tasks run as if one after
the other. -/
theorem exists_order_of_finished {B : β → Prop}
    (hcomm : ∀ b b', B b → B b' → ∀ s, g b (g b' s) = g b' (g b s))
    (hfirst : ∀ a b s, first a (g b s) = g b (first a s))
    (hafter : ∀ a b s, after a (g b s) = after a s)
    (as : List α) (has : ∀ a ∈ as, ∀ s, ∀ b ∈ after a s, B b) (s : σ) (sched : List ℕ)
    (q : List (Program σ) × σ)
    (hrun : run step (as.map fun a => doing (first a) (after a) g, s) sched = some q)
    (hret : ∀ t ∈ q.1, t = .ret) :
    ∃ order, as.Perm order ∧ q.2 = order.foldl (atOnce first after g) s := by
  have hmap : (as.map fun a => doing (first a) (after a) g) =
      (as.map Sum.inl).map (remains first after g) := by
    rw [List.map_map]
    rfl
  have hpend : pending (as.map Sum.inl : List (α ⊕ List β)) = [] := by
    simp [pending]
  have hun : unbegun (as.map Sum.inl : List (α ⊕ List β)) = as := by
    simp [unbegun, List.filterMap_map, Function.comp_def]
  rw [hmap] at hrun
  obtain ⟨order, os', hq, hperm, hs⟩ := run_doing hcomm hfirst hafter (as.map Sum.inl)
    (by simp [hpend]) (by rwa [hun]) s sched q hrun
  have hgone : ∀ o ∈ os', o = .inr [] := by
    intro o ho
    have ht := hret _ (hq ▸ List.mem_map_of_mem ho)
    match o, ht with
    | .inr [], _ => rfl
  have hunbegun : unbegun os' = [] := by
    rw [unbegun, List.filterMap_eq_nil_iff]
    intro o ho
    rw [hgone o ho]
    rfl
  have hpending : pending os' = [] := by
    rw [pending, List.flatMap_eq_nil_iff]
    intro o ho
    rw [hgone o ho]
    rfl
  rw [hun, hunbegun, List.append_nil] at hperm
  rw [hpending, hpend] at hs
  exact ⟨order, hperm, hs⟩

end Doing

/-- Tasks of one action run in some order. -/
theorem exists_order_of_atomic (f : α → σ → σ) (as : List α) (s : σ) (sched : List ℕ)
    (q : List (Program σ) × σ) (hrun : run step (as.map fun a => atomic (f a), s) sched = some q)
    (hret : ∀ t ∈ q.1, t = .ret) :
    ∃ order, as.Perm order ∧ q.2 = order.foldl (fun s a => f a s) s :=
  exists_order_of_finished (B := fun _ => True) f (fun _ _ => ([] : List Empty)) (fun b => b.elim)
    (fun b => b.elim) (fun _ b => b.elim) (fun _ b => b.elim) as (by simp) s sched q hrun hret

/-- A machine that takes the entries of a list one at a time, whichever comes
first, can take them in any order. -/
theorem run_each {τ γ : Type*} [BEq α] [LawfulBEq α] (next : τ → γ → Option τ)
    (put : List α → σ → τ) (take : α → γ) (f : α → σ → σ)
    (hnext : ∀ as a s, a ∈ as → next (put as s) (take a) = some (put (as.erase a) (f a s)))
    (order as : List α) (hperm : as.Perm order) (s : σ) :
    run next (put as s) (order.map take) = some (put [] (order.foldl (fun s a => f a s) s)) := by
  induction order generalizing as s with
  | nil =>
    rw [hperm.eq_nil]
    rfl
  | cons a order ih =>
    have hmem : a ∈ as := hperm.mem_iff.mpr List.mem_cons_self
    rw [List.map_cons, run_cons_eq_some]
    exact ⟨_, hnext as a s hmem, ih (as.erase a) (by simpa using hperm.erase a) _⟩

end Grex.Interleave
