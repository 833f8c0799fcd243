import Mathlib.Data.List.Basic
import Mathlib.Data.List.Induction
import Mathlib.Data.Option.Basic

/-!
Runs of a partial step function. A machine refuses an action by returning
`none`; a run is a list of actions that are all accepted. Invariants are
proved for one step and hold along every run. Conditions on the steps of a run
are stated at the state each step starts from, and an observer can be attached
to a machine without changing which runs it has.
-/

namespace Grex.Machine

variable {σ τ α β γ ω υ ε : Type*}

def run (step : σ → α → Option σ) : σ → List α → Option σ
  | s, [] => some s
  | s, a :: as => (step s a).bind fun t => run step t as

/-- Every step of the run meets the condition at the state it starts from. -/
def Along (step : σ → α → Option σ) (C : σ → α → Prop) : σ → List α → Prop
  | _, [] => True
  | s, a :: as => C s a ∧ ∀ t, step s a = some t → Along step C t as

instance decidableAlong (step : σ → α → Option σ) (C : σ → α → Prop) [∀ s a, Decidable (C s a)] :
    ∀ s acts, Decidable (Along step C s acts)
  | _, [] => isTrue trivial
  | s, a :: as =>
      match h : step s a with
      | none => decidable_of_iff (C s a) (by simp [Along, h])
      | some t =>
          have := decidableAlong step C t as
          decidable_of_iff (C s a ∧ Along step C t as) (by simp [Along, h])

def Reachable (step : σ → α → Option σ) (init s : σ) : Prop :=
  ∃ acts, run step init acts = some s

/-- The states a run passes through, its first and last ones included. -/
def Visits (step : σ → α → Option σ) (s : σ) (acts : List α) (t : σ) : Prop :=
  ∃ pre, pre <+: acts ∧ run step s pre = some t

variable {step : σ → α → Option σ} {C : σ → α → Prop}

@[simp] theorem run_nil (s : σ) : run step s [] = some s := rfl

theorem run_cons_eq_some {s u : σ} {a : α} {as : List α} :
    run step s (a :: as) = some u ↔ ∃ t, step s a = some t ∧ run step t as = some u := by
  simp only [run, Option.bind_eq_some_iff]

theorem run_append (s : σ) (as bs : List α) :
    run step s (as ++ bs) = (run step s as).bind fun t => run step t bs := by
  induction as generalizing s with
  | nil => rfl
  | cons a as ih =>
    simp only [List.cons_append, run, Option.bind_assoc, ih]

theorem run_append_eq_some {s u : σ} {as bs : List α} :
    run step s (as ++ bs) = some u ↔ ∃ t, run step s as = some t ∧ run step t bs = some u := by
  rw [run_append, Option.bind_eq_some_iff]

/-- A run on fixed inputs is found by evaluating it. -/
theorem exists_run_of_any {P : σ → Prop} [DecidablePred P] {s : σ} {acts : List α}
    (h : (run step s acts).any (fun t => decide (P t)) = true) :
    ∃ t, run step s acts = some t ∧ P t := by
  obtain ⟨t, hrun, ht⟩ := (Option.any_eq_true _ _).mp h
  exact ⟨t, hrun, of_decide_eq_true ht⟩

theorem along_of_forall {s : σ} {acts : List α} (h : ∀ a ∈ acts, ∀ s, C s a) :
    Along step C s acts := by
  induction acts generalizing s with
  | nil => trivial
  | cons a as ih =>
    refine ⟨h a List.mem_cons_self s, fun t _ => ?_⟩
    exact ih fun b hb => h b (List.mem_cons_of_mem a hb)

/-- A condition along a run holds along its first part, and at the step after that. -/
theorem along_append_cons {s t : σ} {a : α} {as bs : List α}
    (h : Along step C s (as ++ a :: bs)) (hrun : run step s as = some t) :
    Along step C s as ∧ C t a := by
  induction as generalizing s with
  | nil =>
    obtain rfl : s = t := Option.some.inj hrun
    exact ⟨trivial, h.1⟩
  | cons b as ih =>
    obtain ⟨u, hsu, htail⟩ := run_cons_eq_some.mp hrun
    obtain ⟨halong, hstep⟩ := ih (h.2 u hsu) htail
    refine ⟨⟨h.1, fun v hv => ?_⟩, hstep⟩
    obtain rfl : u = v := Option.some.inj (hsu.symm.trans hv)
    exact halong

/-- A property kept by every step that meets the condition holds after every
run whose steps all meet it. -/
theorem run_keeps (P : σ → Prop)
    (hstep : ∀ s a t, P s → C s a → step s a = some t → P t)
    {s u : σ} {acts : List α} (hs : P s) (halong : Along step C s acts)
    (hrun : run step s acts = some u) : P u := by
  induction acts generalizing s with
  | nil =>
    obtain rfl : s = u := Option.some.inj hrun
    exact hs
  | cons a as ih =>
    obtain ⟨t, hst, htu⟩ := run_cons_eq_some.mp hrun
    exact ih (hstep s a t hs halong.1 hst) (halong.2 t hst) htu

theorem run_invariant (P : σ → Prop)
    (hstep : ∀ s a t, P s → step s a = some t → P t)
    {s u : σ} {acts : List α} (hs : P s) (hrun : run step s acts = some u) : P u := by
  have halong : Along step (fun _ _ => True) s acts := along_of_forall fun _ _ _ => trivial
  exact run_keeps P (fun s a t hs _ hst => hstep s a t hs hst) hs halong hrun

/-- Steps that a total specification follows under a relation of the states give
runs that it follows. -/
theorem run_simulates {R : σ → τ → Prop} {spec : τ → α → τ}
    (hstep : ∀ s t a s', R s t → C s a → step s a = some s' → R s' (spec t a))
    {s s' : σ} {t : τ} {acts : List α} (hs : R s t) (halong : Along step C s acts)
    (hrun : run step s acts = some s') : R s' (acts.foldl spec t) := by
  induction acts generalizing s t with
  | nil =>
    obtain rfl : s = s' := Option.some.inj hrun
    exact hs
  | cons a as ih =>
    obtain ⟨u, hsu, htail⟩ := run_cons_eq_some.mp hrun
    exact ih (hstep s t a u hs halong.1 hsu) (halong.2 u hsu) htail

theorem reachable_invariant {init s : σ} (P : σ → Prop) (hinit : P init)
    (hstep : ∀ s a t, P s → step s a = some t → P t)
    (h : Reachable step init s) : P s := by
  obtain ⟨acts, hrun⟩ := h
  exact run_invariant P hstep hinit hrun

theorem visits_self (s : σ) (acts : List α) : Visits step s acts s :=
  ⟨[], List.nil_prefix, rfl⟩

theorem visits_cons {s t u : σ} {a : α} {as : List α} (hst : step s a = some t) :
    Visits step s (a :: as) u ↔ u = s ∨ Visits step t as u := by
  constructor
  · intro h
    obtain ⟨pre, hpre, hrun⟩ := h
    cases pre with
    | nil => exact Or.inl (Option.some.inj hrun).symm
    | cons b pre =>
      obtain ⟨rfl, hpre'⟩ := List.cons_prefix_cons.mp hpre
      obtain ⟨t', hst', hrun'⟩ := run_cons_eq_some.mp hrun
      obtain rfl : t = t' := Option.some.inj (hst.symm.trans hst')
      exact Or.inr ⟨pre, hpre', hrun'⟩
  · intro h
    rcases h with rfl | ⟨pre, hpre, hrun⟩
    · exact visits_self _ _
    · exact ⟨a :: pre, List.cons_prefix_cons.mpr ⟨rfl, hpre⟩, run_cons_eq_some.mpr ⟨t, hst, hrun⟩⟩

theorem visits_concat {s t u : σ} {a : α} {as : List α} (hrun : run step s as = some t)
    (hvisits : Visits step s (as ++ [a]) u) : Visits step s as u ∨ step t a = some u := by
  obtain ⟨pre, hpre, hu⟩ := hvisits
  rcases List.prefix_concat_iff.mp hpre with rfl | hpre'
  · obtain ⟨t', ht', hlast⟩ := run_append_eq_some.mp hu
    obtain rfl : t = t' := Option.some.inj (hrun.symm.trans ht')
    obtain ⟨u', hu', hend⟩ := run_cons_eq_some.mp hlast
    obtain rfl : u' = u := Option.some.inj hend
    exact Or.inr hu'
  · exact Or.inl ⟨pre, hpre', hu⟩

/-- A property that a run ends with and does not begin with was brought about by a
step, and has held ever since. -/
theorem exists_step_since (P : σ → Prop) {s t : σ} {acts : List α} (hs : ¬ P s)
    (hrun : run step s acts = some t) (ht : P t) :
    ∃ before a after u v, acts = before ++ a :: after ∧ run step s before = some u ∧ ¬ P u ∧
      step u a = some v ∧ ∀ w, Visits step v after w → P w := by
  induction acts using List.reverseRecOn generalizing t with
  | nil =>
    obtain rfl : s = t := Option.some.inj hrun
    exact absurd ht hs
  | append_singleton acts a ih =>
    obtain ⟨u, hu, hlast⟩ := run_append_eq_some.mp hrun
    obtain ⟨t', ht', hend⟩ := run_cons_eq_some.mp hlast
    obtain rfl : t' = t := Option.some.inj hend
    by_cases hPu : P u
    · obtain ⟨before, b, after, v, w, rfl, hv, hPv, hw, hsince⟩ := ih hu hPu
      refine ⟨before, b, after ++ [a], v, w, by simp, hv, hPv, hw, fun x hx => ?_⟩
      have hwu : run step w after = some u := by
        obtain ⟨v', hv', htail⟩ := run_append_eq_some.mp hu
        obtain rfl : v = v' := Option.some.inj (hv.symm.trans hv')
        obtain ⟨w', hw', hafter⟩ := run_cons_eq_some.mp htail
        obtain rfl : w = w' := Option.some.inj (hw.symm.trans hw')
        exact hafter
      rcases visits_concat hwu hx with hx' | hx'
      · exact hsince x hx'
      · obtain rfl : t' = x := Option.some.inj (ht'.symm.trans hx')
        exact ht
    · refine ⟨acts, a, [], u, t', rfl, hu, hPu, ht', fun x hx => ?_⟩
      obtain ⟨pre, hpre, hx'⟩ := hx
      obtain rfl : pre = [] := List.prefix_nil.mp hpre
      obtain rfl : t' = x := Option.some.inj hx'
      exact ht

/-- A property of the state and of all that has been done so far. -/
theorem run_history (P : List α → σ → Prop)
    (hstep : ∀ past s a t, P past s → step s a = some t → P (past ++ [a]) t)
    {s t : σ} {acts : List α} (hs : P [] s) (hrun : run step s acts = some t) : P acts t := by
  induction acts using List.reverseRecOn generalizing t with
  | nil =>
    obtain rfl : s = t := Option.some.inj hrun
    exact hs
  | append_singleton acts a ih =>
    obtain ⟨u, hu, hlast⟩ := run_append_eq_some.mp hrun
    obtain ⟨t', ht', hend⟩ := run_cons_eq_some.mp hlast
    obtain rfl : t' = t := Option.some.inj hend
    exact hstep acts u a t' (ih hu) ht'

/-- When the invariant survives exactly the steps that meet the condition, and
a step that misses it makes the property fail, the property holds in every
state of a run if and only if every step of the run meets the condition. -/
theorem visits_good_iff_along (Inv Good : σ → Prop)
    (hgood : ∀ s, Inv s → Good s)
    (hkeep : ∀ s a t, Inv s → C s a → step s a = some t → Inv t)
    (hbreak : ∀ s a t, Inv s → ¬ C s a → step s a = some t → ¬ Good t)
    {s u : σ} {acts : List α} (hs : Inv s) (hrun : run step s acts = some u) :
    (∀ t, Visits step s acts t → Good t) ↔ Along step C s acts := by
  induction acts generalizing s with
  | nil =>
    refine ⟨fun _ => trivial, fun _ t ⟨pre, hpre, hpt⟩ => ?_⟩
    obtain rfl : pre = [] := List.prefix_nil.mp hpre
    obtain rfl : s = t := Option.some.inj hpt
    exact hgood s hs
  | cons a as ih =>
    obtain ⟨t, hst, htu⟩ := run_cons_eq_some.mp hrun
    by_cases hC : C s a
    · have hrest := ih (hkeep s a t hs hC hst) htu
      constructor
      · intro hall
        refine ⟨hC, fun t' hst' => ?_⟩
        obtain rfl : t = t' := Option.some.inj (hst.symm.trans hst')
        exact hrest.mp fun v hv => hall v ((visits_cons hst).mpr (Or.inr hv))
      · intro halong v hv
        rcases (visits_cons hst).mp hv with rfl | hv'
        · exact hgood v hs
        · exact hrest.mpr (halong.2 t hst) v hv'
    · constructor
      · intro hall
        exact absurd (hall t ((visits_cons hst).mpr (Or.inr (visits_self t as))))
          (hbreak s a t hs hC hst)
      · intro halong
        exact absurd halong.1 hC

/-- Under an invariant that the condition keeps, one condition along a run
gives another. -/
theorem along_of_invariant {D : σ → α → Prop} (P : σ → Prop)
    (hkeep : ∀ s a t, P s → C s a → step s a = some t → P t)
    (hD : ∀ s a, P s → C s a → D s a) {s : σ} {acts : List α} (hs : P s)
    (halong : Along step C s acts) : Along step D s acts := by
  induction acts generalizing s with
  | nil => trivial
  | cons a as ih =>
    refine ⟨hD s a hs halong.1, fun t hst => ?_⟩
    exact ih (hkeep s a t hs halong.1 hst) (halong.2 t hst)

/-- Conditions that agree on the accepted steps agree along every run. -/
theorem along_congr {D : σ → α → Prop} (hiff : ∀ s a t, step s a = some t → (C s a ↔ D s a))
    {s u : σ} {acts : List α} (hrun : run step s acts = some u) :
    Along step C s acts ↔ Along step D s acts := by
  induction acts generalizing s with
  | nil => exact Iff.rfl
  | cons a as ih =>
    obtain ⟨t, hst, htu⟩ := run_cons_eq_some.mp hrun
    have hrest : (∀ v, step s a = some v → Along step C v as) ↔
        ∀ v, step s a = some v → Along step D v as := by
      simp only [hst, Option.some.injEq, forall_eq']
      exact ih htu
    exact and_congr (hiff s a t hst) hrest

/-- Attach an observer that sees each accepted step with the state it leads
to, and is never read by it. -/
def observed (step : σ → α → Option σ) (watch : γ → σ → α → σ → γ) :
    σ × γ → α → Option (σ × γ) :=
  fun p a => (step p.1 a).map fun t => (t, watch p.2 p.1 a t)

theorem observed_eq_some {watch : γ → σ → α → σ → γ} {p q : σ × γ} {a : α} :
    observed step watch p a = some q ↔ step p.1 a = some q.1 ∧ q.2 = watch p.2 p.1 a q.1 := by
  obtain ⟨t, g⟩ := q
  simp only [observed, Option.map_eq_some_iff, Prod.mk.injEq]
  constructor
  · intro h
    obtain ⟨t', ht, rfl, rfl⟩ := h
    exact ⟨ht, rfl⟩
  · intro h
    obtain ⟨ht, rfl⟩ := h
    exact ⟨t, ht, rfl, rfl⟩

/-- An observed run is a run. -/
theorem run_of_observed {watch : γ → σ → α → σ → γ} {p q : σ × γ} {acts : List α}
    (hrun : run (observed step watch) p acts = some q) : run step p.1 acts = some q.1 := by
  induction acts generalizing p with
  | nil =>
    obtain rfl : p = q := Option.some.inj hrun
    rfl
  | cons a acts ih =>
    obtain ⟨t, hst, htail⟩ := run_cons_eq_some.mp hrun
    exact run_cons_eq_some.mpr ⟨t.1, (observed_eq_some.mp hst).1, ih htail⟩

/-- Some event of a history, newest first, satisfies `P`, and all later ones `Q`. -/
def Since (P Q : ε → Prop) (history : List ε) : Prop :=
  ∃ later e earlier, history = later ++ e :: earlier ∧ P e ∧ ∀ e' ∈ later, Q e'

theorem not_since_nil {P Q : ε → Prop} : ¬ Since P Q [] := by
  rintro ⟨later, e, earlier, hnil, -⟩
  exact absurd hnil.symm (List.append_ne_nil_of_right_ne_nil later (List.cons_ne_nil e earlier))

theorem since_cons {P Q : ε → Prop} {e : ε} {history : List ε} :
    Since P Q (e :: history) ↔ P e ∨ Q e ∧ Since P Q history := by
  constructor
  · rintro ⟨later, e', earlier, heq, hP, hQ⟩
    rcases List.cons_eq_append_iff.mp heq with ⟨rfl, hhead⟩ | ⟨later', rfl, htail⟩
    · rw [(List.cons.inj hhead).1] at hP
      exact Or.inl hP
    · refine Or.inr ⟨hQ e List.mem_cons_self, later', e', earlier, htail, hP, fun x hx => ?_⟩
      exact hQ x (List.mem_cons_of_mem e hx)
  · rintro (hP | ⟨hQ, later, e', earlier, rfl, hP, hlater⟩)
    · exact ⟨[], e, history, rfl, hP, by simp⟩
    · exact ⟨e :: later, e', earlier, rfl, hP, List.forall_mem_cons.mpr ⟨hQ, hlater⟩⟩

/-- A run of a step function that also outputs, with the output of each step. -/
def trace (step : σ → α → Option (σ × ω)) : σ → List α → Option (σ × List ω)
  | s, [] => some (s, [])
  | s, a :: as =>
      (step s a).bind fun p => (trace step p.1 as).map fun q => (q.1, p.2 :: q.2)

theorem trace_cons_eq_some {step : σ → α → Option (σ × ω)} {s : σ} {a : α} {as : List α}
    {q : σ × List ω} :
    trace step s (a :: as) = some q ↔
      ∃ p rest, step s a = some p ∧ trace step p.1 as = some (q.1, rest) ∧ q.2 = p.2 :: rest := by
  obtain ⟨u, outs⟩ := q
  simp only [trace, Option.bind_eq_some_iff, Option.map_eq_some_iff, Prod.mk.injEq]
  constructor
  · intro h
    obtain ⟨p, hp, q, hq, rfl, rfl⟩ := h
    exact ⟨p, q.2, hp, hq, rfl⟩
  · intro h
    obtain ⟨p, rest, hp, hq, rfl⟩ := h
    exact ⟨p, hp, (u, rest), hq, rfl, rfl⟩

theorem trace_invariant {step : σ → α → Option (σ × ω)} (P : σ → Prop)
    (hstep : ∀ s a p, P s → step s a = some p → P p.1)
    {s : σ} {acts : List α} {q : σ × List ω} (hs : P s) (htrace : trace step s acts = some q) :
    P q.1 := by
  induction acts generalizing s q with
  | nil =>
    obtain rfl := Option.some.inj htrace
    exact hs
  | cons a as ih =>
    obtain ⟨p, rest, hp, hq, _⟩ := trace_cons_eq_some.mp htrace
    have htail := ih (hstep s a p hs hp) hq
    exact htail

/-- When each step of one machine is a step of a total one under an
abstraction of its states, actions and outputs, so is each of its runs. -/
theorem trace_refines {step : σ → α → Option (σ × ω)} {spec : τ → β → τ × υ}
    (state : σ → τ) (act : α → β) (out : ω → υ)
    (hstep : ∀ s a p, step s a = some p → spec (state s) (act a) = (state p.1, out p.2))
    {s : σ} {acts : List α} {q : σ × List ω} (htrace : trace step s acts = some q) :
    trace (fun t b => some (spec t b)) (state s) (acts.map act) =
      some (state q.1, q.2.map out) := by
  induction acts generalizing s q with
  | nil =>
    obtain rfl := Option.some.inj htrace
    rfl
  | cons a as ih =>
    obtain ⟨p, rest, hp, hq, hout⟩ := trace_cons_eq_some.mp htrace
    have htail := ih hq
    rw [List.map_cons, trace_cons_eq_some]
    refine ⟨spec (state s) (act a), rest.map out, rfl, ?_, ?_⟩
    · rw [hstep s a p hp]
      exact htail
    · rw [hstep s a p hp, hout, List.map_cons]

end Grex.Machine
