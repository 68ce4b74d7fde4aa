import Mymuduo.Lib.Progress

/-!
# Mymuduo.Lib.Simulation — histories, and the components of a system

* `Sys.logged M obs` is `M` with the history of what its steps show: `obs s l s'` for the step from
  `s` to `s'`; `Run.ofLogged` and `Run.logged` go between their infinite runs;
* `Reach.simulates` is the rule of forward simulation;
* `Reach.component`: a system creates a component on the way and takes it further by its steps.  If each
  step of the system is some steps of the component, then the component, wherever the system has come
  to, is in a reached state of its own.
-/

namespace Mymuduo.Lib

namespace Sys

variable {S L T K E : Type*} {M : Sys S L} {N : Sys T K}

/-- The system with its history. -/
def logged (M : Sys S L) (obs : S → L → S → List E) : Sys (S × List E) L where
  init x := M.init x.1 ∧ x.2 = []
  step x l := (M.step x.1 l).map fun s' => (s', x.2 ++ obs x.1 l s')

theorem step_logged {obs : S → L → S → List E} {x x' : S × List E} {l : L} :
    (M.logged obs).step x l = some x' ↔
      ∃ s', M.step x.1 l = some s' ∧ x' = (s', x.2 ++ obs x.1 l s') := by
  simp only [logged, Option.map_eq_some_iff]
  constructor
  · rintro ⟨s', hs, rfl⟩
    exact ⟨s', hs, rfl⟩
  · rintro ⟨s', hs, rfl⟩
    exact ⟨s', hs, rfl⟩

/-- The history does not change what is reached. -/
theorem Reach.of_logged {C : S → L → Prop} {obs : S → L → S → List E} {x : S × List E}
    (h : (M.logged obs).Reach (fun x => C x.1) x) : M.Reach C x.1 := by
  induction h with
  | init hi => exact .init hi.1
  | step _ hc hst ih =>
    obtain ⟨s', hs, rfl⟩ := step_logged.mp hst
    exact .step ih hc hs

/-- An infinite run without its history. -/
def Run.ofLogged {C : S → L → Prop} {obs : S → L → S → List E} (r : (M.logged obs).Run fun x => C x.1) :
    M.Run C where
  state n := (r.state n).1
  label := r.label
  start := .of_logged r.start
  met := r.met
  next n := by
    obtain ⟨s', hst, he⟩ := step_logged.mp (r.next n)
    rw [he]
    exact hst

/-- An infinite run with its history, from any history of its first state. -/
def Run.logged {C : S → L → Prop} (r : M.Run C) (obs : S → L → S → List E) (hist : List E)
    (h : (M.logged obs).Reach (fun x => C x.1) (r.state 0, hist)) : (M.logged obs).Run fun x => C x.1 where
  state n := (r.state n, n.rec hist fun n t => t ++ obs (r.state n) (r.label n) (r.state (n + 1)))
  label := r.label
  start := h
  met := r.met
  next n := step_logged.mpr ⟨_, r.next n, rfl⟩

theorem Run.next_logged {C : S × List E → L → Prop} {obs : S → L → S → List E} (r : (M.logged obs).Run C)
    (n : ℕ) : ∃ s', M.step (r.state n).1 (r.label n) = some s' ∧
      r.state (n + 1) = (s', (r.state n).2 ++ obs (r.state n).1 (r.label n) s') :=
  step_logged.mp (r.next n)

/-- The history grows at its end. -/
theorem Run.prefix_history {C : S × List E → L → Prop} {obs : S → L → S → List E}
    (r : (M.logged obs).Run C) {n m : ℕ} (h : n ≤ m) : (r.state n).2 <+: (r.state m).2 := by
  refine stable (r := r) (P := fun x => (r.state n).2 <+: x.2) (fun k hk => ?_) List.prefix_rfl h
  obtain ⟨s', -, he⟩ := r.next_logged k
  rw [he]
  exact hk.trans (List.prefix_append ..)

/-- **Forward simulation**: every step of the system is some steps of `N`. -/
theorem Reach.simulates {C : S → L → Prop} {D : T → K → Prop} {R : S → T → Prop} {s : S} (h : M.Reach C s)
    (h0 : ∀ s, M.init s → ∃ t, N.Reach D t ∧ R s t)
    (hstep : ∀ s l s' t, M.Reach C s → C s l → M.step s l = some s' → R s t → N.Reach D t →
      ∃ t', N.Reach D t' ∧ R s' t') : ∃ t, N.Reach D t ∧ R s t := by
  induction h with
  | init hi => exact h0 _ hi
  | step hr hc hst ih =>
    obtain ⟨t, ht, hR⟩ := ih
    exact hstep _ _ _ t hr hc hst hR ht

/-- **A component runs as a system of its own.**  `B` says that the component exists, `R` relates the
state of the system to that of the component. -/
theorem Reach.component {C : S → L → Prop} {D : T → K → Prop} {B : S → Prop} {R : S → T → Prop}
    {s : S} (h : M.Reach C s) (h0 : ∀ s, M.init s → ¬ B s)
    (hborn : ∀ s l s', M.Reach C s → C s l → M.step s l = some s' → ¬ B s → B s' →
      ∃ t, N.Reach D t ∧ R s' t)
    (hstep : ∀ s l s' t, M.Reach C s → C s l → M.step s l = some s' → B s → R s t → N.Reach D t →
      ∃ t', N.Reach D t' ∧ R s' t')
    (hb : B s) : ∃ t, N.Reach D t ∧ R s t := by
  induction h with
  | init hi => exact absurd hb (h0 _ hi)
  | @step s s' l hr hc hst ih =>
    by_cases hb' : B s
    · obtain ⟨t, ht, hR⟩ := ih hb'
      exact hstep s l s' t hr hc hst hb' hR ht
    · exact hborn s l s' hr hc hst hb' hb

end Sys

end Mymuduo.Lib
