import Mathlib.Data.Nat.Notation
import Mathlib.Algebra.Order.Group.Nat
import Mathlib.Tactic.Common

/-!
# Mymuduo.Lib.Refinement — objects with partial operations, and data refinement

An `Obj` answers each operation it allows with an output and a next state.  `Refines C A R` says
that whatever the abstract object `A` allows, the concrete object `C` does with the same output,
from states related by `R` to states related by `R`; `Refines.run` lifts this to any sequence of
operations.

`Obj.peak load` is the largest load of the operations of a sequence, each in the state it meets;
`le_peak_of_run` bounds a quantity by the peak when each operation bounds it by its load.
-/

namespace Mymuduo.Lib

/-- An object: `apply s op` is `none` when `op` is not allowed in `s`. -/
structure Obj (S Op Out : Type*) where
  apply : S → Op → Option (Out × S)

namespace Obj

variable {S T Op Out : Type*}

/-- Apply the operations in order and collect their outputs. -/
def run (O : Obj S Op Out) : S → List Op → Option (List Out × S)
  | s, [] => some ([], s)
  | s, op :: ops =>
    (O.apply s op).bind fun r => (run O r.2 ops).map fun q => (r.1 :: q.1, q.2)

theorem run_cons_eq_some {O : Obj S Op Out} {s s' : S} {op : Op} {ops : List Op}
    {outs : List Out} :
    O.run s (op :: ops) = some (outs, s') ↔
      ∃ out s₁ rest, O.apply s op = some (out, s₁) ∧ O.run s₁ ops = some (rest, s') ∧
        outs = out :: rest := by
  simp only [run, Option.bind_eq_some_iff, Option.map_eq_some_iff, Prod.exists, Prod.mk.injEq]
  constructor
  · rintro ⟨out, s₁, h1, rest, s₂, h2, h3, h4⟩
    exact ⟨out, s₁, rest, h1, h4 ▸ h2, h3.symm⟩
  · rintro ⟨out, s₁, rest, h1, h2, h3⟩
    exact ⟨out, s₁, h1, rest, s', h2, h3.symm, rfl⟩

/-- Data refinement of `A` by `C` under `R`. -/
def Refines (C : Obj S Op Out) (A : Obj T Op Out) (R : S → T → Prop) : Prop :=
  ∀ s t op out t', R s t → A.apply t op = some (out, t') →
    ∃ s', C.apply s op = some (out, s') ∧ R s' t'

/-- Refinement of every sequence of operations. -/
theorem Refines.run {C : Obj S Op Out} {A : Obj T Op Out} {R : S → T → Prop}
    (h : Refines C A R) {s : S} {t t' : T} {ops : List Op} {outs : List Out} (hR : R s t)
    (hA : A.run t ops = some (outs, t')) : ∃ s', C.run s ops = some (outs, s') ∧ R s' t' := by
  induction ops generalizing s t outs with
  | nil =>
    simp only [Obj.run, Option.some.injEq, Prod.mk.injEq] at hA
    obtain ⟨rfl, rfl⟩ := hA
    exact ⟨s, rfl, hR⟩
  | cons op ops ih =>
    obtain ⟨out, t₁, rest, h1, h2, rfl⟩ := run_cons_eq_some.mp hA
    obtain ⟨s₁, hs₁, hR₁⟩ := h s t op out t₁ hR h1
    obtain ⟨s', hs', hR'⟩ := ih hR₁ h2
    exact ⟨s', run_cons_eq_some.mpr ⟨out, s₁, rest, hs₁, hs', rfl⟩, hR'⟩

/-- An invariant of every operation is an invariant of every sequence of operations. -/
theorem invariant_of_run {O : Obj S Op Out} {I : S → Prop}
    (hI : ∀ s op out s', I s → O.apply s op = some (out, s') → I s') {s s' : S} {ops : List Op}
    {outs : List Out} (hs : I s) (h : O.run s ops = some (outs, s')) : I s' := by
  induction ops generalizing s outs with
  | nil =>
    simp only [Obj.run, Option.some.injEq, Prod.mk.injEq] at h
    exact h.2 ▸ hs
  | cons op ops ih =>
    obtain ⟨out, s₁, rest, h1, h2, -⟩ := run_cons_eq_some.mp h
    exact ih (hI s op out s₁ hs h1) h2

/-- A quantity that no operation decreases in a state satisfying an invariant is not decreased by
any sequence of operations. -/
theorem le_of_run {O : Obj S Op Out} {I : S → Prop} (μ : S → ℕ)
    (hI : ∀ s op out s', I s → O.apply s op = some (out, s') → I s' ∧ μ s ≤ μ s') {s s' : S}
    {ops : List Op} {outs : List Out} (hs : I s) (h : O.run s ops = some (outs, s')) :
    μ s ≤ μ s' := by
  induction ops generalizing s outs with
  | nil =>
    simp only [Obj.run, Option.some.injEq, Prod.mk.injEq] at h
    exact h.2 ▸ le_rfl
  | cons op ops ih =>
    obtain ⟨out, s₁, rest, h1, h2, -⟩ := run_cons_eq_some.mp h
    obtain ⟨hI₁, hle⟩ := hI s op out s₁ hs h1
    exact hle.trans (ih hI₁ h2)

/-- The largest load of the operations, as far as they are allowed. -/
def peak (O : Obj S Op Out) (load : S → Op → ℕ) : S → List Op → ℕ
  | _, [] => 0
  | s, op :: ops =>
    match O.apply s op with
    | some (_, s') => max (load s op) (peak O load s' ops)
    | none => load s op

theorem peak_cons {O : Obj S Op Out} {load : S → Op → ℕ} {s s' : S} {op : Op} {ops : List Op}
    {out : Out} (h : O.apply s op = some (out, s')) :
    O.peak load s (op :: ops) = max (load s op) (O.peak load s' ops) := by
  simp only [peak, h]

/-- A quantity that each operation bounds by its old value or by a function of its load is bounded
along every sequence by its value at the beginning or by that function of the peak. -/
theorem le_peak_of_run {O : Obj S Op Out} {load : S → Op → ℕ} {I : S → Prop} {m : S → ℕ} {g : ℕ → ℕ}
    (hg : Monotone g)
    (hI : ∀ s op out s', I s → O.apply s op = some (out, s') →
      I s' ∧ m s' ≤ max (m s) (g (load s op)))
    {s s' : S} {ops : List Op} {outs : List Out} (hs : I s) (h : O.run s ops = some (outs, s')) :
    m s' ≤ max (m s) (g (O.peak load s ops)) := by
  induction ops generalizing s outs with
  | nil =>
    simp only [Obj.run, Option.some.injEq, Prod.mk.injEq] at h
    exact h.2 ▸ le_max_left _ _
  | cons op ops ih =>
    obtain ⟨out, s₁, rest, h1, h2, -⟩ := run_cons_eq_some.mp h
    obtain ⟨hI₁, hle⟩ := hI s op out s₁ hs h1
    have hrest := ih hI₁ h2
    have h3 : g (load s op) ≤ g (O.peak load s (op :: ops)) :=
      hg ((le_max_left _ _).trans (peak_cons h1).ge)
    have h4 : g (O.peak load s₁ ops) ≤ g (O.peak load s (op :: ops)) :=
      hg ((le_max_right _ _).trans (peak_cons h1).ge)
    exact hrest.trans (max_le (hle.trans (max_le_max_left _ h3)) (le_max_of_le_right h4))

end Obj

end Mymuduo.Lib
