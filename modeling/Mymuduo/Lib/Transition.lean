import Mathlib.Data.Nat.Notation
import Mathlib.Tactic.Common

/-!
# Mymuduo.Lib.Transition — labelled transition systems with a partial step function

A system `M : Sys S L` has initial states and a step `M.step s l`, which is `none` when the label
`l` is not enabled in `s`.  Every choice of the environment (a schedule, a kernel result, what a
callback does) is part of the label, so that a run is the list of its labels and can be executed.

* `of_guard` inverts a step behind a guard;
* `Sys.exec` executes a list of labels, `Sys.execIf C` only while the condition `C` is met;
* `Sys.Reach C` are the states that end a run from an initial state whose steps all meet `C`,
  a condition on the state before a step and its label; `Reach.invariant` is its induction rule;
* `exec_invariant` is the rule for a given run, `exec_iff_exists` reads a property of its end off its
  labels;
* `Sys.Along Q` says that every step of the run given by a list of labels satisfies `Q`;
* `Sys.Leads A G` says that some steps with labels in `A` lead to a state in `G`.
-/

namespace Mymuduo.Lib

/-- A step behind a guard: the guard was met, and the next state is the one behind it. -/
theorem of_guard {S : Type*} {c : Prop} [Decidable c] {s s' : S}
    (h : (if c then some s else none) = some s') : c ∧ s = s' :=
  (Option.ite_none_right_eq_some.mp h).imp_right Option.some.inj

/-- A labelled transition system. -/
structure Sys (S L : Type*) where
  init : S → Prop
  step : S → L → Option S

namespace Sys

variable {S L : Type*} (M : Sys S L)

/-- Execute the labels in order. -/
def exec : S → List L → Option S
  | s, [] => some s
  | s, l :: ls => (M.step s l).bind fun s' => exec s' ls

/-- Execute the labels in order, as long as the steps meet `C`. -/
def execIf (C : S → L → Prop) [∀ s l, Decidable (C s l)] : S → List L → Option S
  | s, [] => some s
  | s, l :: ls => if C s l then (M.step s l).bind fun s' => execIf C s' ls else none

/-- `s` ends a run from an initial state all of whose steps meet `C`. -/
inductive Reach (C : S → L → Prop) : S → Prop
  | init {s : S} : M.init s → Reach C s
  | step {s s' : S} {l : L} : Reach C s → C s l → M.step s l = some s' → Reach C s'

/-- Every step of the run of `ls` from `s` satisfies `Q`. -/
def Along (Q : S → L → S → Prop) : S → List L → Prop
  | _, [] => True
  | s, l :: ls => ∀ s', M.step s l = some s' → Q s l s' ∧ Along Q s' ls

/-- Some steps with labels in `A` lead from `s` to a state in `G`. -/
inductive Leads (A : L → Prop) (G : S → Prop) : S → Prop
  | here {s : S} : G s → Leads A G s
  | step {s s' : S} {l : L} : A l → M.step s l = some s' → Leads A G s' → Leads A G s

variable {M}

@[simp] theorem exec_nil (s : S) : M.exec s [] = some s := rfl

theorem exec_cons (s : S) (l : L) (ls : List L) :
    M.exec s (l :: ls) = (M.step s l).bind fun s' => M.exec s' ls := rfl

theorem exec_cons_eq_some {s r : S} {l : L} {ls : List L} :
    M.exec s (l :: ls) = some r ↔ ∃ s', M.step s l = some s' ∧ M.exec s' ls = some r := by
  rw [exec_cons, Option.bind_eq_some_iff]

theorem exec_append_eq_some {s r t : S} {as bs : List L} (ha : M.exec s as = some r)
    (hb : M.exec r bs = some t) : M.exec s (as ++ bs) = some t := by
  induction as generalizing s with
  | nil =>
    obtain rfl := Option.some.inj ha
    exact hb
  | cons a as ih =>
    obtain ⟨s', hs, ha⟩ := exec_cons_eq_some.mp ha
    exact exec_cons_eq_some.mpr ⟨s', hs, ih ha⟩

/-- An invariant that holds initially and along every step meeting `C` holds of every reached
state. -/
theorem Reach.invariant {C : S → L → Prop} {I : S → Prop} {s : S} (h : M.Reach C s)
    (h0 : ∀ s, M.init s → I s)
    (hstep : ∀ s l s', I s → C s l → M.step s l = some s' → I s') : I s := by
  induction h with
  | init hi => exact h0 _ hi
  | step _ hc hs ih => exact hstep _ _ _ ih hc hs

/-- A weaker condition allows more. -/
theorem Reach.mono {C D : S → L → Prop} {s : S} (h : M.Reach C s) (hCD : ∀ s l, C s l → D s l) :
    M.Reach D s := by
  induction h with
  | init hi => exact .init hi
  | step _ hc hs ih => exact .step ih (hCD _ _ hc) hs

/-- What every allowed step keeps, a run of allowed steps keeps. -/
theorem exec_invariant {I : S → Prop} {A : L → Prop}
    (hI : ∀ s l s', I s → A l → M.step s l = some s' → I s') {s r : S} {ls : List L} (hs : I s)
    (hA : ∀ l ∈ ls, A l) (hr : M.exec s ls = some r) : I r := by
  induction ls generalizing s with
  | nil =>
    obtain rfl := Option.some.inj hr
    exact hs
  | cons l ls ih =>
    obtain ⟨s', hst, hr⟩ := exec_cons_eq_some.mp hr
    obtain ⟨hl, hA⟩ := List.forall_mem_cons.mp hA
    exact ih (hI s l s' hs hl hst) hA hr

/-- A property that each allowed step gives or keeps, depending on its label, is decided by the labels of
a run. -/
theorem exec_iff_exists {I P : S → Prop} {A p : L → Prop}
    (hI : ∀ s l s', I s → A l → M.step s l = some s' → I s')
    (hP : ∀ s l s', I s → A l → M.step s l = some s' → (P s' ↔ P s ∨ p l)) {s r : S} {ls : List L}
    (hs : I s) (hA : ∀ l ∈ ls, A l) (hr : M.exec s ls = some r) : P r ↔ P s ∨ ∃ l ∈ ls, p l := by
  induction ls generalizing s with
  | nil =>
    obtain rfl := Option.some.inj hr
    simp
  | cons l ls ih =>
    obtain ⟨s', hst, hr⟩ := exec_cons_eq_some.mp hr
    obtain ⟨hl, hA⟩ := List.forall_mem_cons.mp hA
    rw [ih (hI s l s' hs hl hst) hA hr, hP s l s' hs hl hst, or_assoc]
    simp only [List.mem_cons, exists_eq_or_imp]

/-- A run executed from a reached state ends in a reached state. -/
theorem Reach.exec {C : S → L → Prop} {s r : S} (h : M.Reach C s) (ls : List L)
    (hC : ∀ s, ∀ l ∈ ls, C s l) (hr : M.exec s ls = some r) : M.Reach C r := by
  induction ls generalizing s with
  | nil =>
    rw [exec_nil, Option.some.injEq] at hr
    exact hr ▸ h
  | cons l ls ih =>
    obtain ⟨s', hs, hr⟩ := exec_cons_eq_some.mp hr
    exact ih (.step h (hC s l (by simp)) hs) (fun s l hl => hC s l (by simp [hl])) hr

theorem Reach.execIf {C : S → L → Prop} [∀ s l, Decidable (C s l)] {s r : S} {ls : List L}
    (h : M.Reach C s) (hr : M.execIf C s ls = some r) : M.Reach C r := by
  induction ls generalizing s with
  | nil => exact Option.some.inj hr ▸ h
  | cons l ls ih =>
    simp only [Sys.execIf, Option.ite_none_right_eq_some, Option.bind_eq_some_iff] at hr
    obtain ⟨hC, s', hs, hr⟩ := hr
    exact ih (.step h hC hs) hr

/-- A run that is executed and ends in a state with the property `P` gives such a reached state. -/
theorem Reach.exists_of_execIf {C : S → L → Prop} [∀ s l, Decidable (C s l)] {P : S → Prop}
    [DecidablePred P] {s : S} (h : M.Reach C s) (ls : List L)
    (hr : (M.execIf C s ls).any (fun r => decide (P r)) = true) : ∃ r, M.Reach C r ∧ P r := by
  cases he : M.execIf C s ls with
  | none => simp [he] at hr
  | some r => exact ⟨r, h.execIf he, by simpa [he] using hr⟩

/-- Two properties of steps that agree in every state satisfying an invariant agree along runs; the
steps need to keep the invariant only if they have the first of the properties. -/
theorem along_congr {Q R : S → L → S → Prop} {I : S → Prop}
    (hI : ∀ s l s', I s → M.step s l = some s' → Q s l s' → I s')
    (hQR : ∀ s l s', I s → M.step s l = some s' → (Q s l s' ↔ R s l s')) :
    ∀ (ls : List L) (s : S), I s → (M.Along Q s ls ↔ M.Along R s ls)
  | [], _, _ => Iff.rfl
  | l :: ls, s, hs => by
    refine forall_congr' fun s' => forall_congr' fun hst => ?_
    rw [← hQR s l s' hs hst]
    exact and_congr_right fun hq => along_congr hI hQR ls s' (hI s l s' hs hst hq)

/-- What no step restores is true at the end exactly if no step has broken it: `Q` says of a step that
it does not break `I`, and `K` holds in every state. -/
theorem along_iff_of_exec {Q : S → L → S → Prop} {I K : S → Prop}
    (hK : ∀ s l s', K s → M.step s l = some s' → K s')
    (hQ : ∀ s l s', K s → I s → M.step s l = some s' → (I s' ↔ Q s l s'))
    (hI : ∀ s l s', K s → M.step s l = some s' → I s' → I s) {s r : S} {ls : List L} (hs : K s)
    (hr : M.exec s ls = some r) : I r ↔ I s ∧ M.Along Q s ls := by
  induction ls generalizing s with
  | nil =>
    obtain rfl := Option.some.inj hr
    exact (and_iff_left trivial).symm
  | cons l ls ih =>
    obtain ⟨s', hst, hr⟩ := exec_cons_eq_some.mp hr
    rw [ih (hK s l s' hs hst) hr]
    constructor
    · rintro ⟨hs', hal⟩
      have hIs := hI s l s' hs hst hs'
      refine ⟨hIs, fun s'' hst' => ?_⟩
      obtain rfl := Option.some.inj (hst.symm.trans hst')
      exact ⟨(hQ s l s' hs hIs hst).mp hs', hal⟩
    · rintro ⟨hIs, hal⟩
      obtain ⟨hq, hal⟩ := hal s' hst
      exact ⟨(hQ s l s' hs hIs hst).mpr hq, hal⟩

end Sys

end Mymuduo.Lib
