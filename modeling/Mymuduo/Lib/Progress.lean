import Mathlib.Algebra.GroupWithZero.Nat
import Mathlib.Data.Prod.Lex
import Mathlib.Order.WellFounded
import Mymuduo.Lib.Transition

/-!
# Mymuduo.Lib.Progress — infinite runs, and what happens in the end

* `exec_length_le` bounds the length of a finite run by a potential;
* `Sys.Run M C` are the infinite runs of `M`, from any reached state, whose steps all meet `C`;
* `Run.Often A` is fairness: steps with labels in `A` are taken again and again;
* `Run.LeadsTo P Q` says that `Q` holds at some time after `P` does.  `leadsTo_of_descent` proves it with a
  rank that is lower again and again, `leadsTo_of_rank` with one that no step raises and every step in `A`
  lowers, and `leadsTo_of_unless` where the steps in `A` are only not put off forever while `P` holds;
  `exists_of_rank` and `exists_of_unless` do the same for a step instead of a state;
* `Reach.exists_run` makes an infinite run of a schedule that can always go on.
-/

namespace Mymuduo.Lib

theorem lex_of_fst {a a' b b' : ℕ} (h : a < a') : toLex (a, b) < toLex (a', b') :=
  Prod.Lex.toLex_lt_toLex.mpr (.inl h)

theorem lex_of_snd {a b b' : ℕ} (h : b < b') : toLex (a, b) < toLex (a, b') :=
  Prod.Lex.toLex_lt_toLex.mpr (.inr ⟨rfl, h⟩)

namespace Sys

variable {S L : Type*}

section Length

variable {M : Sys S L}

/-- A potential that each step lowers, but for what `w` allows its label, bounds the length of a run. -/
theorem exec_length_le {I : S → Prop} {rank : S → ℕ} {w : L → ℕ}
    (hI : ∀ s l s', I s → M.step s l = some s' → I s')
    (hrank : ∀ s l s', I s → M.step s l = some s' → rank s' < rank s + w l) {s r : S} {ls : List L}
    (hs : I s) (hr : M.exec s ls = some r) : rank r + ls.length ≤ rank s + (ls.map w).sum := by
  induction ls generalizing s with
  | nil =>
    obtain rfl := Option.some.inj hr
    exact Nat.le_refl _
  | cons l ls ih =>
    obtain ⟨s', hst, hr⟩ := exec_cons_eq_some.mp hr
    have h1 := hrank s l s' hs hst
    have h2 := ih (hI s l s' hs hst) hr
    rw [List.length_cons, List.map_cons, List.sum_cons]
    omega

end Length

/-- An infinite run. -/
structure Run (M : Sys S L) (C : S → L → Prop) where
  state : ℕ → S
  label : ℕ → L
  start : M.Reach C (state 0)
  met : ∀ n, C (state n) (label n)
  next : ∀ n, M.step (state n) (label n) = some (state (n + 1))

variable {M : Sys S L} {C : S → L → Prop}

namespace Run

variable (r : M.Run C)

theorem reach (n : ℕ) : M.Reach C (r.state n) := by
  induction n with
  | zero => exact r.start
  | succ n ih => exact .step ih (r.met n) (r.next n)

/-- Steps with labels in `A` are taken again and again. -/
def Often (A : L → Prop) : Prop := ∀ n, ∃ m, n ≤ m ∧ A (r.label m)

/-- Whenever `P` holds, `Q` holds then or later. -/
def LeadsTo (P Q : S → Prop) : Prop := ∀ n, P (r.state n) → ∃ m, n ≤ m ∧ Q (r.state m)

variable {r} {P Q : S → Prop} {A : L → Prop}

/-- What every step keeps, holds from then on. -/
theorem stable (hP : ∀ n, P (r.state n) → P (r.state (n + 1))) {n m : ℕ} (hn : P (r.state n))
    (hm : n ≤ m) : P (r.state m) := by
  induction m, hm using Nat.le_induction with
  | base => exact hn
  | succ m _ ih => exact hP m ih

/-- `P` holds on until `Q` does. -/
theorem wait (hstep : ∀ n, P (r.state n) → Q (r.state (n + 1)) ∨ P (r.state (n + 1))) {n m : ℕ}
    (hn : P (r.state n)) (hm : n ≤ m) : (∃ j, n ≤ j ∧ j ≤ m ∧ Q (r.state j)) ∨ P (r.state m) := by
  induction m, hm using Nat.le_induction with
  | base => exact .inr hn
  | succ m hm ih =>
    rcases ih with ⟨j, hj, hjm, hq⟩ | hp
    · exact .inl ⟨j, hj, Nat.le_succ_of_le hjm, hq⟩
    · exact (hstep m hp).imp_left fun hq => ⟨m + 1, Nat.le_succ_of_le hm, le_rfl, hq⟩

/-- From `P` it comes to `Q`, or to `P` with a lower rank. -/
theorem leadsTo_of_descent {W : Type*} [Preorder W] [WellFoundedLT W] (rank : S → W)
    (h : ∀ n, P (r.state n) → ∃ m, n ≤ m ∧
      (Q (r.state m) ∨ P (r.state m) ∧ rank (r.state m) < rank (r.state n))) : r.LeadsTo P Q := by
  intro n
  induction hw : rank (r.state n) using WellFoundedLT.induction generalizing n with
  | _ w ih =>
    intro hn
    obtain ⟨m, hm, hq | ⟨hp, hlt⟩⟩ := h n hn
    · exact ⟨m, hm, hq⟩
    · obtain ⟨k, hk, hq⟩ := ih _ (hw ▸ hlt) m rfl hp
      exact ⟨k, hm.trans hk, hq⟩

/-- While `P` holds, no step raises the rank, every step in `A` lowers it, and the steps in `A` are not put off
forever: so it comes to a step at which `E` holds. -/
theorem exists_of_unless {W : Type*} [Preorder W] [WellFoundedLT W] (rank : S → W) {E : ℕ → Prop}
    (hA : ∀ n, ¬ ∀ m, n ≤ m → P (r.state m) ∧ ¬ A (r.label m))
    (hstep : ∀ n, P (r.state n) → E n ∨ P (r.state (n + 1)) ∧
      rank (r.state (n + 1)) ≤ rank (r.state n) ∧
      (A (r.label n) → rank (r.state (n + 1)) < rank (r.state n))) {n : ℕ} (hn : P (r.state n)) :
    ∃ m, n ≤ m ∧ P (r.state m) ∧ E m := by
  induction hw : rank (r.state n) using WellFoundedLT.induction generalizing n with
  | _ w ih =>
    by_contra hno
    have hwait : ∀ m, n ≤ m → P (r.state m) ∧ rank (r.state m) ≤ rank (r.state n) := by
      intro m hm
      induction m, hm using Nat.le_induction with
      | base => exact ⟨hn, le_rfl⟩
      | succ m hm ih =>
        rcases hstep m ih.1 with he | ⟨hp, hle, -⟩
        · exact absurd ⟨m, hm, ih.1, he⟩ hno
        · exact ⟨hp, hle.trans ih.2⟩
    refine hA n fun m hm => ⟨(hwait m hm).1, fun hl => ?_⟩
    obtain ⟨hm', hle⟩ := hwait m hm
    rcases hstep m hm' with he | ⟨hp, -, hlt⟩
    · exact hno ⟨m, hm, hm', he⟩
    · obtain ⟨k, hk, he⟩ := ih _ (hw ▸ (hlt hl).trans_le hle) hp rfl
      exact hno ⟨k, hm.trans (Nat.le_of_succ_le hk), he⟩

theorem exists_of_rank {W : Type*} [Preorder W] [WellFoundedLT W] (rank : S → W) {E : ℕ → Prop}
    (hA : r.Often A)
    (hstep : ∀ n, P (r.state n) → E n ∨ P (r.state (n + 1)) ∧
      rank (r.state (n + 1)) ≤ rank (r.state n) ∧
      (A (r.label n) → rank (r.state (n + 1)) < rank (r.state n))) {n : ℕ} (hn : P (r.state n)) :
    ∃ m, n ≤ m ∧ P (r.state m) ∧ E m := by
  refine exists_of_unless rank (fun n hno => ?_) hstep hn
  obtain ⟨m, hm, hl⟩ := hA n
  exact (hno m hm).2 hl

/-- While `P` holds, no step raises the rank, every step in `A` lowers it or leads to `Q`, and the steps in `A`
are not put off forever. -/
theorem leadsTo_of_unless {W : Type*} [Preorder W] [WellFoundedLT W] (rank : S → W)
    (hA : ∀ n, ¬ ∀ m, n ≤ m → P (r.state m) ∧ ¬ A (r.label m))
    (hstep : ∀ n, P (r.state n) → Q (r.state (n + 1)) ∨ P (r.state (n + 1)) ∧
      rank (r.state (n + 1)) ≤ rank (r.state n) ∧
      (A (r.label n) → rank (r.state (n + 1)) < rank (r.state n))) : r.LeadsTo P Q := by
  intro n hn
  obtain ⟨m, hm, -, hq⟩ := exists_of_unless rank (E := fun n => Q (r.state (n + 1))) hA hstep hn
  exact ⟨m + 1, Nat.le_succ_of_le hm, hq⟩

/-- **Progress by a rank.**  While `P` holds, no step raises the rank and every step in `A` lowers it, or
the step leads to `Q`. -/
theorem leadsTo_of_rank {W : Type*} [Preorder W] [WellFoundedLT W] (rank : S → W) (hA : r.Often A)
    (hstep : ∀ n, P (r.state n) → Q (r.state (n + 1)) ∨ P (r.state (n + 1)) ∧
      rank (r.state (n + 1)) ≤ rank (r.state n) ∧
      (A (r.label n) → rank (r.state (n + 1)) < rank (r.state n))) : r.LeadsTo P Q := by
  intro n hn
  obtain ⟨m, hm, -, hq⟩ := exists_of_rank rank (E := fun n => Q (r.state (n + 1))) hA hstep hn
  exact ⟨m + 1, Nat.le_succ_of_le hm, hq⟩

/-- Where no step in `A` is possible while `P` holds, and only steps to `Q` end it. -/
theorem leadsTo_of_blocked (hA : r.Often A)
    (hstep : ∀ n, P (r.state n) → Q (r.state (n + 1)) ∨ P (r.state (n + 1)) ∧ ¬ A (r.label n)) :
    r.LeadsTo P Q :=
  leadsTo_of_rank (fun _ => 0) hA fun n hp =>
    (hstep n hp).imp_right fun h => ⟨h.1, le_rfl, fun hl => absurd hl h.2⟩

end Run

/-- A schedule that can go on from every reached state makes an infinite run. -/
theorem Reach.exists_run {s : S} (h : M.Reach C s) (choose : ℕ → S → L)
    (hgo : ∀ n s, M.Reach C s → C s (choose n s) ∧ (M.step s (choose n s)).isSome = true) :
    ∃ r : M.Run C, r.state 0 = s ∧ ∀ n, r.label n = choose n (r.state n) := by
  let states : ℕ → {s // M.Reach C s} := fun n => n.rec ⟨s, h⟩ fun n x =>
    ⟨(M.step x.1 (choose n x.1)).get (hgo n x.1 x.2).2,
      .step x.2 (hgo n x.1 x.2).1 (Option.some_get _).symm⟩
  exact ⟨⟨fun n => (states n).1, fun n => choose n (states n).1, h, fun n => (hgo n _ (states n).2).1,
    fun n => (Option.some_get _).symm⟩, rfl, fun _ => rfl⟩

end Sys

end Mymuduo.Lib
