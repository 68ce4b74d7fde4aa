import Mathlib.Data.List.Infix
import Mathlib.Tactic.Common

/-!
# Mymuduo.Lib.Trace — order properties of a history

A history is a list of events, extended at its end.

* `Preceded P Q`: every event of kind `P` finds a history that satisfies `Q`;
* `NoneAfter P R`: no event of kind `R` comes after one of kind `P`;
* `Each G`: every event is related by `G` to the history it finds;
* `Before t x y`: in the history `t`, `x` comes before `y`.

The first three are kept by an extension that is judged from the old history alone.
-/

namespace Mymuduo.Lib

variable {E : Type*}

/-- Every event of kind `P` comes after a history that satisfies `Q`. -/
def Preceded (P : E → Prop) (Q : List E → Prop) (t : List E) : Prop :=
  ∀ pre e post, t = pre ++ e :: post → P e → Q pre

/-- No event of kind `R` comes after one of kind `P`. -/
def NoneAfter (P R : E → Prop) (t : List E) : Prop :=
  ∀ pre e post, t = pre ++ e :: post → P e → ∀ e' ∈ post, ¬ R e'

/-- Every event is related by `G` to the history it finds. -/
def Each (G : List E → E → Prop) (t : List E) : Prop := ∀ pre e post, t = pre ++ e :: post → G pre e

/-- `x` comes before `y`. -/
def Before (t : List E) (x y : E) : Prop := [x, y].Sublist t

instance [DecidableEq E] (t : List E) (x y : E) : Decidable (Before t x y) :=
  inferInstanceAs (Decidable (List.Sublist _ _))

/-- Where an event of an extended history stands: it is the new one, or an old one. -/
theorem eq_concat_cons {t pre post : List E} {x e : E} (h : t ++ [x] = pre ++ e :: post) :
    (pre = t ∧ e = x ∧ post = []) ∨ ∃ post', post = post' ++ [x] ∧ t = pre ++ e :: post' := by
  rcases List.eq_nil_or_concat post with rfl | ⟨post', y, rfl⟩
  · obtain ⟨rfl, h2⟩ := List.append_inj' h rfl
    exact .inl ⟨rfl, (List.singleton_inj.mp h2).symm, rfl⟩
  · rw [List.concat_eq_append, ← List.cons_append, ← List.append_assoc] at h
    obtain ⟨rfl, h2⟩ := List.append_inj' h rfl
    exact .inr ⟨post', by rw [List.singleton_inj.mp h2, List.concat_eq_append], rfl⟩

variable {P R : E → Prop} {Q : List E → Prop} {s t : List E} {x : E}

theorem Preceded.nil : Preceded P Q [] := fun pre e post h => by simp at h

theorem NoneAfter.nil : NoneAfter P R [] := fun pre e post h => by simp at h

theorem Preceded.concat (h : Preceded P Q t) (hx : P x → Q t) : Preceded P Q (t ++ [x]) := by
  intro pre e post he hP
  rcases eq_concat_cons he with ⟨rfl, rfl, -⟩ | ⟨post', -, rfl⟩
  · exact hx hP
  · exact h pre e post' rfl hP

theorem NoneAfter.concat (h : NoneAfter P R t) (hx : (∃ e ∈ t, P e) → ¬ R x) :
    NoneAfter P R (t ++ [x]) := by
  intro pre e post he hP e' he'
  rcases eq_concat_cons he with ⟨-, -, rfl⟩ | ⟨post', rfl, rfl⟩
  · simp at he'
  · rcases List.mem_append.mp he' with he' | he'
    · exact h pre e post' rfl hP e' he'
    · obtain rfl := List.mem_singleton.mp he'
      exact hx ⟨e, by simp, hP⟩

/-- An extension without events of kind `P`. -/
theorem Preceded.append (h : Preceded P Q t) (hs : ∀ e ∈ s, ¬ P e) : Preceded P Q (t ++ s) := by
  induction s generalizing t with
  | nil => rwa [List.append_nil]
  | cons x s ih =>
    rw [List.append_cons]
    exact ih (h.concat fun hP => absurd hP (hs x (by simp))) fun e he => hs e (by simp [he])

/-- An extension without events of kind `P`, and without events of kind `R` if there was one of
kind `P` before. -/
theorem NoneAfter.append (h : NoneAfter P R t) (hs : ∀ e ∈ s, ¬ P e)
    (hR : (∃ e ∈ t, P e) → ∀ e ∈ s, ¬ R e) : NoneAfter P R (t ++ s) := by
  induction s generalizing t with
  | nil => rwa [List.append_nil]
  | cons x s ih =>
    rw [List.append_cons]
    refine ih (h.concat fun hP => hR hP x (by simp)) (fun e he => hs e (by simp [he])) ?_
    rintro ⟨e, he, hP⟩ e' he'
    rcases List.mem_append.mp he with he | he
    · exact hR ⟨e, he, hP⟩ e' (by simp [he'])
    · obtain rfl := List.mem_singleton.mp he
      exact absurd hP (hs e (by simp))

section Each

variable {G : List E → E → Prop}

theorem Each.nil : Each G [] := fun pre e post h => by simp at h

theorem each_concat : Each G (t ++ [x]) ↔ Each G t ∧ G t x := by
  constructor
  · intro h
    refine ⟨fun pre e post he => ?_, h t x [] rfl⟩
    exact h pre e (post ++ [x]) (by rw [he, List.append_assoc, List.cons_append])
  · rintro ⟨h, hx⟩ pre e post he
    rcases eq_concat_cons he with ⟨rfl, rfl, -⟩ | ⟨post', -, rfl⟩
    · exact hx
    · exact h pre e post' rfl

/-- The extension sees the old history in front of its own. -/
theorem Each.append (h : Each G t) (hs : Each (fun pre => G (t ++ pre)) s) : Each G (t ++ s) := by
  intro pre e post he
  rcases List.append_eq_append_iff.mp he with ⟨mid, rfl, hmid⟩ | ⟨mid, ht, hmid⟩
  · exact hs mid e post hmid
  · cases mid with
    | nil =>
      rw [List.append_nil] at ht
      subst ht
      simpa using hs [] e post (by simpa using hmid.symm)
    | cons e' mid =>
      obtain ⟨rfl, -⟩ := List.cons_eq_cons.mp hmid
      exact h pre e mid ht

theorem Each.cons (h0 : G [] x) (h : Each (fun pre => G (x :: pre)) s) : Each G (x :: s) := by
  intro pre e post he
  cases pre with
  | nil =>
    obtain ⟨rfl, -⟩ := List.cons_eq_cons.mp he
    exact h0
  | cons y pre =>
    rw [List.cons_append] at he
    obtain ⟨rfl, he'⟩ := List.cons_eq_cons.mp he
    exact h pre e post he'

end Each

/-- The later of the two events splits the history. -/
theorem before_iff {y : E} : Before t x y ↔ ∃ pre post, t = pre ++ y :: post ∧ x ∈ pre := by
  constructor
  · intro h
    obtain ⟨pre, rest, rfl, hx, hy⟩ := List.cons_sublist_iff.mp h
    obtain ⟨mid, post, rfl⟩ := List.append_of_mem (List.singleton_sublist.mp hy)
    exact ⟨pre ++ mid, post, by simp, by simp [hx]⟩
  · rintro ⟨pre, post, rfl, hx⟩
    exact (List.singleton_sublist.mpr hx).append (List.singleton_sublist.mpr List.mem_cons_self)

theorem before_append {y : E} :
    Before (s ++ t) x y ↔ Before s x y ∨ Before t x y ∨ (x ∈ s ∧ y ∈ t) := by
  constructor
  · intro h
    obtain ⟨pre, post, he, hx⟩ := before_iff.mp h
    rcases List.append_eq_append_iff.mp he with ⟨mid, rfl, hmid⟩ | ⟨mid, rfl, hmid⟩
    · rcases List.mem_append.mp hx with hx | hx
      · exact .inr (.inr ⟨hx, by simp [hmid]⟩)
      · exact .inr (.inl (before_iff.mpr ⟨mid, post, hmid, hx⟩))
    · cases mid with
      | nil =>
        rw [List.nil_append] at hmid
        exact .inr (.inr ⟨by simpa using hx, hmid ▸ List.mem_cons_self⟩)
      | cons e mid =>
        obtain ⟨rfl, -⟩ := List.cons_eq_cons.mp hmid
        exact .inl (before_iff.mpr ⟨pre, mid, rfl, hx⟩)
  · rintro (h | h | ⟨hx, hy⟩)
    · exact h.trans (List.sublist_append_left s t)
    · exact h.trans (List.sublist_append_right s t)
    · exact (List.singleton_sublist.mpr hx).append (List.singleton_sublist.mpr hy)

/-- An extension without the later event. -/
theorem Before.of_append {y : E} (h : Before (s ++ t) x y) (hy : y ∉ t) : Before s x y := by
  rcases before_append.mp h with h | h | ⟨-, h⟩
  · exact h
  · exact absurd (h.subset (by simp)) hy
  · exact absurd h hy

theorem Before.mem_left {y : E} (h : Before t x y) : x ∈ t := h.subset (by simp)

theorem Before.mem_right {y : E} (h : Before t x y) : y ∈ t := h.subset (by simp)

/-- What does not come after itself comes at most once. -/
theorem NoneAfter.count_le_one [DecidableEq E] {a : E} (h : NoneAfter (· = a) (· = a) t) :
    t.count a ≤ 1 := by
  by_cases ha : a ∈ t
  · obtain ⟨pre, post, rfl, hpre⟩ := List.eq_append_cons_of_mem ha
    have hpost : a ∉ post := fun hm => h pre a post rfl rfl a hm rfl
    rw [List.count_append, List.count_cons_self, List.count_eq_zero_of_not_mem hpre,
      List.count_eq_zero_of_not_mem hpost]
  · rw [List.count_eq_zero_of_not_mem ha]
    exact Nat.zero_le _

end Mymuduo.Lib
