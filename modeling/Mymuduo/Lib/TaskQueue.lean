import Mathlib.Data.List.Infix
import Mathlib.Tactic.Common

/-!
# Mymuduo.Lib.TaskQueue — a task queue whose consumer takes batches

Producers `push` tasks on `pending`.  The one consumer takes everything pending as its `batch`
(`swap`), starts the tasks of the batch in order (`advance`), and drops the batch at the end of the
pass (`finish`).  `rest` is the part of the batch that has not been started; it is a suffix of the
batch by construction.  The task objects of a batch exist until `finish`, also those that have run.

`Tracks q ran pushed` says that the tasks started, the rest of the batch and the pending tasks are,
in this order, the tasks pushed.
-/

namespace Mymuduo.Lib

structure TaskQueue (F : Type*) where
  pending : List F
  batch : List F
  rest : List F
  suffix : rest <:+ batch

namespace TaskQueue

variable {F : Type*}

def empty : TaskQueue F := ⟨[], [], [], List.suffix_rfl⟩

def push (q : TaskQueue F) (f : F) : TaskQueue F := { q with pending := q.pending ++ [f] }

/-- Exchange the pending tasks with an empty batch. -/
def swap (q : TaskQueue F) : TaskQueue F := ⟨[], q.pending, q.pending, List.suffix_rfl⟩

/-- Start the next task of the batch. -/
def advance (q : TaskQueue F) : TaskQueue F :=
  { q with rest := q.rest.tail, suffix := (List.tail_suffix _).trans q.suffix }

/-- Drop the batch. -/
def finish (q : TaskQueue F) : TaskQueue F := ⟨q.pending, [], [], List.suffix_rfl⟩

@[simp] theorem push_pending (q : TaskQueue F) (f : F) :
    (q.push f).pending = q.pending ++ [f] := rfl
@[simp] theorem push_batch (q : TaskQueue F) (f : F) : (q.push f).batch = q.batch := rfl
@[simp] theorem push_rest (q : TaskQueue F) (f : F) : (q.push f).rest = q.rest := rfl
@[simp] theorem swap_pending (q : TaskQueue F) : q.swap.pending = [] := rfl
@[simp] theorem swap_batch (q : TaskQueue F) : q.swap.batch = q.pending := rfl
@[simp] theorem swap_rest (q : TaskQueue F) : q.swap.rest = q.pending := rfl
@[simp] theorem advance_pending (q : TaskQueue F) : q.advance.pending = q.pending := rfl
@[simp] theorem advance_batch (q : TaskQueue F) : q.advance.batch = q.batch := rfl
@[simp] theorem advance_rest (q : TaskQueue F) : q.advance.rest = q.rest.tail := rfl
@[simp] theorem finish_pending (q : TaskQueue F) : q.finish.pending = q.pending := rfl
@[simp] theorem finish_batch (q : TaskQueue F) : q.finish.batch = [] := rfl
@[simp] theorem finish_rest (q : TaskQueue F) : q.finish.rest = [] := rfl

/-- The tasks that have not been started. -/
def unrun (q : TaskQueue F) : List F := q.rest ++ q.pending

/-- The tasks that exist. -/
def held (q : TaskQueue F) : List F := q.batch ++ q.pending

theorem mem_unrun {q : TaskQueue F} {f : F} : f ∈ q.unrun ↔ f ∈ q.rest ∨ f ∈ q.pending :=
  List.mem_append

theorem mem_held {q : TaskQueue F} {f : F} : f ∈ q.held ↔ f ∈ q.batch ∨ f ∈ q.pending :=
  List.mem_append

theorem held_of_unrun {q : TaskQueue F} {f : F} (h : f ∈ q.unrun) : f ∈ q.held := by
  rcases mem_unrun.mp h with h | h
  · exact mem_held.mpr (.inl (q.suffix.subset h))
  · exact mem_held.mpr (.inr h)

/-! ### What the operations do to them -/

theorem mem_unrun_push {q : TaskQueue F} {f g : F} : g ∈ (q.push f).unrun ↔ g ∈ q.unrun ∨ g = f := by
  simp [mem_unrun, or_assoc]

theorem mem_held_push {q : TaskQueue F} {f g : F} : g ∈ (q.push f).held ↔ g ∈ q.held ∨ g = f := by
  simp [mem_held, or_assoc]

/-- With the old batch used up, a swap keeps the tasks that have not been started. -/
theorem unrun_swap {q : TaskQueue F} (hr : q.rest = []) : q.swap.unrun = q.unrun := by
  simp [unrun, hr]

theorem mem_held_swap {q : TaskQueue F} {g : F} : g ∈ q.swap.held ↔ g ∈ q.pending := by
  simp [mem_held]

theorem mem_unrun_of_rest {q : TaskQueue F} {f : F} {rest : List F} (hr : q.rest = f :: rest) :
    f ∈ q.unrun :=
  mem_unrun.mpr (.inl (hr ▸ List.mem_cons_self))

/-- The next task is the first of those that have not been started. -/
theorem unrun_eq_cons {q : TaskQueue F} {f : F} {rest : List F} (hr : q.rest = f :: rest) :
    q.unrun = f :: q.advance.unrun := by
  simp [unrun, hr]

@[simp] theorem held_advance (q : TaskQueue F) : q.advance.held = q.held := rfl

theorem unrun_finish {q : TaskQueue F} (hr : q.rest = []) : q.finish.unrun = q.unrun := by
  simp [unrun, hr]

theorem mem_held_finish {q : TaskQueue F} {g : F} : g ∈ q.finish.held ↔ g ∈ q.pending := by
  simp [mem_held]

/-! ### No operation of the consumer adds a task -/

theorem unrun_swap_subset (q : TaskQueue F) : q.swap.unrun ⊆ q.unrun := by
  intro f hf
  have hf : f ∈ q.pending := by simpa [unrun] using hf
  exact mem_unrun.mpr (.inr hf)

theorem unrun_advance_subset (q : TaskQueue F) : q.advance.unrun ⊆ q.unrun :=
  ((List.tail_sublist q.rest).append_right q.pending).subset

theorem unrun_finish_subset (q : TaskQueue F) : q.finish.unrun ⊆ q.unrun := by
  intro f hf
  have hf : f ∈ q.pending := by simpa [unrun] using hf
  exact mem_unrun.mpr (.inr hf)

/-! ### What producers can do -/

/-- `q'` is `q` after some pushes, as far as the tasks that have not been started go. -/
def Grows (q q' : TaskQueue F) : Prop := q'.rest = q.rest ∧ q.pending <+: q'.pending

theorem Grows.refl (q : TaskQueue F) : q.Grows q := ⟨rfl, List.prefix_rfl⟩

theorem grows_push (q : TaskQueue F) (f : F) : q.Grows (q.push f) := ⟨rfl, List.prefix_append ..⟩

theorem Grows.unrun {q q' : TaskQueue F} (h : q.Grows q') : q.unrun <+: q'.unrun := by
  unfold TaskQueue.unrun
  rw [h.1, List.prefix_append_right_inj]
  exact h.2

/-- No task but those in `K` is added. -/
structure Adds (K : F → Prop) (q q' : TaskQueue F) : Prop where
  pending : ∀ f ∈ q'.pending, f ∈ q.pending ∨ K f
  batch : ∀ f ∈ q'.batch, f ∈ q.held ∨ K f

namespace Adds

variable {K : F → Prop} {q q' q'' : TaskQueue F}

theorem refl (q : TaskQueue F) : Adds K q q :=
  ⟨fun _ hf => .inl hf, fun _ hf => .inl (mem_held.mpr (.inl hf))⟩

theorem held (h : Adds K q q') {f : F} (hf : f ∈ q'.held) : f ∈ q.held ∨ K f := by
  rcases mem_held.mp hf with hf | hf
  · exact h.batch f hf
  · exact (h.pending f hf).imp_left fun hf => mem_held.mpr (.inr hf)

theorem trans (h : Adds K q q') (h' : Adds K q' q'') : Adds K q q'' where
  pending f hf := (h'.pending f hf).elim (h.pending f) .inr
  batch f hf := (h'.batch f hf).elim h.held .inr

theorem push {f : F} (hf : K f) (q : TaskQueue F) : Adds K q (q.push f) := by
  refine ⟨fun g hg => ?_, fun g hg => .inl (mem_held.mpr (.inl hg))⟩
  rcases List.mem_append.mp hg with hg | hg
  · exact .inl hg
  · exact .inr (List.mem_singleton.mp hg ▸ hf)

theorem swap (q : TaskQueue F) : Adds K q q.swap :=
  ⟨fun _ hf => absurd hf List.not_mem_nil, fun _ hf => .inl (mem_held.mpr (.inr hf))⟩

theorem advance (q : TaskQueue F) : Adds K q q.advance :=
  ⟨fun _ hf => .inl hf, fun _ hf => .inl (mem_held.mpr (.inl hf))⟩

theorem finish (q : TaskQueue F) : Adds K q q.finish :=
  ⟨fun _ hf => .inl hf, fun _ hf => absurd hf List.not_mem_nil⟩

end Adds

/-! ### Every task once, in order -/

/-- Started, rest of the batch, pending: the tasks pushed, in their order. -/
def Tracks (q : TaskQueue F) (ran pushed : List F) : Prop := ran ++ q.rest ++ q.pending = pushed

theorem tracks_empty : (empty : TaskQueue F).Tracks [] [] := rfl

theorem Tracks.push {q : TaskQueue F} {ran pushed : List F} (h : q.Tracks ran pushed) (f : F) :
    (q.push f).Tracks ran (pushed ++ [f]) := by
  unfold Tracks at h ⊢
  rw [← h, push_rest, push_pending, ← List.append_assoc]

/-- A swap keeps the order because the old batch has been used up. -/
theorem Tracks.swap {q : TaskQueue F} {ran pushed : List F} (h : q.Tracks ran pushed)
    (hr : q.rest = []) : q.swap.Tracks ran pushed := by
  unfold Tracks at h ⊢
  rw [← h, hr, swap_rest, swap_pending, List.append_nil, List.append_nil]

theorem Tracks.advance {q : TaskQueue F} {ran pushed : List F} (h : q.Tracks ran pushed) {f : F}
    {rest : List F} (hr : q.rest = f :: rest) : q.advance.Tracks (ran ++ [f]) pushed := by
  unfold Tracks at h ⊢
  rw [← h, advance_rest, advance_pending, hr]
  simp

theorem Tracks.finish {q : TaskQueue F} {ran pushed : List F} (h : q.Tracks ran pushed)
    (hr : q.rest = []) : q.finish.Tracks ran pushed := by
  unfold Tracks at h ⊢
  rw [← h, hr]
  rfl

end TaskQueue

end Mymuduo.Lib
