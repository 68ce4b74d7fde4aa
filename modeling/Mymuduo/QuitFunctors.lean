import Mymuduo.Functors

/-!
# Mymuduo.QuitFunctors — which pending functors a loop still runs after `quit()`

The loop tests `quit` only after `doPendingFunctors`, on a batch that an earlier swap has fixed.

* `Draining due l`: the swap of this iteration is still to come, or `due` has been taken;
* `Finishing due l`: the swap is behind, and the loop ends with having run exactly `due`;
* `ran_iff_of_quit`: of the functors pushed before a foreign `quit()`, the loop runs those already
  taken, and the pending ones iff `quit` is stored between the loop test and the swap.
-/

namespace Mymuduo

open Lib

/-- In `loop()`, past `quit_ = false`. -/
def LoopPc.inLoop : LoopPc → Bool
  | .test | .poll | .dispatch _ | .swap | .run | .running => true
  | _ => false

/-- Between the test of `quit` and the swap. -/
def LoopPc.willSwap : LoopPc → Bool
  | .poll | .dispatch _ | .swap => true
  | _ => false

namespace EventLoop

variable {F T : Type*}

/-- The functors that a swap has taken out of `pendingFunctors`. -/
def taken (l : EventLoop F T) : List F := l.ran ++ l.queue.rest

/-- The swap is still to come, or it has taken `due`. -/
structure Draining (due : List F) (l : EventLoop F T) : Prop where
  quit : l.quit = true
  pc : l.pc.inLoop = true ∨ l.pc = .exited
  pushed : due <+: l.pushed
  taken : l.pc.willSwap = false → due <+: l.taken

/-- The swap is behind, and `due` is what it and those before it have taken. -/
structure Finishing (due : List F) (l : EventLoop F T) : Prop where
  quit : l.quit = true
  pc : l.pc = .run ∨ l.pc = .running ∨ l.pc = .test ∨ l.pc = .exited
  taken : l.taken = due

@[simp] theorem queueInLoop_quit (l : EventLoop F T) (b : Bool) (f : F) :
    (l.queueInLoop b f).quit = l.quit := by
  unfold queueInLoop
  simp only
  split <;> rfl

@[simp] theorem queueInLoop_pushed (l : EventLoop F T) (b : Bool) (f : F) :
    (l.queueInLoop b f).pushed = l.pushed ++ [f] := by
  unfold queueInLoop
  simp only
  split <;> rfl

variable [DecidableEq T]

theorem pushed_step {l l' : EventLoop F T} {lbl : Label F T} (hs : l.step lbl = some l') :
    l.pushed <+: l'.pushed := by
  cases move_of_step hs with
  | foreignPush => exact List.prefix_append ..
  | ownQueueInLoop => simp
  | _ => exact List.prefix_rfl

/-- Only the swap takes functors. -/
theorem taken_step {l l' : EventLoop F T} {lbl : Label F T} (hs : l.step lbl = some l')
    (hn : lbl ≠ .swap) : l'.taken = l.taken := by
  obtain ⟨done, hr, hran, -⟩ := rest_step hs hn
  rw [taken, taken, hr, hran, List.append_assoc]

theorem Draining.step {due : List F} {l l' : EventLoop F T} {lbl : Label F T} (h : l.Draining due)
    (ht : l.queue.Tracks l.ran l.pushed) (hr : l.RestInv) (hl : lbl ≠ .enter)
    (hs : l.step lbl = some l') : l'.Draining due := by
  have hp := h.pushed.trans (pushed_step hs)
  have htk : lbl ≠ .swap → l.pc.willSwap = false → due <+: l'.taken := by
    intro hn hw
    rw [taken_step hs hn]
    exact h.taken hw
  cases move_of_step hs with
  | foreignPush | foreignWakeup => exact ⟨h.quit, h.pc, hp, htk (by simp)⟩
  | foreignQuit | ownQuit => exact ⟨rfl, h.pc, hp, htk (by simp)⟩
  | ownQueueInLoop =>
    refine ⟨by simpa using h.quit, by simpa using h.pc, hp, ?_⟩
    intro hw
    exact htk (by simp) (by simpa using hw)
  | enter => exact absurd rfl hl
  | clearQuit hpc =>
    have := h.pc
    simp [hpc, LoopPc.inLoop] at this
  | testQuit hpc =>
    refine ⟨h.quit, by simp [h.quit], hp, ?_⟩
    intro _
    exact htk (by simp) (by rw [hpc]; rfl)
  | pollReturn | handleRead | beginFunctors =>
    exact ⟨h.quit, .inl rfl, hp, fun hw => by cases hw⟩
  | swap hpc =>
    have hrest : l.queue.rest = [] := by simpa [RestInv, hpc] using hr
    refine ⟨h.quit, .inl rfl, hp, ?_⟩
    intro _
    show due <+: l.ran ++ l.queue.pending
    have heq : l.ran ++ l.queue.pending = l.pushed := by
      simpa [TaskQueue.Tracks, hrest] using ht
    rw [heq]
    exact h.pushed
  | runFunctor hpc | functorReturn hpc | endFunctors hpc =>
    refine ⟨h.quit, .inl rfl, hp, ?_⟩
    intro _
    exact htk (by simp) (by rw [hpc]; rfl)

theorem Finishing.step {due : List F} {l l' : EventLoop F T} {lbl : Label F T} (h : l.Finishing due)
    (hl : lbl ≠ .enter) (hs : l.step lbl = some l') : l'.Finishing due := by
  have htk : lbl ≠ .swap → l'.taken = due := fun hn => (taken_step hs hn).trans h.taken
  cases move_of_step hs with
  | foreignPush | foreignWakeup => exact ⟨h.quit, h.pc, htk (by simp)⟩
  | foreignQuit | ownQuit => exact ⟨rfl, h.pc, htk (by simp)⟩
  | ownQueueInLoop =>
    exact ⟨by simpa using h.quit, by simpa using h.pc, htk (by simp)⟩
  | enter => exact absurd rfl hl
  | testQuit => exact ⟨h.quit, by simp [h.quit], htk (by simp)⟩
  | runFunctor => exact ⟨h.quit, .inr (.inl rfl), htk (by simp)⟩
  | functorReturn => exact ⟨h.quit, .inl rfl, htk (by simp)⟩
  | endFunctors => exact ⟨h.quit, .inr (.inr (.inl rfl)), htk (by simp)⟩
  | clearQuit hpc | pollReturn hpc | handleRead hpc | beginFunctors hpc | swap hpc =>
    have := h.pc
    simp [hpc] at this

/-- What a run without a new `loop()` keeps of the two. -/
theorem ending_exec (due : List F) {l l' : EventLoop F T} {ls : List (Label F T)}
    (hi : l.queue.Tracks l.ran l.pushed ∧ l.RestInv) (hl : ∀ lbl ∈ ls, lbl ≠ .enter)
    (hs : sys.exec l ls = some l') :
    (l.Draining due → l'.Draining due) ∧ (l.Finishing due → l'.Finishing due) ∧ l'.RestInv := by
  refine ⟨fun hd => ?_, fun hf => ?_, ?_⟩
  · exact (Sys.exec_invariant (I := fun l => (l.queue.Tracks l.ran l.pushed ∧ l.RestInv) ∧ l.Draining due)
      (fun _ _ _ h hne hst => ⟨queueInv_step h.1 hst, h.2.step h.1.1 h.1.2 hne hst⟩) ⟨hi, hd⟩ hl hs).2
  · exact Sys.exec_invariant (fun _ _ _ h hne hst => h.step hne hst) hf hl hs
  · exact (Sys.exec_invariant (I := fun l => l.queue.Tracks l.ran l.pushed ∧ l.RestInv)
      (fun _ _ _ h _ hst => queueInv_step h hst) hi hl hs).2

theorem getElem?_of_prefix {xs ys : List F} {i : ℕ} {f : F} (h : xs <+: ys) (hf : xs[i]? = some f) :
    ys[i]? = some f := by
  obtain ⟨zs, rfl⟩ := h
  rw [List.getElem?_append_left (List.getElem?_eq_some_iff.mp hf).1]
  exact hf

/-- **What `quit()` drops**: of the functors pushed on a running loop before a foreign `quit()`, the
loop has run, when it returns, those it had taken; and the others iff `quit` was stored between the
loop test and the swap. -/
theorem ran_iff_of_quit {l l₁ l₂ : EventLoop F T} {t : T} {ls : List (Label F T)}
    (h : sys.Reach (fun _ _ => True) l) (hin : l.pc.inLoop = true)
    (hq : l.step (.foreignQuit t) = some l₁) (hl : ∀ lbl ∈ ls, lbl ≠ .enter)
    (hs : sys.exec l₁ ls = some l₂) (hx : l₂.pc = .exited) {i : ℕ} {f : F}
    (hf : l.pushed[i]? = some f) :
    l₂.ran[i]? = some f ↔ l.pc.willSwap = true ∨ i < l.taken.length := by
  have hi := tracks_of_reach h
  have hi₁ := queueInv_step hi hq
  obtain ⟨-, rfl⟩ := of_guard hq
  have hran : ∀ {r : List F}, l₂.RestInv → r <+: l₂.taken → r <+: l₂.ran := by
    intro r hr htk
    have hrest : l₂.queue.rest = [] := by simpa [RestInv, hx] using hr
    simpa [taken, hrest] using htk
  have hpre : l.taken <+: l.pushed := ⟨l.queue.pending, hi.1⟩
  by_cases hw : l.pc.willSwap = true
  · -- the swap that is still to come takes everything pushed so far
    obtain ⟨hd, -, hr⟩ := ending_exec l.pushed hi₁ hl hs
    have hd := hd ⟨rfl, .inl hin, List.prefix_rfl, fun h => by rw [h] at hw; cases hw⟩
    have hp := hran hr (hd.taken (by rw [hx]; rfl))
    simp only [hw, true_or, iff_true]
    exact getElem?_of_prefix hp hf
  · -- the swap is behind: nothing more is taken
    obtain ⟨-, hfin, hr⟩ := ending_exec l.taken hi₁ hl hs
    have hpc : l.pc = .run ∨ l.pc = .running ∨ l.pc = .test ∨ l.pc = .exited := by
      cases hp : l.pc <;> simp_all [LoopPc.willSwap, LoopPc.inLoop]
    have htk := (hfin ⟨rfl, hpc, rfl⟩).taken
    have hrest : l₂.queue.rest = [] := by simpa [RestInv, hx] using hr
    have heq : l₂.ran = l.taken := by simpa [taken, hrest] using htk
    simp only [hw, false_or, Bool.false_eq_true]
    rw [heq]
    constructor
    · intro hg
      exact (List.getElem?_eq_some_iff.mp hg).1
    · intro hlt
      have hg := getElem?_of_prefix hpre (List.getElem?_eq_getElem hlt)
      rw [hf] at hg
      rw [hg]
      exact List.getElem?_eq_getElem hlt

/-- Functor `7` is pushed and `quit` is stored while the loop is in `epoll_wait`. -/
theorem ran_iff_of_quit_poll :
    ∃ l₂ : EventLoop ℕ ℕ, sys.exec new [.enter, .clearQuit, .testQuit, .foreignPush 1 7,
        .foreignWakeup 1, .foreignQuit 1, .pollReturn true, .handleRead, .beginFunctors, .swap,
        .runFunctor, .functorReturn, .endFunctors, .testQuit] = some l₂ ∧ l₂.ran[0]? = some 7 := by
  have hr := (Sys.Reach.init (M := (sys : Sys (EventLoop ℕ ℕ) _)) (C := fun _ _ => True) rfl).exec
    [.enter, .clearQuit, .testQuit, .foreignPush 1 7, .foreignWakeup 1] (by simp) rfl
  have hl : ∀ lbl ∈ ([.pollReturn true, .handleRead, .beginFunctors, .swap, .runFunctor,
      .functorReturn, .endFunctors, .testQuit] : List (Label ℕ ℕ)), lbl ≠ .enter := by simp
  exact ⟨_, rfl, (ran_iff_of_quit (t := 1) hr rfl rfl hl rfl rfl rfl).mpr (.inl rfl)⟩

/-- Functor `7` is pushed and `quit` is stored while the loop runs an empty batch: dropped. -/
theorem ran_of_quit_dropped :
    ¬ ∀ (l l₁ l₂ : EventLoop ℕ ℕ) (t : ℕ) (ls : List (Label ℕ ℕ)), sys.Reach (fun _ _ => True) l →
      l.pc.inLoop = true → (∀ t, l.caller t = .outside) → l.step (.foreignQuit t) = some l₁ →
      (∀ lbl ∈ ls, lbl ≠ .enter) → sys.exec l₁ ls = some l₂ → l₂.pc = .exited →
      ∀ (i f : ℕ), l.pushed[i]? = some f → l₂.ran[i]? = some f := by
  intro h
  have hr := (Sys.Reach.init (M := (sys : Sys (EventLoop ℕ ℕ) _)) (C := fun _ _ => True) rfl).exec
    [.enter, .clearQuit, .testQuit, .pollReturn false, .beginFunctors, .swap, .foreignPush 1 7,
      .foreignWakeup 1] (by simp) rfl
  refine absurd (h _ _ _ 1 [.endFunctors, .testQuit] hr rfl ?_ rfl (by simp) rfl rfl 0 7 rfl)
    (by decide)
  intro t
  show Function.update (Function.update (fun _ => Caller.outside) 1 .beforeWakeup) 1 .outside t = _
  by_cases ht : t = 1 <;> simp [ht]

end EventLoop

end Mymuduo
