import Mymuduo.ServerProgress

/-!
# Mymuduo.ServerFair — no thread is ever stuck

From every reached state an infinite run goes on in which the thread of every loop comes on again and
again, and so does every worker thread that has a `TcpConnectionPtr`: all threads take their steps in turn.
-/

namespace Mymuduo

open Lib

namespace TcpServer

variable {cfg : Config} {s s' : TcpServer} {l : LoopId} {c : ConnId} {lab : Label}
  {C : TcpServer → Label → Prop}

theorem Placed.of_reach (h : (sys cfg).Reach C s) : Placed cfg (fun _ _ _ => True) s :=
  h.invariant (fun _ hs => hs ▸ .start) fun _ _ _ hi _ hst => hi.step hst

/-! ### The steps of the threads -/

/-- A dispatch that meets nothing. -/
def idle : DispatchEnv := { dispatchEnv 0 with accept := none }

/-- What the loops meet: the reports of epoll, and what a dispatch and a functor do and meet. -/
structure Meets where
  reports : LoopId → TcpServer → List (ℕ × Events)
  env : DispatchEnv
  calls : Functor → FunctorEnv
  ready : ∀ l s, Ready (s.poller l) (reports l s)
  accept : env.accept = none

/-- Nothing is reported. -/
def Meets.nothing : Meets where
  reports _ _ := []
  env := idle
  calls _ := quiet
  ready _ _ := by simp [Ready]
  accept := rfl

/-- What the thread of the loop `l` does next when user code does nothing of its own. -/
def nextOfLoop (w : Meets) (l : LoopId) (s : TcpServer) : Label :=
  if s.reactions l ≠ [] then .react l
  else match s.phase l with
    | .poll => .poll l (w.reports l s)
    | .dispatch => if s.active l = [] then .doPendingFunctors l else .dispatch l w.env
    | .functors =>
      match (s.queue l).rest with
      | [] => .endFunctors l
      | f :: _ => .runFunctor l (w.calls f)
    | .running _ => .functorReturn l

/-- What the worker thread `t` does next: it never drops its pointer.  Without one, the base loop goes on. -/
def nextOfWorker (w : Meets) (t : ℕ) (s : TcpServer) : Label :=
  match s.worker t with
  | .outside => nextOfLoop w 0 s
  | .holding _ => .workerTest t .send
  | .storing _ => .workerStore t
  | .queueing _ _ => .workerQueue t

/-- All threads in turn. -/
def inTurn (cfg : Config) (w : Meets) (n : ℕ) (s : TcpServer) : Label :=
  if n % (cfg.numThreads + 1 + cfg.workers) ≤ cfg.numThreads then
    nextOfLoop w (n % (cfg.numThreads + 1 + cfg.workers)) s
  else nextOfWorker w (n % (cfg.numThreads + 1 + cfg.workers) - (cfg.numThreads + 1)) s

theorem loop_nextOfLoop (w : Meets) (l : LoopId) (s : TcpServer) : (nextOfLoop w l s).loop = some l := by
  unfold nextOfLoop
  split
  · rfl
  · cases s.phase l with
    | poll => rfl
    | dispatch =>
      simp only
      split <;> rfl
    | functors =>
      simp only
      split <;> rfl
    | running f => rfl

theorem advances_nextOfLoop (h : s.reactions l = []) : (nextOfLoop w l s).advances l := by
  rw [nextOfLoop, if_neg (not_not.mpr h)]
  cases s.phase l with
  | poll => rfl
  | dispatch =>
    simp only
    split <;> rfl
  | functors =>
    simp only
    split <;> rfl
  | running f => rfl

/-- The thread of a loop is never stuck. -/
theorem isSome_nextOfLoop {F : LoopId → ℕ → ChannelPtr → Prop} (h : Placed cfg F s)
    (hl : l ≤ cfg.numThreads) : (step cfg s (nextOfLoop w l s)).isSome = true := by
  unfold nextOfLoop
  cases hre : s.reactions l with
  | cons x rest => simp [step, hre]
  | nil =>
    rw [if_neg (not_not.mpr rfl)]
    cases hp : s.phase l with
    | poll => simp [step, hl, hp, w.ready l s]
    | dispatch =>
      cases ha : s.active l with
      | nil => simp [step, hp, hre, ha]
      | cons ptr rest =>
        have hhome := h.active l ptr (ha ▸ List.mem_cons_self)
        have hst : step cfg s (.dispatch l w.env) = (s.setActive l rest).handleEvent cfg l ptr w.env := by
          simp only [step, hp, hre, ha]
        rw [if_neg (List.cons_ne_nil ptr rest), hst]
        cases ptr with
        | wakeup l' => rfl
        | accept =>
          simp only [handleEvent, w.accept]
          rfl
        | conn c =>
          simp only [handleEvent]
          rw [if_neg (show ¬ ¬ c < (s.setActive l rest).accepted from not_not.mpr hhome.1)]
          split <;> rfl
    | functors =>
      cases hr : (s.queue l).rest with
      | nil => simp [step, hp, hre, hr]
      | cons f rest => simp [step, hp, hre, hr]
    | running f => simp [step, hp, hre]

theorem isSome_nextOfWorker {F : LoopId → ℕ → ChannelPtr → Prop} (h : Placed cfg F s) (t : ℕ) :
    (step cfg s (nextOfWorker w t s)).isSome = true := by
  unfold nextOfWorker
  cases hw : s.worker t with
  | outside => exact isSome_nextOfLoop h (Nat.zero_le _)
  | _ => simp [step, hw]

theorem isSome_inTurn {F : LoopId → ℕ → ChannelPtr → Prop} (h : Placed cfg F s) (n : ℕ) :
    (step cfg s (inTurn cfg w n s)).isSome = true := by
  unfold inTurn
  split
  next hle => exact isSome_nextOfLoop h hle
  next => exact isSome_nextOfWorker h _

theorem inTurn_of_loop {n : ℕ} (h : (inTurn cfg w n s).loop = some l) :
    inTurn cfg w n s = nextOfLoop w l s := by
  unfold inTurn at h ⊢
  split at h
  next hle =>
    rw [loop_nextOfLoop] at h
    rw [if_pos hle, Option.some.inj h]
  next hgt =>
    rw [if_neg hgt]
    unfold nextOfWorker at h ⊢
    split at h
    next => rw [← Option.some.inj ((loop_nextOfLoop w 0 s).symm.trans h)]
    all_goals cases h

theorem inTurn_ne_workerDrop (w : Meets) (n t : ℕ) (s : TcpServer) : inTurn cfg w n s ≠ .workerDrop t := by
  unfold inTurn nextOfWorker nextOfLoop
  grind

theorem env_of_inTurn {n : ℕ} {env : DispatchEnv} (h : inTurn cfg w n s = .dispatch l env) :
    env = w.env := by
  have hnext := inTurn_of_loop (l := l) (by rw [h]; rfl)
  rw [h] at hnext
  unfold nextOfLoop at hnext
  grind

theorem reports_of_inTurn {n : ℕ} {reports : List (ℕ × Events)} (h : inTurn cfg w n s = .poll l reports) :
    reports = w.reports l s := by
  have hnext := inTurn_of_loop (l := l) (by rw [h]; rfl)
  rw [h] at hnext
  unfold nextOfLoop at hnext
  grind

/-- The steps of the worker thread `t`. -/
def Label.ofWorker (t : ℕ) : Label → Prop
  | .workerTake u _ | .workerTest u _ | .workerStore u | .workerQueue u | .workerDrop u => u = t
  | _ => False

theorem worker_of_step {t : ℕ} (hl : ¬ lab.ofWorker t) (hst : step cfg s lab = some s') :
    s'.worker t = s.worker t := by
  cases move_of_step hst with
  | poll k reports =>
    obtain ⟨r, hr⟩ := fillActiveChannels_eq s k reports
    rw [hr]
    rfl
  | dispatch k env ptr rest s' _ _ _ hev =>
    rcases handleEvent_cases hev with rfl | ⟨-, fd, highWater, -, -, rfl⟩ | ⟨c, -, -, -, rfl⟩
    · rfl
    · unfold newConnection
      simp only
      split <;> rfl
    · rfl
  | react k c e rest =>
    cases e with
    | closeCallback =>
      simp only [TcpServer.react, removeConnection]
      split <;> rfl
    | _ => rfl
  | runFunctor k env f rest => cases f <;> rfl
  | workerTake | workerTest | workerStore | workerQueue | workerDrop =>
    exact Function.update_of_ne (Ne.symm hl) ..
  | _ => rfl

theorem worker_ne_outside {t : ℕ} (h : s.worker t ≠ .outside) (hl : lab ≠ .workerDrop t)
    (hst : step cfg s lab = some s') : s'.worker t ≠ .outside := by
  by_cases ht : lab.ofWorker t
  · cases move_of_step hst with
    | workerTake u c _ hw =>
      obtain rfl : u = t := ht
      exact absurd hw h
    | workerTest u call c =>
      obtain rfl : u = t := ht
      have hw : (s.setWorker u (s.tested c call)).worker u = s.tested c call := Function.update_self ..
      rw [hw]
      unfold tested
      split
      · cases call <;> simp
      · simp
    | workerStore u c =>
      obtain rfl : u = t := ht
      simp [setWorker]
    | workerQueue u c call =>
      obtain rfl : u = t := ht
      simp [setWorker]
    | workerDrop u c =>
      obtain rfl : u = t := ht
      exact absurd rfl hl
    | _ => exact absurd ht id
  · rw [worker_of_step ht hst]
    exact h

/-! ### The run -/

/-- A reaction less. -/
theorem reactions_of_react (hst : step cfg s (.react l) = some s') :
    ∃ x, s.reactions l = x :: s'.reactions l := by
  cases move_of_step hst with
  | react _ c e rest hre => exact ⟨(c, e), (reactions_react s l rest c e).symm ▸ hre⟩

/-- Each turn comes again and again. -/
theorem often_turn (cfg : Config) {i : ℕ} (hi : i < cfg.numThreads + 1 + cfg.workers) (n : ℕ) :
    ∃ m, n ≤ m ∧ m % (cfg.numThreads + 1 + cfg.workers) = i := by
  refine ⟨n * (cfg.numThreads + 1 + cfg.workers) + i, ?_, ?_⟩
  · exact (Nat.le_mul_of_pos_right n (by omega)).trans (Nat.le_add_right ..)
  · rw [Nat.mul_comm, Nat.mul_add_mod, Nat.mod_eq_of_lt hi]

section Run

variable {r : (sys cfg).Run C} (hlab : ∀ n, r.label n = inTurn cfg w n (r.state n))
include hlab

theorem often_loop (hl : l ≤ cfg.numThreads) : r.Often fun lab => lab.loop = some l := by
  intro n
  obtain ⟨m, hm, hturn⟩ := often_turn cfg (Nat.lt_add_right _ (Nat.lt_succ_of_le hl)) n
  refine ⟨m, hm, ?_⟩
  rw [hlab, inTurn, hturn, if_pos hl]
  exact loop_nextOfLoop w l _

/-- Everything that a callback has left to do is done. -/
theorem leadsTo_reacted (hl : l ≤ cfg.numThreads) :
    r.LeadsTo (fun s => s.reactions l ≠ []) fun s => s.reactions l = [] := by
  refine Sys.Run.leadsTo_of_rank (fun s => (s.reactions l).length) (often_loop hlab hl) fun k hk => ?_
  by_cases hown : (r.label k).loop = some l
  · have hnext : r.label k = .react l := by
      rw [hlab] at hown
      rw [hlab, inTurn_of_loop hown, nextOfLoop, if_pos hk]
    have hst : step cfg (r.state k) (.react l) = some (r.state (k + 1)) := hnext ▸ r.next k
    obtain ⟨x, hre⟩ := reactions_of_react hst
    by_cases hrest : (r.state (k + 1)).reactions l = []
    · exact .inl hrest
    · rw [hre]
      exact .inr ⟨hrest, Nat.le_succ _, fun _ => Nat.lt_succ_self _⟩
  · rw [reactions_of_ne (.of_reach (r.reach k)) hown (r.next k)]
    exact .inr ⟨hk, le_rfl, fun h => absurd h hown⟩

theorem often_advances (hl : l ≤ cfg.numThreads) : r.Often (Label.advances l) := by
  intro n
  obtain ⟨m, hm, hre⟩ : ∃ m, n ≤ m ∧ (r.state m).reactions l = [] := by
    by_cases hre : (r.state n).reactions l = []
    · exact ⟨n, le_rfl, hre⟩
    · exact leadsTo_reacted hlab hl n hre
  -- until its next turn nothing is left to do for the loop
  have hwait : ∀ j, m ≤ j → (∃ i, m ≤ i ∧ (r.label i).advances l) ∨ (r.state j).reactions l = [] := by
    intro j hj
    induction j, hj using Nat.le_induction with
    | base => exact .inr hre
    | succ j hj ih =>
      rcases ih with hadv | hre
      · exact .inl hadv
      · by_cases hown : (r.label j).loop = some l
        · refine .inl ⟨j, hj, ?_⟩
          rw [hlab] at hown ⊢
          exact inTurn_of_loop hown ▸ advances_nextOfLoop hre
        · exact .inr ((reactions_of_ne (.of_reach (r.reach j)) hown (r.next j)).trans hre)
  obtain ⟨j, hj, hown⟩ := often_loop hlab hl m
  rcases hwait j hj with ⟨i, hi, hadv⟩ | hre
  · exact ⟨i, hm.trans hi, hadv⟩
  · refine ⟨j, hm.trans hj, ?_⟩
    rw [hlab] at hown ⊢
    exact inTurn_of_loop hown ▸ advances_nextOfLoop hre

theorem often_ofWorker {t : ℕ} (ht : t < cfg.workers) (h0 : (r.state 0).worker t ≠ .outside) :
    r.Often (Label.ofWorker t) := by
  have hne : ∀ n, (r.state n).worker t ≠ .outside := fun n =>
    Sys.Run.stable (r := r) (P := fun s => s.worker t ≠ .outside) (fun k hk =>
      worker_ne_outside hk (hlab k ▸ inTurn_ne_workerDrop w k t _) (r.next k)) h0 (Nat.zero_le n)
  intro n
  obtain ⟨m, hm, hturn⟩ := often_turn cfg (i := cfg.numThreads + 1 + t) (by omega) n
  refine ⟨m, hm, ?_⟩
  rw [hlab, inTurn, hturn, if_neg (by omega), Nat.add_sub_cancel_left]
  unfold nextOfWorker
  have hout := hne m
  cases hw : (r.state m).worker t with
  | outside => exact absurd hw hout
  | _ => rfl

end Run

/-- **A fair run goes on from every reached state.** -/
theorem exists_fair_run (w : Meets) (h : (sys cfg).Reach C s)
    (hC : ∀ n s, (sys cfg).Reach C s → C s (inTurn cfg w n s)) :
    ∃ r : (sys cfg).Run C, r.state 0 = s ∧ (∀ n, r.label n = inTurn cfg w n (r.state n)) ∧
      (∀ l ≤ cfg.numThreads, r.Often (Label.advances l)) ∧
      ∀ t < cfg.workers, s.worker t ≠ .outside → r.Often (Label.ofWorker t) := by
  obtain ⟨r, rfl, hlab⟩ := h.exists_run (inTurn cfg w) fun n s hs =>
    ⟨hC n s hs, isSome_inTurn (.of_reach hs) n⟩
  exact ⟨r, rfl, hlab, fun l hl => often_advances hlab hl, fun t ht h0 => often_ofWorker hlab ht h0⟩

end TcpServer

end Mymuduo
