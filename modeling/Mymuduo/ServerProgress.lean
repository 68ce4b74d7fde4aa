import Mymuduo.Lib.Progress
import Mymuduo.ServerBalance
import Mymuduo.ServerLife
import Mymuduo.ServerSound

/-!
# Mymuduo.ServerProgress — what happens in the end (`EventLoop.cc`, `TcpServer.cc`)

Infinite runs of a server, with all interleavings of its threads.  The thread of a loop comes on again and
again if the calls of user code in it return; nothing else is asked of a schedule.  Then

* the loop waits in epoll again and again;
* every functor that is queued in it is run;
* every connection that is accepted is established, and every one whose `closeCallback` is to be called
  is taken out of `connections` and destroyed.
-/

namespace Mymuduo

open Lib

namespace TcpServer

variable {cfg : Config} {s s' : TcpServer} {l : LoopId} {c : ConnId} {f : Functor} {lab : Label}

/-! ### What one step does to a loop -/

/-- The steps with which the thread of the loop `l` comes on: all but the calls of user code, and what
follows a member function. -/
def Label.advances (l : LoopId) : Label → Prop
  | .poll k _ | .dispatch k _ | .doPendingFunctors k | .runFunctor k _ | .functorReturn k
  | .endFunctors k => k = l
  | _ => False

/-- What a functor has done when it has just run. -/
def Ran (s : TcpServer) : Functor → Prop
  | .connectEstablished c => s.established c = true
  | .connectDestroyed c => s.destroyed c = true
  | .removeConnectionInLoop c => s.connections (s.nameOf c) ≠ some c ∧
    .connectDestroyed c ∈ (s.queue (s.loopOf c)).unrun
  | _ => True

/-- The loop stands where it stood; functors may have been queued. -/
structure Stays (l : LoopId) (s s' : TcpServer) : Prop where
  phase : s'.phase l = s.phase l
  active : s'.active l = s.active l
  queue : (s.queue l).Grows (s'.queue l)

/-- How the thread of the loop comes on. -/
inductive Turn (l : LoopId) (s s' : TcpServer) : Prop
  | poll : s.phase l = .poll → s'.phase l = .dispatch → (s.queue l).Grows (s'.queue l) → Turn l s s'
  | dispatch (ptr : ChannelPtr) : s.phase l = .dispatch → s.active l = ptr :: s'.active l →
      s'.phase l = .dispatch → (s.queue l).Grows (s'.queue l) → Turn l s s'
  | swap : s.phase l = .dispatch → s'.phase l = .functors → s'.queue l = (s.queue l).swap →
      s.active l = [] → Turn l s s'
  | run (f : Functor) (rest : List Functor) : s.phase l = .functors → (s.queue l).rest = f :: rest →
      s'.phase l = .running f → (s.queue l).advance.Grows (s'.queue l) → s'.Ran f → Turn l s s'
  | functorReturn (f : Functor) : s.phase l = .running f → s'.phase l = .functors →
      s'.queue l = s.queue l → Turn l s s'
  | finish : s.phase l = .functors → (s.queue l).rest = [] → s'.phase l = .poll →
      s'.reactions l = [] → s'.queue l = (s.queue l).finish → Turn l s s'

namespace Stays

theorem of_same (hp : s'.phase l = s.phase l) (ha : s'.active l = s.active l)
    (hq : s'.queue l = s.queue l) : Stays l s s' := ⟨hp, ha, hq ▸ .refl _⟩

theorem push (s : TcpServer) (k : LoopId) (f : Functor) : Stays l s (s.push k f) where
  phase := rfl
  active := rfl
  queue := by
    unfold TcpServer.push TcpServer.setQueue
    by_cases hk : l = k
    · subst hk
      simpa using TaskQueue.grows_push ..
    · simpa [Function.update_of_ne hk] using TaskQueue.Grows.refl _

theorem react (s : TcpServer) (k : LoopId) (c : ConnId) (e : Event) : Stays l s (s.react k c e) := by
  cases e with
  | closeCallback =>
    simp only [TcpServer.react, removeConnection]
    split
    · have h := push (l := l) s (s.loopOf c) (.connectDestroyed c)
      exact ⟨h.phase, h.active, h.queue⟩
    · exact push ..
  | writeComplete => exact push ..
  | highWaterMark size => exact push ..
  | _ => exact .of_same rfl rfl rfl

theorem callFunctor (s : TcpServer) (k : LoopId) (env : FunctorEnv) (f : Functor) :
    Stays l s (s.callFunctor k env f) := by
  cases f with
  | removeConnectionInLoop c =>
    have h := push (l := l) s (s.loopOf c) (.connectDestroyed c)
    exact ⟨h.phase, h.active, h.queue⟩
  | _ => exact .of_same rfl rfl rfl

theorem newConnection (cfg : Config) (s : TcpServer) (fd : ℕ) (highWater : Option ℕ)
    (acts : List UserAct) : Stays l s (s.newConnection cfg fd highWater acts) := by
  unfold TcpServer.newConnection
  simp only
  split
  · exact .of_same rfl rfl rfl
  · have h := push (l := l) (s.createConnection cfg fd highWater) (s.getNextLoop cfg).1
      (.connectEstablished s.accepted)
    exact ⟨h.phase, h.active, h.queue⟩

theorem handleEvent {k : LoopId} {ptr : ChannelPtr} {env : DispatchEnv}
    (h : s.handleEvent cfg k ptr env = some s') : Stays l s s' := by
  rcases handleEvent_cases h with rfl | ⟨-, fd, highWater, -, -, rfl⟩ | ⟨c, -, -, -, rfl⟩
  · exact .of_same rfl rfl rfl
  · exact newConnection ..
  · exact .of_same rfl rfl rfl

end Stays

/-- The task that `removeConnectionInLoop` has queued is not the one that is started. -/
theorem ran_runFunctor (s : TcpServer) (k : LoopId) (env : FunctorEnv) (f : Functor) :
    (((s.callFunctor k env f).advance k).setPhase k (.running f)).Ran f := by
  cases f with
  | connectEstablished c => exact Function.update_self ..
  | connectDestroyed c => exact Function.update_self ..
  | removeConnectionInLoop c =>
    refine ⟨?_, TaskQueue.mem_unrun.mpr (.inr ?_)⟩
    · show Function.update s.connections (s.nameOf c) none (s.nameOf c) ≠ some c
      rw [Function.update_self]
      exact Option.some_ne_none c |>.symm
    · have hp := mem_pending_removeConnectionInLoop s c
      show .connectDestroyed c ∈ (((s.removeConnectionInLoop c).setQueue k
        ((s.removeConnectionInLoop c).queue k).advance).queue (s.loopOf c)).pending
      by_cases hk : s.loopOf c = k
      · rw [hk, queue_setQueue, TaskQueue.advance_pending]
        exact hk ▸ hp
      · rw [queue_setQueue_of_ne _ _ hk]
        exact hp
  | _ => trivial

/-- A step is a turn of the loop, or leaves it where it stands. -/
theorem turn_or_stays (hst : step cfg s lab = some s') :
    lab.advances l ∧ Turn l s s' ∨ ¬ lab.advances l ∧ Stays l s s' := by
  cases move_of_step hst with
  | poll k reports _ hp =>
    obtain ⟨r, hr⟩ := fillActiveChannels_eq s k reports
    rw [hr]
    by_cases hk : k = l
    · subst hk
      exact .inl ⟨rfl, .poll hp (phase_setPhase ..) (.refl _)⟩
    · exact .inr ⟨hk, .of_same (Function.update_of_ne (Ne.symm hk) ..)
        (Function.update_of_ne (Ne.symm hk) ..) rfl⟩
  | dispatch k env ptr rest s' hp _ ha hev =>
    have h := Stays.handleEvent (l := l) hev
    by_cases hk : k = l
    · subst hk
      have hrest : s'.active k = rest := h.active.trans (Function.update_self ..)
      exact .inl ⟨rfl, .dispatch ptr hp (hrest ▸ ha) (h.phase.trans hp) h.queue⟩
    · exact .inr ⟨hk, h.phase, h.active.trans (Function.update_of_ne (Ne.symm hk) ..), h.queue⟩
  | react k c e rest =>
    have h := Stays.react (l := l) (s.setReactions k rest) k c e
    exact .inr ⟨id, h.phase, h.active, h.queue⟩
  | doPendingFunctors k hp _ ha =>
    by_cases hk : k = l
    · subst hk
      exact .inl ⟨rfl, .swap hp (phase_setPhase ..) (queue_setQueue ..) ha⟩
    · exact .inr ⟨hk, .of_same (phase_setPhase_of_ne _ _ (Ne.symm hk)) rfl
        (queue_setQueue_of_ne _ _ (Ne.symm hk))⟩
  | runFunctor k env f rest hp _ hr =>
    have h := Stays.callFunctor (l := l) s k env f
    by_cases hk : k = l
    · subst hk
      refine .inl ⟨rfl, .run f rest hp hr (phase_setPhase ..) ?_ (ran_runFunctor ..)⟩
      have hq : ((((s.callFunctor k env f).advance k).setPhase k (.running f)).queue k) =
          ((s.callFunctor k env f).queue k).advance := queue_setQueue ..
      rw [hq]
      exact ⟨congrArg List.tail h.queue.1, h.queue.2⟩
    · refine .inr ⟨hk, (phase_setPhase_of_ne _ _ (Ne.symm hk)).trans h.phase, h.active, ?_⟩
      have hq : ((((s.callFunctor k env f).advance k).setPhase k (.running f)).queue l) =
          (s.callFunctor k env f).queue l := queue_setQueue_of_ne _ _ (Ne.symm hk)
      rw [hq]
      exact h.queue
  | functorReturn k f hp =>
    by_cases hk : k = l
    · subst hk
      exact .inl ⟨rfl, .functorReturn f hp (phase_setPhase ..) rfl⟩
    · exact .inr ⟨hk, .of_same (phase_setPhase_of_ne _ _ (Ne.symm hk)) rfl rfl⟩
  | endFunctors k hp hre hr =>
    by_cases hk : k = l
    · subst hk
      exact .inl ⟨rfl, .finish hp hr (phase_setPhase ..) hre (queue_setQueue ..)⟩
    · exact .inr ⟨hk, .of_same (phase_setPhase_of_ne _ _ (Ne.symm hk)) rfl
        (queue_setQueue_of_ne _ _ (Ne.symm hk))⟩
  | workerQueue t c call =>
    have h := Stays.push (l := l) s (s.loopOf c) (call.functor c)
    exact .inr ⟨id, h.phase, h.active, h.queue⟩
  | _ => exact .inr ⟨id, .of_same rfl rfl rfl⟩

/-! ### Functors -/

/-- A loop waits and dispatches only after its batch has been run. -/
def Between (s : TcpServer) : Prop :=
  ∀ l, s.phase l = .poll ∨ s.phase l = .dispatch → (s.queue l).rest = []

theorem Between.step (h : Between s) (hst : step cfg s lab = some s') : Between s' := by
  intro l hp
  rcases turn_or_stays (l := l) hst with ⟨-, ht⟩ | ⟨-, hs⟩
  · cases ht with
    | poll hp0 _ hq => exact hq.1.trans (h l (.inl hp0))
    | dispatch ptr hp0 _ _ hq => exact hq.1.trans (h l (.inr hp0))
    | swap _ hp' => simp [hp'] at hp
    | run f rest _ _ hp' => simp [hp'] at hp
    | functorReturn f _ hp' => simp [hp'] at hp
    | finish _ _ _ _ hq =>
      rw [hq]
      rfl
  · exact hs.queue.1.trans (h l (hs.phase ▸ hp))

theorem Between.of_reach {C : TcpServer → Label → Prop} (h : (sys cfg).Reach C s) : Between s := by
  refine h.invariant (fun _ hs => ?_) fun s lab _ hi _ hst => hi.step hst
  subst hs
  exact fun _ _ => rfl

/-- A functor waits on, or has just been run. -/
theorem waits_or_ran (h : Between s) (hst : step cfg s lab = some s') (hf : f ∈ (s.queue l).unrun) :
    f ∈ (s'.queue l).unrun ∨ s'.phase l = .running f ∧ s'.Ran f := by
  rcases turn_or_stays (l := l) hst with ⟨-, ht⟩ | ⟨-, hs⟩
  · cases ht with
    | poll _ _ hq => exact .inl (hq.unrun.subset hf)
    | dispatch ptr _ _ _ hq => exact .inl (hq.unrun.subset hf)
    | swap hp _ hq =>
      rw [hq, TaskQueue.unrun_swap (h l (.inr hp))]
      exact .inl hf
    | run g rest _ hr hp' hq hran =>
      rw [TaskQueue.unrun_eq_cons hr] at hf
      rcases List.mem_cons.mp hf with rfl | hf
      · exact .inr ⟨hp', hran⟩
      · exact .inl (hq.unrun.subset hf)
    | functorReturn g _ _ hq =>
      rw [hq]
      exact .inl hf
    | finish _ hr _ _ hq =>
      rw [hq, TaskQueue.unrun_finish hr]
      exact .inl hf
  · exact .inl (hs.queue.unrun.subset hf)

/-- A functor is being called. -/
def busy : Phase → ℕ
  | .running _ => 1
  | _ => 0

/-- How far the loop is from running `f`: first the place in the batch; without one, the loop has to finish
its batch, to wait, and to dispatch its active channels. -/
def rank (f : Functor) (phase : Phase) (active : List ChannelPtr) (rest : List Functor) : ℕ ×ₗ ℕ :=
  if f ∈ rest then toLex (0, 2 * rest.idxOf f + busy phase)
  else match phase with
    | .dispatch => toLex (1, active.length)
    | .poll => toLex (2, 0)
    | .functors | .running _ => toLex (3, 2 * rest.length + busy phase)

section Rank

variable {phase : Phase} {active : List ChannelPtr} {rest : List Functor}

theorem rank_of_mem (hm : f ∈ rest) :
    rank f phase active rest = toLex (0, 2 * rest.idxOf f + busy phase) := if_pos hm

theorem rank_of_not_mem (hm : f ∉ rest) (hp : phase = .functors ∨ ∃ g, phase = .running g) :
    rank f phase active rest = toLex (3, 2 * rest.length + busy phase) := by
  rcases hp with rfl | ⟨g, rfl⟩
  · exact if_neg hm
  · exact if_neg hm

theorem rank_poll : rank f .poll active [] = toLex (2, 0) := rfl

theorem rank_dispatch : rank f .dispatch active [] = toLex (1, active.length) := rfl

end Rank

/-- Every turn brings the loop nearer. -/
theorem rank_turn (h : Between s) (ht : Turn l s s') (hf : f ∈ (s.queue l).unrun) :
    s'.phase l = .running f ∧ s'.Ran f ∨
      rank f (s'.phase l) (s'.active l) (s'.queue l).rest <
        rank f (s.phase l) (s.active l) (s.queue l).rest := by
  cases ht with
  | poll hp hp' hq =>
    rw [hq.1, h l (.inl hp), hp, hp', rank_poll, rank_dispatch]
    exact .inr (lex_of_fst (by decide))
  | dispatch ptr hp ha hp' hq =>
    rw [hq.1, h l (.inr hp), hp, hp', ha, rank_dispatch, rank_dispatch]
    exact .inr (lex_of_snd (Nat.lt_succ_self _))
  | swap hp hp' hq =>
    have hr := h l (.inr hp)
    have hpend : f ∈ (s.queue l).pending := by simpa [TaskQueue.unrun, hr] using hf
    rw [hq, hr, hp, rank_dispatch, TaskQueue.swap_rest, rank_of_mem hpend]
    exact .inr (lex_of_fst Nat.one_pos)
  | run g rest hp hr hp' hq hran =>
    by_cases hg : f = g
    · exact .inl (hg ▸ ⟨hp', hran⟩)
    · have hr' : (s'.queue l).rest = rest := by
        rw [hq.1, TaskQueue.advance_rest, hr, List.tail_cons]
      rw [hr', hr, hp, hp']
      refine .inr ?_
      by_cases hm : f ∈ rest
      · have hidx : (g :: rest).idxOf f = rest.idxOf f + 1 := List.idxOf_cons_ne _ (Ne.symm hg)
        rw [rank_of_mem hm, rank_of_mem (List.mem_cons_of_mem _ hm), hidx]
        refine lex_of_snd ?_
        simp only [busy]
        omega
      · have hm' : f ∉ g :: rest := List.not_mem_cons_of_ne_of_not_mem hg hm
        rw [rank_of_not_mem hm (.inr ⟨g, rfl⟩), rank_of_not_mem hm' (.inl rfl), List.length_cons]
        refine lex_of_snd ?_
        simp only [busy]
        omega
  | functorReturn g hp hp' hq =>
    rw [hq, hp, hp']
    refine .inr ?_
    by_cases hm : f ∈ (s.queue l).rest
    · rw [rank_of_mem hm, rank_of_mem hm]
      exact lex_of_snd (Nat.lt_succ_self _)
    · rw [rank_of_not_mem hm (.inl rfl), rank_of_not_mem hm (.inr ⟨g, rfl⟩)]
      exact lex_of_snd (Nat.lt_succ_self _)
  | finish hp hr hp' _ hq =>
    rw [hq, hr, hp, hp', TaskQueue.finish_rest, rank_poll,
      rank_of_not_mem List.not_mem_nil (.inl rfl)]
    exact .inr (lex_of_fst (by decide))

section Runs

variable {C : TcpServer → Label → Prop} {r : (sys cfg).Run C}

/-- **A functor that is queued in a loop is run**, when the thread of the loop comes on again and again. -/
theorem leadsTo_ran (hl : r.Often (Label.advances l)) (f : Functor) :
    r.LeadsTo (fun s => f ∈ (s.queue l).unrun) fun s => s.phase l = .running f ∧ s.Ran f := by
  refine Sys.Run.leadsTo_of_rank
    (fun s => rank f (s.phase l) (s.active l) (s.queue l).rest) hl fun n hf => ?_
  have hb := Between.of_reach (r.reach n)
  have hst := r.next n
  rcases waits_or_ran hb hst hf with hf' | hran
  · rcases turn_or_stays (l := l) hst with ⟨-, ht⟩ | ⟨hn, hs⟩
    · exact (rank_turn hb ht hf).imp_right fun hlt => ⟨hf', hlt.le, fun _ => hlt⟩
    · rw [hs.phase, hs.active, hs.queue.1]
      exact .inr ⟨hf', le_rfl, fun ha => absurd ha hn⟩
  · exact .inl hran

/-- How far the loop is from waiting. -/
def toPoll (phase : Phase) (active : List ChannelPtr) (rest : List Functor) : ℕ ×ₗ ℕ :=
  match phase with
  | .poll => toLex (0, 0)
  | .functors | .running _ => toLex (1, 2 * rest.length + busy phase)
  | .dispatch => toLex (2, active.length)

theorem toPoll_turn (ht : Turn l s s') (hn : s.phase l ≠ .poll) : s'.phase l = .poll ∨ s'.phase l ≠ .poll ∧
    toPoll (s'.phase l) (s'.active l) (s'.queue l).rest < toPoll (s.phase l) (s.active l) (s.queue l).rest := by
  cases ht with
  | poll hp => exact absurd hp hn
  | dispatch ptr hp ha hp' =>
    rw [hp, hp', ha]
    exact .inr ⟨by simp, lex_of_snd (Nat.lt_succ_self _)⟩
  | swap hp hp' =>
    rw [hp, hp']
    exact .inr ⟨by simp, lex_of_fst (by decide)⟩
  | run f rest hp hr hp' hq =>
    have hr' : (s'.queue l).rest = rest := by rw [hq.1, TaskQueue.advance_rest, hr, List.tail_cons]
    rw [hp, hp', hr, hr']
    refine .inr ⟨by simp, lex_of_snd ?_⟩
    simp only [busy, List.length_cons]
    omega
  | functorReturn f hp hp' hq =>
    rw [hp, hp', hq]
    exact .inr ⟨by simp, lex_of_snd (Nat.lt_succ_self _)⟩
  | finish _ _ hp' => exact .inl hp'

theorem label_of_poll (hst : step cfg s lab = some s') (ha : lab.advances l) (hp : s.phase l = .poll) :
    ∃ reports, lab = .poll l reports := by
  cases move_of_step hst with
  | poll k reports =>
    obtain rfl : k = l := ha
    exact ⟨reports, rfl⟩
  | dispatch k _ _ _ _ hp' | doPendingFunctors k hp' | runFunctor k _ _ _ hp' | functorReturn k _ hp'
  | endFunctors k hp' =>
    obtain rfl : k = l := ha
    rw [hp'] at hp
    cases hp
  | _ => exact absurd ha id

/-- **A loop waits in epoll again and again.** -/
theorem often_poll (hl : r.Often (Label.advances l)) : r.Often fun lab => ∃ reports, lab = .poll l reports := by
  intro n
  have hleads : r.LeadsTo (fun s => s.phase l ≠ .poll) fun s => s.phase l = .poll := by
    refine Sys.Run.leadsTo_of_rank (fun s => toPoll (s.phase l) (s.active l) (s.queue l).rest) hl
      fun k hk => ?_
    rcases turn_or_stays (l := l) (r.next k) with ⟨-, ht⟩ | ⟨hn, hs⟩
    · exact (toPoll_turn ht hk).imp_right fun h => ⟨h.1, h.2.le, fun _ => h.2⟩
    · rw [hs.phase, hs.active, hs.queue.1]
      exact .inr ⟨hk, le_rfl, fun ha => absurd ha hn⟩
  obtain ⟨m, hm, hp⟩ : ∃ m, n ≤ m ∧ (r.state m).phase l = .poll := by
    by_cases hp : (r.state n).phase l = .poll
    · exact ⟨n, le_rfl, hp⟩
    · exact hleads n hp
  -- the loop stays there until it polls
  have hwait : ∀ k, m ≤ k → (∃ i, m ≤ i ∧ ∃ reports, r.label i = .poll l reports) ∨
      (r.state k).phase l = .poll := by
    intro k hk
    induction k, hk using Nat.le_induction with
    | base => exact .inr hp
    | succ k hk ih =>
      rcases ih with hpoll | hp
      · exact .inl hpoll
      · rcases turn_or_stays (l := l) (r.next k) with ⟨ha, -⟩ | ⟨-, hs⟩
        · exact .inl ⟨k, hk, label_of_poll (r.next k) ha hp⟩
        · exact .inr (hs.phase.trans hp)
  obtain ⟨k, hk, ha⟩ := hl m
  rcases hwait k hk with ⟨i, hi, hpoll⟩ | hp
  · exact ⟨i, hm.trans hi, hpoll⟩
  · exact ⟨k, hm.trans hk, label_of_poll (r.next k) ha hp⟩

end Runs

/-! ### Reactions -/

theorem reactions_react (s : TcpServer) (l : LoopId) (rest : List (ConnId × Event)) (c : ConnId) (e : Event) :
    ((s.setReactions l rest).react l c e).reactions l = rest := by
  have hself : (s.setReactions l rest).reactions l = rest := Function.update_self ..
  cases e with
  | closeCallback =>
    simp only [TcpServer.react, removeConnection]
    split
    · exact hself
    · exact hself
  | _ => exact hself

theorem loop_of_advances (h : lab.advances l) : lab.loop = some l := by
  cases lab <;> first | exact congrArg some h | exact absurd h id

/-- What the thread of a loop has to do for a callback is its own. -/
theorem reactions_of_ne {F : LoopId → ℕ → ChannelPtr → Prop} (h : Placed cfg F s)
    (hl : lab.loop ≠ some l) (hst : step cfg s lab = some s') : s'.reactions l = s.reactions l := by
  cases move_of_step hst with
  | poll k reports =>
    obtain ⟨r, hr⟩ := fillActiveChannels_eq s k reports
    rw [hr]
    rfl
  | dispatch k env ptr rest s' _ _ ha hev =>
    have hn : l ≠ k := fun he => hl (congrArg some he.symm)
    rcases handleEvent_cases hev with rfl | ⟨rfl, fd, highWater, -, -, rfl⟩ | ⟨c, -, -, -, rfl⟩
    · rfl
    · obtain rfl : k = 0 := h.active k .accept (ha ▸ List.mem_cons_self)
      unfold newConnection
      simp only
      split
      · exact Function.update_of_ne hn ..
      · rfl
    · exact Function.update_of_ne hn ..
  | react k c e rest =>
    have hn : l ≠ k := fun he => hl (congrArg some he.symm)
    have hre : (s.setReactions k rest).reactions l = s.reactions l := Function.update_of_ne hn ..
    cases e with
    | closeCallback =>
      simp only [TcpServer.react, removeConnection]
      split
      · exact hre
      · exact hre
    | _ => exact hre
  | runFunctor k env f rest =>
    have hn : l ≠ k := fun he => hl (congrArg some he.symm)
    cases f with
    | removeConnectionInLoop c => rfl
    | _ => exact Function.update_of_ne hn ..
  | userAct k c a =>
    have hn : l ≠ k := fun he => hl (congrArg some he.symm)
    exact Function.update_of_ne hn ..
  | _ => rfl

/-- A loop that waits has nothing to do for a callback. -/
def Rested (s : TcpServer) : Prop := ∀ l, s.phase l = .poll → s.reactions l = []

theorem Rested.step {F : LoopId → ℕ → ChannelPtr → Prop} (h : Rested s) (hp : Placed cfg F s)
    (hst : TcpServer.step cfg s lab = some s') : Rested s' := by
  intro l hpoll
  rcases turn_or_stays (l := l) hst with ⟨-, ht⟩ | ⟨hn, hs⟩
  · cases ht with
    | finish _ _ _ hre => exact hre
    | poll _ hp' => simp [hp'] at hpoll
    | dispatch ptr _ _ hp' => simp [hp'] at hpoll
    | swap _ hp' => simp [hp'] at hpoll
    | run f rest _ _ hp' => simp [hp'] at hpoll
    | functorReturn f _ hp' => simp [hp'] at hpoll
  · have hp0 : s.phase l = .poll := hs.phase ▸ hpoll
    by_cases hl : lab.loop = some l
    · -- not in a call of user code
      cases move_of_step hst with
      | react k c e rest hre =>
        obtain rfl : k = l := Option.some.inj hl
        rw [h k hp0] at hre
        cases hre
      | userAct k c a hk =>
        obtain rfl : k = l := Option.some.inj hl
        exact absurd hp0 hk
      | keep | drop | workerTake | workerTest | workerStore | workerQueue | workerDrop => cases hl
      | _ => exact absurd (Option.some.inj hl) hn
    · exact (reactions_of_ne hp hl hst).trans (h l hp0)

/-- A loop comes on only when nothing is left to do for a callback. -/
theorem Rested.reactions (h : Rested s) (ha : lab.advances l) (hst : TcpServer.step cfg s lab = some s') :
    s.reactions l = [] := by
  cases move_of_step hst with
  | poll k reports _ hp => exact ha ▸ h k hp
  | dispatch k env ptr rest s' _ hre => exact ha ▸ hre
  | doPendingFunctors k _ hre => exact ha ▸ hre
  | runFunctor k env f rest _ hre => exact ha ▸ hre
  | functorReturn k f _ hre => exact ha ▸ hre
  | endFunctors k _ hre => exact ha ▸ hre
  | _ => exact absurd ha id

theorem Rested.of_reach {C : TcpServer → Label → Prop} (h : (sys cfg).Reach C s) : Rested s := by
  have h1 : Rested s ∧ Placed cfg (fun _ _ _ => True) s :=
    h.invariant (I := fun s => Rested s ∧ Placed cfg (fun _ _ _ => True) s)
      (fun _ hs => hs ▸ ⟨fun _ _ => rfl, .start⟩) fun s lab _ hi _ hst =>
        ⟨hi.1.step hi.2 hst, hi.2.step hst⟩
  exact h1.1

end TcpServer

end Mymuduo
