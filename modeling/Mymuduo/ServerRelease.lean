import Mymuduo.ServerGone

/-!
# Mymuduo.ServerRelease — a connection that is gone is let go of (`EventLoop.cc`, `TcpServer.cc`)

The last pointers to a connection that is gone are bound into functors: a batch keeps its functors until the
end of the pass, also those that have run.  In an infinite run in which the thread of each loop comes on
again and again they are dropped in the end (`gone_released`), and with the last of them the `TcpConnection`
and its `Socket`, unless user code keeps a pointer of its own.

* `queues_of_step` says who queues a functor;
* `leadsTo_cleared`: what is not queued any more, a loop lets go of.
-/

namespace Mymuduo

open Lib

namespace TcpServer

variable {cfg : Config} {p : Policy} {s s' : TcpServer} {l : LoopId} {c : ConnId} {f : Functor} {lab : Label}
  {C : TcpServer → Label → Prop}

/-! ### Who queues a functor -/

/-- A step may queue the functor: for a new connection, for what a member function has called, as
`removeConnectionInLoop`, or for a worker thread. -/
def Queues (s : TcpServer) : Functor → Prop
  | .connectEstablished c => c = s.accepted
  | .connectDestroyed c => ∃ l, (c, .closeCallback) ∈ s.reactions l ∨
    .removeConnectionInLoop c ∈ (s.queue l).unrun
  | .removeConnectionInLoop c => ∃ l, (c, .closeCallback) ∈ s.reactions l
  | .writeComplete c => ∃ l, (c, .writeComplete) ∈ s.reactions l
  | .highWaterMark c size => ∃ l, (c, .highWaterMark size) ∈ s.reactions l
  | .sendInLoop c | .shutdownInLoop c => ∃ t, (s.worker t).conn = some c

theorem home_of_ne (h : f ≠ .removeConnectionInLoop f.conn) : s.home f = s.loopOf f.conn := by
  cases f with
  | removeConnectionInLoop c => exact absurd rfl h
  | _ => rfl

theorem adds_setQueue {K : Functor → Prop} {q : TaskQueue Functor} (hq : TaskQueue.Adds K (s.queue l) q)
    (k : LoopId) : TaskQueue.Adds K (s.queue k) ((s.setQueue l q).queue k) := by
  by_cases hk : k = l
  · rw [hk, queue_setQueue]
    exact hq
  · rw [queue_setQueue_of_ne s q hk]
    exact .refl _

theorem adds_push {K : Functor → Prop} (hf : K f) (k : LoopId) :
    TaskQueue.Adds K (s.queue k) ((s.push l f).queue k) :=
  adds_setQueue (.push hf _) k

theorem adds_react {e : Event} (hx : (c, e) ∈ s.reactions l) (rest : List (ConnId × Event)) (k : LoopId) :
    TaskQueue.Adds s.Queues (s.queue k) (((s.setReactions l rest).react l c e).queue k) := by
  cases e with
  | closeCallback =>
    simp only [TcpServer.react, removeConnection]
    split
    · exact adds_push (s := { s.setReactions l rest with connections := _ })
        (show s.Queues (.connectDestroyed c) from ⟨l, .inl hx⟩) k
    · exact adds_push (s := s.setReactions l rest) (show s.Queues (.removeConnectionInLoop c) from ⟨l, hx⟩) k
  | writeComplete =>
    exact adds_push (s := s.setReactions l rest) (show s.Queues (.writeComplete c) from ⟨l, hx⟩) k
  | highWaterMark size =>
    exact adds_push (s := s.setReactions l rest) (show s.Queues (.highWaterMark c size) from ⟨l, hx⟩) k
  | _ => exact .refl _

/-- **What a step adds to a queue.** -/
theorem queues_of_step (hst : step cfg s lab = some s') (k : LoopId) :
    TaskQueue.Adds s.Queues (s.queue k) (s'.queue k) := by
  cases move_of_step hst with
  | poll l reports =>
    obtain ⟨r, hr⟩ := fillActiveChannels_eq s l reports
    rw [hr]
    exact .refl _
  | dispatch l env ptr rest s' _ _ _ hev =>
    rcases handleEvent_cases hev with rfl | ⟨-, fd, highWater, -, -, rfl⟩ | ⟨c, -, -, -, rfl⟩
    · exact .refl _
    · unfold newConnection
      simp only
      split
      · exact .refl _
      · exact adds_push (s := (s.setActive l rest).createConnection cfg fd highWater)
          (show s.Queues (.connectEstablished s.accepted) from rfl) k
    · exact .refl _
  | react l c e rest hre => exact adds_react (hre ▸ List.mem_cons_self) rest k
  | doPendingFunctors l => exact adds_setQueue (.swap _) k
  | runFunctor l env f rest _ _ hr =>
    cases f with
    | removeConnectionInLoop c =>
      have hq : s.Queues (.connectDestroyed c) := ⟨l, .inr (TaskQueue.mem_unrun_of_rest hr)⟩
      have h1 := adds_push (K := s.Queues) (l := s.loopOf c)
        (s := { s with connections := Function.update s.connections (s.nameOf c) none }) hq k
      exact h1.trans (adds_setQueue (.advance _) k)
    | _ => exact adds_setQueue (.advance _) k
  | endFunctors l => exact adds_setQueue (.finish _) k
  | workerQueue t c call hw =>
    have hconn : (s.worker t).conn = some c := by rw [hw]; rfl
    cases call with
    | send => exact adds_push (s := s) (show s.Queues (.sendInLoop c) from ⟨t, hconn⟩) k
    | shutdown => exact adds_push (s := s) (show s.Queues (.shutdownInLoop c) from ⟨t, hconn⟩) k
  | functorReturn | userAct | keep | drop | workerTake | workerTest | workerStore | workerDrop =>
    exact .refl _

/-! ### A loop lets go -/

/-- How far the loop is from its next swap. -/
def toSwap (phase : Phase) (active : List ChannelPtr) (rest : List Functor) : ℕ ×ₗ ℕ :=
  match phase with
  | .dispatch => toLex (0, active.length)
  | .poll => toLex (1, 0)
  | .functors | .running _ => toLex (2, 2 * rest.length + busy phase)

theorem toSwap_turn (ht : Turn l s s') : (s'.queue l).pending = [] ∨
    toSwap (s'.phase l) (s'.active l) (s'.queue l).rest < toSwap (s.phase l) (s.active l) (s.queue l).rest := by
  cases ht with
  | poll hp hp' =>
    rw [hp, hp']
    exact .inr (lex_of_fst Nat.one_pos)
  | dispatch ptr hp ha hp' =>
    rw [hp, hp', ha]
    exact .inr (lex_of_snd (Nat.lt_succ_self _))
  | swap _ _ hq =>
    rw [hq]
    exact .inl rfl
  | run f rest hp hr hp' hq =>
    have hr' : (s'.queue l).rest = rest := by rw [hq.1, TaskQueue.advance_rest, hr, List.tail_cons]
    rw [hp, hp', hr, hr']
    refine .inr (lex_of_snd ?_)
    simp only [busy, List.length_cons]
    omega
  | functorReturn f hp hp' hq =>
    rw [hp, hp', hq]
    exact .inr (lex_of_snd (Nat.lt_succ_self _))
  | finish hp _ hp' =>
    rw [hp, hp']
    exact .inr (lex_of_fst (by decide))

/-- **What is not queued any more, a loop lets go of**: it takes it with the next swap, and drops it at the end
of the pass. -/
theorem leadsTo_cleared {r : (sys cfg).Run C} (hC : ∀ s lab, C s lab → s.LoopThreads lab)
    (hfair : r.Often (Label.advances l)) {I : TcpServer → Prop} {K : Functor → Prop}
    (hI : ∀ n, I (r.state n) → I (r.state (n + 1)))
    (hK : ∀ n, I (r.state n) → ∀ f, K f → ¬ (r.state n).Queues f) :
    r.LeadsTo I fun s => I s ∧ ∀ f ∈ (s.queue l).held, ¬ K f := by
  have hadds : ∀ n, I (r.state n) → (∀ f ∈ ((r.state n).queue l).pending, ¬ K f) →
      ∀ f ∈ ((r.state (n + 1)).queue l).pending, ¬ K f := by
    intro n hi hp f hf hk
    exact ((queues_of_step (r.next n) l).pending f hf).elim (fun hf => hp f hf hk) (hK n hi f hk)
  have hswap : r.LeadsTo I fun s => I s ∧ ∀ f ∈ (s.queue l).pending, ¬ K f := by
    refine Sys.Run.leadsTo_of_rank (fun s => toSwap (s.phase l) (s.active l) (s.queue l).rest) hfair
      fun n hi => ?_
    rcases turn_or_stays (l := l) (r.next n) with ⟨-, ht⟩ | ⟨hn, hs⟩
    · rcases toSwap_turn ht with hnil | hlt
      · exact .inl ⟨hI n hi, fun f hf => by simp [hnil] at hf⟩
      · exact .inr ⟨hI n hi, hlt.le, fun _ => hlt⟩
    · rw [hs.phase, hs.active, hs.queue.1]
      exact .inr ⟨hI n hi, le_rfl, fun ha => absurd ha hn⟩
  intro n hn
  obtain ⟨m, hm, hclear⟩ := hswap n hn
  obtain ⟨k, hk, reports, hpoll⟩ := often_poll hfair m
  have hstay := Sys.Run.stable (r := r) (P := fun s => I s ∧ ∀ f ∈ (s.queue l).pending, ¬ K f)
    (fun j hj => ⟨hI j hj.1, hadds j hj.1 hj.2⟩) hclear hk
  have hphase : (r.state k).phase l = .poll := by
    have hst := r.next k
    rw [hpoll] at hst
    exact (of_guard hst).1.2.1
  refine ⟨k, hm.trans hk, hstay.1, fun f hf => ?_⟩
  -- where it waits in epoll, the loop has no batch
  have hbatch := (Sound.of_reach hC (r.reach k)).own.batch l (.inl hphase)
  rw [TaskQueue.held, hbatch, List.nil_append] at hf
  exact hstay.2 f hf

/-! ### A connection that is gone -/

theorem Gone.lt_accepted (h : Gone c s) (hs : Sound cfg s) : c < s.accepted := by
  by_contra hn
  have hd := (hs.own.fresh c (not_lt.mp hn)).2.2
  rw [h.destroyed] at hd
  cases hd

theorem Gone.step (h : Gone c s) (hs : Sound cfg s) (ho : s.LoopThreads lab)
    (hst : TcpServer.step cfg s lab = some s') : Gone c s' :=
  .of_destroyed (hs.step ho hst) (entry_of_step (h.lt_accepted hs) h.removed hst)
    ((done_of_step hst).2 h.destroyed)

/-- Nothing is queued for it but its `connectDestroyed`, if it is to be removed once more. -/
theorem Gone.queues (h : Gone c s) (hs : Sound cfg s) (hw : ∀ t, s.worker t = .outside) (hf : f.conn = c)
    (hq : s.Queues f) :
    f = .connectDestroyed c ∧ .removeConnectionInLoop c ∈ (s.queue 0).unrun := by
  have hreact : ∀ {e : Event}, e.Reacts = true → ∀ l, (c, e) ∉ s.reactions l := by
    intro e he l hx
    have hd := ((hs.reg.reaction l _ hx).2 he).2
    rw [h.destroyed] at hd
    cases hd
  subst hf
  cases f with
  | connectEstablished c =>
    obtain rfl : c = s.accepted := hq
    exact absurd (h.lt_accepted hs) (lt_irrefl _)
  | connectDestroyed c =>
    obtain ⟨l, hx | hm⟩ := hq
    · exact absurd hx (hreact rfl l)
    · obtain rfl : 0 = l := (hs.placed.queued l _ hm).2
      exact ⟨rfl, hm⟩
  | removeConnectionInLoop c =>
    obtain ⟨l, hx⟩ := hq
    exact absurd hx (hreact rfl l)
  | writeComplete c =>
    obtain ⟨l, hx⟩ := hq
    exact absurd hx (hreact rfl l)
  | highWaterMark c size =>
    obtain ⟨l, hx⟩ := hq
    exact absurd hx (hreact rfl l)
  | sendInLoop c | shutdownInLoop c =>
    obtain ⟨t, ht⟩ := hq
    rw [hw t] at ht
    cases ht

/-- **A connection that is gone is let go of**: in every infinite run in which the threads of the loops come on
again and again no pointer to it is left in the end, but those of user code. -/
theorem gone_released (hC : ∀ s lab, C s lab → s.LoopThreads lab) (r : (sys cfg).Run C)
    (hfair : ∀ l ≤ cfg.numThreads, r.Often (Label.advances l)) (c : ConnId) :
    r.LeadsTo (Gone c) fun s => s.Held cfg c → 0 < s.userRefs c := by
  have hs : ∀ n, Sound cfg (r.state n) := fun n => .of_reach hC (r.reach n)
  have hw : ∀ n t, (r.state n).worker t = .outside := fun n t =>
    worker_outside (fun s lab h => (hC s lab h).1) (r.reach n) t
  have hstep : ∀ n, Gone c (r.state n) → Gone c (r.state (n + 1)) := fun n h =>
    h.step (hs n) (hC _ _ (r.met n)) (r.next n)
  intro n hn
  -- the base loop lets go of its `removeConnectionInLoop`
  obtain ⟨m, hm, hgone, hremoval⟩ := leadsTo_cleared hC (hfair 0 (Nat.zero_le _))
    (K := fun f => f = .removeConnectionInLoop c) hstep
    (fun k hk f hf hq => by
      subst hf
      exact Functor.noConfusion (hk.queues (hs k) (hw k) rfl hq).1) n hn
  have hc := hgone.lt_accepted (hs m)
  let I : TcpServer → Prop := fun s => c < s.accepted ∧ s.loopOf c = (r.state m).loopOf c ∧ Gone c s ∧
    .removeConnectionInLoop c ∉ (s.queue 0).held
  have hI : ∀ k, I (r.state k) → I (r.state (k + 1)) := by
    intro k ⟨hc, hl, hg, hr⟩
    obtain ⟨h1, h2⟩ := loopOf_of_step hc (r.next k)
    refine ⟨h1, h2.trans hl, hstep k hg, fun hf => ?_⟩
    rcases (queues_of_step (r.next k) 0).held hf with hf | hq
    · exact hr hf
    · exact Functor.noConfusion (hg.queues (hs k) (hw k) rfl hq).1
  -- and then its own loop of all the others
  obtain ⟨k, hk, hik, hclear⟩ := leadsTo_cleared hC (hfair _ (loopOf_le (r.reach m) hc))
    (K := fun f => f.conn = c) hI
    (fun k hk f hf hq => hk.2.2.2 (TaskQueue.held_of_unrun (hk.2.2.1.queues (hs k) (hw k) hf hq).2))
    m ⟨hc, rfl, hgone, fun hf => hremoval _ hf rfl⟩
  obtain ⟨-, hl, hg, hr⟩ := hik
  refine ⟨k, hm.trans hk, fun hheld => ?_⟩
  rcases hheld with he | ⟨l, -, f, hf, -, hfc⟩ | hrefs | ⟨t, -, ht⟩
  · exact absurd he hg.removed
  · have hhome := ((hs k).own.queued l f hf).2
    by_cases he : f = .removeConnectionInLoop c
    · rw [he] at hf hhome
      obtain rfl : 0 = l := hhome
      exact absurd hf hr
    · rw [home_of_ne (hfc ▸ he), hfc, hl] at hhome
      subst hhome
      exact absurd hfc (hclear f hf)
  · exact hrefs
  · rw [hw k t] at ht
    cases ht

/-- `connectDestroyed` has just run: its functor still holds the connection. -/
theorem gone_released_closed : ∃ r : (sys config).Run LoopThreads,
    Gone 0 (r.state 0) ∧ (r.state 0).Held config 0 ∧
      r.LeadsTo (Gone 0) fun s => s.Held config 0 → 0 < s.userRefs 0 := by
  obtain ⟨s, hr, hd, he, hh⟩ := Sys.Reach.exists_of_execIf (M := sys config) (s := start config)
    (C := LoopThreads)
    (P := fun s => s.destroyed 0 = true ∧ s.connections (s.nameOf 0) ≠ some 0 ∧ s.Held config 0) (.init rfl)
    (opening 7 ++ closing 7 ++ taking 1 ++ running 1) (by decide +kernel)
  have hC : ∀ s lab, LoopThreads s lab → LoopThreads s lab := fun _ _ h => h
  obtain ⟨r, rfl, -, hfair, -⟩ := exists_fair_run
    (reporting Events.epollin ⟨true, false, false, false, false⟩ (dispatchEnv 7).callbacks 0) hr fun n s hs =>
      (obeys_inTurn (fun y hy => by simp [Events.Reportable, Events.kNoneEvent, hy]) (.any) 0 n
        (worker_outside (fun _ _ h => h.1) hs)).loopThreads
  exact ⟨r, .of_destroyed (.of_reach hC hr) he hd, hh, gone_released hC r hfair 0⟩

end TcpServer

end Mymuduo
