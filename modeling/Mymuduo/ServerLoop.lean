import Mymuduo.Lib.Simulation
import Mymuduo.ServerLiveness
import Mymuduo.Wakeup

/-!
# Mymuduo.ServerLoop — every loop of a server is a loop that runs on its own

In the runs of a server in which user code runs in callbacks and functors only, each loop takes the steps of
`EventLoop` and no others (`loop_run`): the other loops and the worker threads are its foreign threads, which
queue functors and wake it up.  So what holds of all runs of one loop holds of every loop of a server.

* `started` are the functors that the loops start to run; `Sys.logged` keeps them all;
* `LoopView l` relates the server and this history to the loop on its own;
* `line l` are the functors of a loop in the order in which they have been queued: the place of a functor in it
  tells it from others like it, so that what a worker thread has begun to send or to shut down is followed to
  the end (`begun_run`).
-/

namespace Mymuduo

open Lib

/-! ### Functors that are queued -/

namespace EventLoop

variable {F T : Type*} {e e' : EventLoop F T} {fs : List F}

/-- The loop stands where it stood, with the functors `fs` queued. -/
structure Queued (fs : List F) (e e' : EventLoop F T) : Prop where
  pc : e'.pc = e.pc
  quit : e'.quit = e.quit
  rest : e'.queue.rest = e.queue.rest
  pending : e'.queue.pending = e.queue.pending ++ fs
  ran : e'.ran = e.ran
  caller : e'.caller = e.caller

theorem Queued.nil (e : EventLoop F T) : Queued [] e e := ⟨rfl, rfl, rfl, (List.append_nil _).symm, rfl, rfl⟩

theorem Queued.cons {f : F} {e'' : EventLoop F T} (h : Queued [f] e e') (h' : Queued fs e' e'') :
    Queued (f :: fs) e e'' where
  pc := h'.pc.trans h.pc
  quit := h'.quit.trans h.quit
  rest := h'.rest.trans h.rest
  pending := by rw [h'.pending, h.pending, List.append_assoc, List.singleton_append]
  ran := h'.ran.trans h.ran
  caller := h'.caller.trans h.caller

theorem queued_queueInLoop (e : EventLoop F T) (b : Bool) (f : F) : Queued [f] e (e.queueInLoop b f) := by
  unfold queueInLoop
  simp only
  split <;> exact ⟨rfl, rfl, rfl, rfl, rfl, rfl⟩

variable [DecidableEq T]

/-- In a callback or a functor the thread of the loop queues what it likes. -/
theorem exists_own (h : sys.Reach CallbackCalls e) (hpc : (∃ b, e.pc = .dispatch b) ∨ e.pc = .running)
    (fs : List F) : ∃ e' : EventLoop F T, sys.Reach CallbackCalls e' ∧ Queued fs e e' := by
  induction fs generalizing e with
  | nil => exact ⟨e, h, .nil e⟩
  | cons f fs ih =>
    have hq := queued_queueInLoop e true f
    have hst : e.step (.ownQueueInLoop f) = some (e.queueInLoop true f) := by
      refine if_pos ?_
      rcases hpc with ⟨b, hpc⟩ | hpc <;> rw [hpc] <;> rfl
    obtain ⟨e', he, hq'⟩ := ih (.step h (l := .ownQueueInLoop f) hpc hst) (by rwa [hq.pc])
    exact ⟨e', he, hq.cons hq'⟩

/-- Another thread queues functors, each with a wakeup. -/
theorem exists_foreign (h : sys.Reach CallbackCalls e) {t : T} (ht : e.caller t = .outside) (fs : List F) :
    ∃ e' : EventLoop F T, sys.Reach CallbackCalls e' ∧ Queued fs e e' := by
  induction fs generalizing e with
  | nil => exact ⟨e, h, .nil e⟩
  | cons f fs ih =>
    have hexec : sys.exec e [.foreignPush t f, .foreignWakeup t] = some { (e.push f).wakeup with
        caller := Function.update (Function.update e.caller t .beforeWakeup) t .outside } := by
      simp [Sys.exec, sys, step, ht, push, wakeup]
    have hcaller : Function.update (Function.update e.caller t .beforeWakeup) t .outside = e.caller := by
      rw [Function.update_idem, ← ht, Function.update_eq_self]
    rw [hcaller] at hexec
    have hq : Queued [f] e { (e.push f).wakeup with caller := e.caller } := ⟨rfl, rfl, rfl, rfl, rfl, rfl⟩
    obtain ⟨e', he, hq'⟩ := ih (h.exec _ (by simp [CallbackCalls]) hexec) ht
    exact ⟨e', he, hq.cons hq'⟩

end EventLoop

/-- Where the thread of a loop stands. -/
def Phase.pc : Phase → LoopPc
  | .poll => .poll
  | .dispatch => .dispatch false
  | .functors => .run
  | .running _ => .running

/-! ### The history of the functors -/

/-- The functors of the loop `l`, out of those of all loops. -/
def functorsOf (l : LoopId) (hist : List (LoopId × Functor)) : List Functor :=
  (hist.filter fun x => x.1 = l).map Prod.snd

theorem functorsOf_append (l : LoopId) (h h' : List (LoopId × Functor)) :
    functorsOf l (h ++ h') = functorsOf l h ++ functorsOf l h' := by
  simp [functorsOf]

namespace TcpServer

variable {cfg : Config} {s s' : TcpServer} {l : LoopId} {lab : Label}
  {t : List (LoopId × Functor)} {e : EventLoop Functor (LoopId ⊕ ℕ)}

/-- The functor that the step starts. -/
def started (s : TcpServer) (lab : Label) (_ : TcpServer) : List (LoopId × Functor) :=
  match lab with
  | .runFunctor l _ => ((s.queue l).rest.take 1).map fun f => (l, f)
  | _ => []

theorem functorsOf_started_nil (hst : step cfg s lab = some s')
    (h : s.phase l ≠ .functors ∨ (s.queue l).rest = [] ∨ ¬ lab.advances l) :
    functorsOf l (started s lab s') = [] := by
  cases move_of_step hst with
  | runFunctor k env f rest hp _ hr =>
    have hk : k ≠ l := by
      rintro rfl
      simp [hp, hr, Label.advances] at h
    simp [functorsOf, started, hr, hk]
  | _ => rfl

theorem functorsOf_started_run {f : Functor} {rest : List Functor} (hst : step cfg s lab = some s')
    (hp : s.phase l = .functors) (hr : (s.queue l).rest = f :: rest) (ha : lab.advances l) :
    functorsOf l (started s lab s') = [f] := by
  cases move_of_step hst with
  | runFunctor k env =>
    obtain rfl : k = l := ha
    simp [functorsOf, started, hr]
  | poll k _ _ hp' | dispatch k _ _ _ _ hp' | doPendingFunctors k hp' | functorReturn k _ hp' =>
    obtain rfl : k = l := ha
    rw [hp] at hp'
    cases hp'
  | endFunctors k _ _ hr' =>
    obtain rfl : k = l := ha
    rw [hr] at hr'
    cases hr'
  | _ => exact absurd ha id

/-! ### Where the thread of a loop is -/

/-- User code calls the functions of a connection in callbacks and in functors. -/
def InCallbacks (s : TcpServer) : Label → Prop
  | .userAct l _ _ => s.phase l ≠ .functors
  | _ => True

instance (s : TcpServer) (lab : Label) : Decidable (s.InCallbacks lab) :=
  match lab with
  | .userAct l _ _ => inferInstanceAs (Decidable (s.phase l ≠ .functors))
  | .poll .. | .dispatch .. | .react _ | .doPendingFunctors _ | .runFunctor .. | .functorReturn _
  | .endFunctors _ | .keep _ | .drop _ | .workerTake .. | .workerTest .. | .workerStore _
  | .workerQueue _ | .workerDrop _ => .isTrue trivial

/-- Between two functors nothing is left to do for a callback. -/
def Settled (s : TcpServer) : Prop := ∀ l, s.phase l = .functors → s.reactions l = []

theorem Settled.step (h : Settled s) (hp : Placed cfg (fun _ _ _ => True) s) (hc : s.InCallbacks lab)
    (hst : TcpServer.step cfg s lab = some s') : Settled s' := by
  intro l hf
  by_cases hl : lab.loop = some l
  · have hne : ∀ {p : Phase}, s'.phase l = p → p ≠ .functors → s'.reactions l = [] := fun hq hn =>
      absurd (hq.symm.trans hf) hn
    cases move_of_step hst with
    | poll k =>
      obtain rfl : k = l := Option.some.inj hl
      exact hne (phase_setPhase ..) (by simp)
    | dispatch k env ptr rest s' hd _ _ hev =>
      obtain rfl : k = l := Option.some.inj hl
      exact hne ((Stays.handleEvent (l := k) hev).phase.trans hd) (by simp)
    | react k c e rest hre =>
      obtain rfl : k = l := Option.some.inj hl
      rw [h k ((Stays.react (l := k) (s.setReactions k rest) k c e).phase.symm.trans hf)] at hre
      cases hre
    | doPendingFunctors k _ hre =>
      obtain rfl : k = l := Option.some.inj hl
      exact hre
    | runFunctor k =>
      obtain rfl : k = l := Option.some.inj hl
      exact hne (phase_setPhase ..) (by simp)
    | functorReturn k _ _ hre =>
      obtain rfl : k = l := Option.some.inj hl
      exact hre
    | endFunctors k =>
      obtain rfl : k = l := Option.some.inj hl
      exact hne (phase_setPhase ..) (by simp)
    | userAct k =>
      obtain rfl : k = l := Option.some.inj hl
      exact absurd hf hc
    | _ => cases hl
  · rw [reactions_of_ne hp hl hst]
    rcases turn_or_stays (l := l) hst with ⟨ha, -⟩ | ⟨-, hs⟩
    · exact absurd (loop_of_advances ha) hl
    · exact h l (hs.phase.symm.trans hf)

theorem settled_of_reach {C : TcpServer → Label → Prop} (hC : ∀ s lab, C s lab → s.InCallbacks lab)
    (h : (sys cfg).Reach C s) : Settled s := by
  have h1 : Settled s ∧ Placed cfg (fun _ _ _ => True) s :=
    h.invariant (I := fun s => Settled s ∧ Placed cfg (fun _ _ _ => True) s)
      (fun _ hs => hs ▸ ⟨fun _ _ => rfl, .start⟩) fun s lab _ hi hc hst =>
        ⟨hi.1.step hi.2 (hC s lab hc) hst, hi.2.step hst⟩
  exact h1.1

/-! ### Each loop on its own -/

/-- `e` is the loop `l` of the server on its own, with the functors that it has started to run. -/
structure LoopView (l : LoopId) (x : TcpServer × List (LoopId × Functor))
    (e : EventLoop Functor (LoopId ⊕ ℕ)) : Prop where
  pc : e.pc = (x.1.phase l).pc
  quit : e.quit = false
  rest : e.queue.rest = (x.1.queue l).rest
  pending : e.queue.pending = (x.1.queue l).pending
  ran : e.ran = functorsOf l x.2
  caller : ∀ t, e.caller t = .outside

/-- After functors have been queued. -/
theorem LoopView.of_queued {e' : EventLoop Functor (LoopId ⊕ ℕ)} {fs : List Functor}
    (hq : EventLoop.Queued fs e e') (hpc : e.pc = (s'.phase l).pc) (hquit : e.quit = false)
    (hrest : e.queue.rest = (s'.queue l).rest) (hpend : (s'.queue l).pending = e.queue.pending ++ fs)
    (hran : e.ran = functorsOf l t) (hcaller : ∀ k, e.caller k = .outside) : LoopView l (s', t) e' where
  pc := hq.pc.trans hpc
  quit := hq.quit.trans hquit
  rest := hq.rest.trans hrest
  pending := hq.pending.trans hpend.symm
  ran := hq.ran.trans hran
  caller k := hq.caller ▸ hcaller k

/-- The thread that takes the step, seen from the loops of others. -/
def Label.thread : Label → LoopId ⊕ ℕ
  | .workerTake t _ | .workerTest t _ | .workerStore t | .workerQueue t | .workerDrop t => .inr t
  | lab => .inl (lab.loop.getD 0)

/-- A loop queues for itself in callbacks and in functors only. -/
theorem pc_of_grown (hr : Rested s) (hset : Settled s) (hst : step cfg s lab = some s')
    (hl : lab.loop = some l) (hn : ¬ lab.advances l) (hg : (s'.queue l).pending ≠ (s.queue l).pending) :
    s.phase l = .dispatch ∨ ∃ f, s.phase l = .running f := by
  cases move_of_step hst with
  | react k c e rest hre =>
    obtain rfl : k = l := Option.some.inj hl
    cases hp : s.phase k with
    | poll =>
      rw [hr k hp] at hre
      cases hre
    | dispatch => exact .inl rfl
    | functors =>
      rw [hset k hp] at hre
      cases hre
    | running f => exact .inr ⟨f, rfl⟩
  | userAct => exact absurd rfl hg
  | keep | drop | workerTake | workerTest | workerStore | workerQueue | workerDrop => cases hl
  | _ => exact absurd (Option.some.inj hl) hn

/-- What the loop starts to run, where the step starts nothing in it. -/
theorem LoopView.ran_of_step (h : LoopView l (s, t) e) (hst : TcpServer.step cfg s lab = some s')
    (hno : s.phase l ≠ .functors ∨ (s.queue l).rest = [] ∨ ¬ lab.advances l) :
    e.ran = functorsOf l (t ++ started s lab s') := by
  rw [functorsOf_append, functorsOf_started_nil hst hno, List.append_nil]
  exact h.ran

/-- Where the thread of the loop comes on. -/
theorem LoopView.turn (h : LoopView l (s, t) e) (he : EventLoop.sys.Reach EventLoop.CallbackCalls e)
    (ha : lab.advances l) (ht : Turn l s s') (hst : TcpServer.step cfg s lab = some s') :
    ∃ e', EventLoop.sys.Reach EventLoop.CallbackCalls e' ∧ LoopView l (s', t ++ started s lab s') e' := by
  cases ht with
  | poll hp hp' hq =>
    have h1 : e.step (.pollReturn false) = some { e with pc := .dispatch false } := by
      simp [EventLoop.step, h.pc, hp, Phase.pc]
    obtain ⟨fs, hfs⟩ := hq.2
    obtain ⟨e', he', hq'⟩ := EventLoop.exists_own
      (.step (l := .pollReturn false) he trivial h1) (.inl ⟨false, rfl⟩) fs
    refine ⟨e', he', .of_queued hq' (by rw [hp']; rfl) h.quit (h.rest.trans hq.1.symm) ?_
      (h.ran_of_step hst (.inl (by simp [hp]))) h.caller⟩
    rw [← hfs, h.pending]
  | dispatch ptr hp _ hp' hq =>
    have hpc : e.pc = .dispatch false := by rw [h.pc, hp]; rfl
    obtain ⟨fs, hfs⟩ := hq.2
    obtain ⟨e', he', hq'⟩ := EventLoop.exists_own he (.inl ⟨false, hpc⟩) fs
    refine ⟨e', he', .of_queued hq' (by rw [hpc, hp']; rfl) h.quit (h.rest.trans hq.1.symm) ?_
      (h.ran_of_step hst (.inl (by simp [hp]))) h.caller⟩
    rw [← hfs, h.pending]
  | swap hp hp' hq =>
    have h1 : EventLoop.sys.exec e [.beginFunctors, .swap] =
        some { e with callingPendingFunctors := true, queue := e.queue.swap, pc := .run } := by
      simp [Sys.exec, EventLoop.sys, EventLoop.step, h.pc, hp, Phase.pc]
    refine ⟨_, he.exec _ (by simp [EventLoop.CallbackCalls]) h1, by rw [hp']; rfl, h.quit, ?_, ?_,
      h.ran_of_step hst (.inl (by simp [hp])), h.caller⟩
    · rw [hq]
      exact h.pending
    · rw [hq]
      rfl
  | run f rest hp hr' hp' hq =>
    have hrest : e.queue.rest = f :: rest := h.rest.trans hr'
    have h1 : e.step .runFunctor =
        some { e with queue := e.queue.advance, ran := e.ran ++ [f], pc := .running } := by
      simp [EventLoop.step, h.pc, hp, Phase.pc, hrest]
    obtain ⟨fs, hfs⟩ := hq.2
    obtain ⟨e', he', hq'⟩ := EventLoop.exists_own
      (.step (l := .runFunctor) he trivial h1) (.inr rfl) fs
    refine ⟨e', he', .of_queued hq' (by rw [hp']; rfl) h.quit ?_ ?_ ?_ h.caller⟩
    · rw [hq.1, TaskQueue.advance_rest, TaskQueue.advance_rest, h.rest]
    · rw [← hfs, TaskQueue.advance_pending, TaskQueue.advance_pending, h.pending]
    · rw [functorsOf_append, functorsOf_started_run hst hp hr' ha, h.ran]
  | functorReturn f hp hp' hq =>
    have h1 : e.step .functorReturn = some { e with pc := .run } := by
      simp [EventLoop.step, h.pc, hp, Phase.pc]
    refine ⟨_, .step (l := .functorReturn) he trivial h1, by rw [hp']; rfl, h.quit, ?_, ?_,
      h.ran_of_step hst (.inl (by simp [hp])), h.caller⟩
    · rw [hq]
      exact h.rest
    · rw [hq]
      exact h.pending
  | finish hp hr' hp' _ hq =>
    have hrest : e.queue.rest = [] := h.rest.trans hr'
    have h1 : EventLoop.sys.exec e [.endFunctors, .testQuit] =
        some { e with queue := e.queue.finish, callingPendingFunctors := false, pc := .poll } := by
      simp [Sys.exec, EventLoop.sys, EventLoop.step, h.pc, hp, Phase.pc, hrest, h.quit]
    refine ⟨_, he.exec _ (by simp [EventLoop.CallbackCalls]) h1, by rw [hp']; rfl, h.quit, ?_, ?_,
      h.ran_of_step hst (.inr (.inl hr')), h.caller⟩
    · rw [hq]
      rfl
    · rw [hq]
      exact h.pending

/-- Where it does not, functors may be queued. -/
theorem LoopView.stays (h : LoopView l (s, t) e) (he : EventLoop.sys.Reach EventLoop.CallbackCalls e)
    (hr : Rested s) (hset : Settled s) (hn : ¬ lab.advances l) (hs : Stays l s s')
    (hst : TcpServer.step cfg s lab = some s') :
    ∃ e', EventLoop.sys.Reach EventLoop.CallbackCalls e' ∧ LoopView l (s', t ++ started s lab s') e' := by
  obtain ⟨fs, hfs⟩ := hs.queue.2
  have hview : ∀ {e'}, EventLoop.Queued fs e e' → LoopView l (s', t ++ started s lab s') e' := by
    intro e' hq'
    refine .of_queued hq' (by rw [hs.phase]; exact h.pc) h.quit (h.rest.trans hs.queue.1.symm) ?_
      (h.ran_of_step hst (.inr (.inr hn))) h.caller
    rw [← hfs, h.pending]
  by_cases hl : lab.loop = some l
  · by_cases hg : (s'.queue l).pending = (s.queue l).pending
    · have hnofs : fs = [] := List.append_right_eq_self.mp (hfs.trans hg)
      subst hnofs
      exact ⟨e, he, hview (.nil e)⟩
    · have hpc : (∃ b, e.pc = .dispatch b) ∨ e.pc = .running := by
        rw [h.pc]
        rcases pc_of_grown hr hset hst hl hn hg with hp | ⟨f, hp⟩
        · rw [hp]
          exact .inl ⟨false, rfl⟩
        · rw [hp]
          exact .inr rfl
      obtain ⟨e', he', hq'⟩ := EventLoop.exists_own he hpc fs
      exact ⟨e', he', hview hq'⟩
  · obtain ⟨e', he', hq'⟩ := EventLoop.exists_foreign he (h.caller lab.thread) fs
    exact ⟨e', he', hview hq'⟩

/-- The step of the server is some steps of the loop on its own. -/
theorem LoopView.step (h : LoopView l (s, t) e) (he : EventLoop.sys.Reach EventLoop.CallbackCalls e)
    (hr : Rested s) (hset : Settled s) (hst : TcpServer.step cfg s lab = some s') :
    ∃ e', EventLoop.sys.Reach EventLoop.CallbackCalls e' ∧ LoopView l (s', t ++ started s lab s') e' := by
  rcases turn_or_stays (l := l) hst with ⟨ha, ht⟩ | ⟨hn, hs⟩
  · exact h.turn he ha ht hst
  · exact h.stays he hr hset hn hs hst

/-- **Every loop of a server runs as one loop on its own**: at every moment of every run in which user code
calls the functions of connections in callbacks and functors only, what is queued in a loop, what it has
started to run, and where its thread stands are those of a run of `EventLoop` that calls `queueInLoop` itself in
callbacks and functors only. -/
theorem loop_run {x : TcpServer × List (LoopId × Functor)} (l : LoopId)
    (h : ((sys cfg).logged started).Reach (fun x => x.1.InCallbacks) x) :
    ∃ e, EventLoop.sys.Reach EventLoop.CallbackCalls e ∧ LoopView l x e := by
  refine h.simulates (N := EventLoop.sys) (R := LoopView l) (fun x hx => ?_) fun x lab x' e hx hc hst hview he => ?_
  · obtain ⟨hs, ht⟩ := hx
    have h1 : EventLoop.sys.exec (EventLoop.new : EventLoop Functor (LoopId ⊕ ℕ))
        [.enter, .clearQuit, .testQuit] = some { EventLoop.new with looping := true, pc := .poll } := rfl
    refine ⟨_, (Sys.Reach.init rfl).exec _ (by simp [EventLoop.CallbackCalls]) h1, ?_⟩
    obtain ⟨s, t⟩ := x
    obtain rfl : s = TcpServer.start cfg := hs
    obtain rfl : t = [] := ht
    exact ⟨rfl, rfl, rfl, rfl, rfl, fun _ => rfl⟩
  · obtain ⟨s', hst', rfl⟩ := Sys.step_logged.mp hst
    have hreach := Sys.Reach.of_logged hx
    exact hview.step he (.of_reach hreach) (settled_of_reach (fun _ _ hc => hc) hreach) hst'

/-- The sub loop has run the functor that the base loop has queued in it, and waits again. -/
theorem loop_run_opened : ∃ x : TcpServer × List (LoopId × Functor), ∃ e,
    EventLoop.sys.Reach EventLoop.CallbackCalls e ∧ LoopView 1 x e ∧ e.pc = .poll ∧
      e.ran = [.connectEstablished 0] := by
  obtain ⟨x, hx, hp, hran⟩ := Sys.Reach.exists_of_execIf (M := (sys config).logged started)
    (s := (TcpServer.start config, [])) (C := fun x => x.1.InCallbacks)
    (P := fun x => x.1.phase 1 = .poll ∧ functorsOf 1 x.2 = [.connectEstablished 0])
    (.init ⟨rfl, rfl⟩) (opening 7) (by decide +kernel)
  obtain ⟨e, he, hview⟩ := loop_run 1 hx
  refine ⟨x, e, he, hview, ?_, hview.ran.trans hran⟩
  rw [hview.pc, hp]
  rfl

/-! ### The place of a functor -/

/-- The functors of the loop `l` in the order in which they have been queued: first those that it has started. -/
def line (l : LoopId) (x : TcpServer × List (LoopId × Functor)) : List Functor :=
  functorsOf l x.2 ++ (x.1.queue l).unrun

/-- The line grows at its end. -/
theorem line_step (hb : Between s) (hst : TcpServer.step cfg s lab = some s') :
    line l (s, t) <+: line l (s', t ++ started s lab s') := by
  unfold line
  rw [functorsOf_append, List.append_assoc, List.prefix_append_right_inj]
  rcases turn_or_stays (l := l) hst with ⟨ha, ht⟩ | ⟨hn, hs⟩
  · cases ht with
    | poll hp _ hq =>
      rw [functorsOf_started_nil hst (.inl (by simp [hp]))]
      exact hq.unrun
    | dispatch ptr hp _ _ hq =>
      rw [functorsOf_started_nil hst (.inl (by simp [hp]))]
      exact hq.unrun
    | swap hp _ hq =>
      rw [functorsOf_started_nil hst (.inl (by simp [hp])), hq, TaskQueue.unrun_swap (hb l (.inr hp))]
      exact List.prefix_rfl
    | run f rest hp hr _ hq =>
      rw [functorsOf_started_run hst hp hr ha, TaskQueue.unrun_eq_cons hr, List.singleton_append,
        List.cons_prefix_cons]
      exact ⟨rfl, hq.unrun⟩
    | functorReturn f hp _ hq =>
      rw [functorsOf_started_nil hst (.inl (by simp [hp])), hq]
      exact List.prefix_rfl
    | finish _ hr _ _ hq =>
      rw [functorsOf_started_nil hst (.inr (.inl hr)), hq, TaskQueue.unrun_finish hr]
      exact List.prefix_rfl
  · rw [functorsOf_started_nil hst (.inr (.inr hn))]
    exact hs.queue.unrun

theorem Extends.home (h : Extends s s') {f : Functor} (hf : f.conn < s.accepted) : s'.home f = s.home f := by
  cases f with
  | removeConnectionInLoop c => rfl
  | _ => exact h.loop _ hf

/-- A functor is started in the loop it was queued for. -/
theorem home_of_started {C : TcpServer → Label → Prop} {x : TcpServer × List (LoopId × Functor)}
    (h : ((sys cfg).logged started).Reach (fun x => C x.1) x) :
    ∀ y ∈ x.2, y.2.conn < x.1.accepted ∧ x.1.home y.2 = y.1 := by
  induction h with
  | init hx =>
    rw [hx.2]
    exact fun _ hy => absurd hy List.not_mem_nil
  | @step x x' lab hx _ hst ih =>
    obtain ⟨s', hst', rfl⟩ := Sys.step_logged.mp hst
    have hext := extends_of_step hst'
    have hkeep : ∀ {f l}, f.conn < x.1.accepted ∧ x.1.home f = l → f.conn < s'.accepted ∧ s'.home f = l :=
      fun hf => ⟨hf.1.trans_le hext.accepted, hf.2 ▸ hext.home hf.1⟩
    intro y hy
    refine hkeep ?_
    rcases List.mem_append.mp hy with hy | hy
    · exact ih y hy
    · cases move_of_step hst' with
      | runFunctor l env f rest _ _ hr =>
        obtain rfl : y = (l, f) := by simpa [started, hr] using hy
        exact (Placed.of_reach (.of_logged hx)).queued l f (TaskQueue.mem_unrun_of_rest hr)
      | _ => exact absurd hy List.not_mem_nil

section Runs

variable {C : TcpServer → Label → Prop} {r : ((sys cfg).logged started).Run fun x => C x.1}

theorem prefix_line {n m : ℕ} (h : n ≤ m) : line l (r.state n) <+: line l (r.state m) := by
  refine Sys.Run.stable (r := r) (P := fun x => line l (r.state n) <+: line l x) (fun k hk => ?_)
    List.prefix_rfl h
  obtain ⟨s', hst, he⟩ := r.next_logged k
  rw [he]
  exact hk.trans (line_step (t := (r.state k).2) (.of_reach (.of_logged (r.reach k))) hst)

/-- While a functor waits, the loop comes to start one. -/
theorem exists_started (hl : r.Often (Label.advances l)) {n : ℕ}
    (hn : ((r.state n).1.queue l).unrun ≠ []) : ∃ m, n ≤ m ∧
      (functorsOf l (r.state m).2).length < (functorsOf l (r.state (m + 1)).2).length := by
  obtain ⟨f, hf⟩ := List.exists_mem_of_ne_nil _ hn
  refine (Sys.Run.exists_of_rank (r := r) (P := fun x => f ∈ (x.1.queue l).unrun) (A := Label.advances l)
    (fun x => rank f (x.1.phase l) (x.1.active l) (x.1.queue l).rest)
    (E := fun m => (functorsOf l (r.state m).2).length < (functorsOf l (r.state (m + 1)).2).length)
    hl (fun k hk => ?_) hf).imp fun m h => ⟨h.1, h.2.2⟩
  have hb := Between.of_reach (.of_logged (r.reach k))
  obtain ⟨s', hst, he⟩ := r.next_logged k
  rw [he]
  rcases turn_or_stays (l := l) hst with ⟨ha, ht⟩ | ⟨hno, hs⟩
  · have hnear : (∀ g, s'.phase l ≠ .running g) → f ∈ (s'.queue l).unrun ∧
        rank f (s'.phase l) (s'.active l) (s'.queue l).rest < rank f ((r.state k).1.phase l)
          ((r.state k).1.active l) ((r.state k).1.queue l).rest := fun hno =>
      ⟨(waits_or_ran hb hst hk).resolve_right fun h => hno f h.1,
        (rank_turn hb ht hk).resolve_left fun h => hno f h.1⟩
    cases ht with
    | run g rest hp hr =>
      refine .inl ?_
      rw [functorsOf_append, functorsOf_started_run hst hp hr ha, List.length_append]
      exact Nat.lt_succ_self _
    | poll _ hp' | dispatch _ _ _ hp' | swap _ hp' | functorReturn _ _ hp' | finish _ _ hp' =>
      obtain ⟨hf', hlt⟩ := hnear (by simp [hp'])
      exact .inr ⟨hf', hlt.le, fun _ => hlt⟩
  · refine .inr ⟨hs.queue.unrun.subset hk, ?_, fun ha => absurd ha hno⟩
    rw [hs.phase, hs.active, hs.queue.1]

/-- **The loop comes to every place in its line.** -/
theorem exists_started_at (hl : r.Often (Label.advances l)) {n i : ℕ} (hi : i < (line l (r.state n)).length) :
    ∃ m, n ≤ m ∧ i < (functorsOf l (r.state m).2).length := by
  refine Sys.Run.leadsTo_of_descent (r := r) (P := fun x => i < (line l x).length)
    (Q := fun x => i < (functorsOf l x.2).length) (fun x => i + 1 - (functorsOf l x.2).length)
    (fun k hk => ?_) n hi
  by_cases hlt : i < (functorsOf l (r.state k).2).length
  · exact ⟨k, le_rfl, .inl hlt⟩
  · have hwait : ((r.state k).1.queue l).unrun ≠ [] := by
      rintro hnil
      rw [line, hnil, List.append_nil] at hk
      exact hlt hk
    obtain ⟨m, hm, hstart⟩ := exists_started hl hwait
    have hgrow : (functorsOf l (r.state k).2).length ≤ (functorsOf l (r.state m).2).length :=
      (((r.prefix_history hm).filter _).map _).length_le
    refine ⟨m + 1, Nat.le_succ_of_le hm, .inr ⟨hk.trans_le (prefix_line (Nat.le_succ_of_le hm)).length_le, ?_⟩⟩
    show i + 1 - (functorsOf l (r.state (m + 1)).2).length < i + 1 - (functorsOf l (r.state k).2).length
    omega

/-- The loop starts what has come to the end of its line. -/
theorem exists_started_last (hl : r.Often (Label.advances l)) {m : ℕ} {f : Functor}
    (hline : line l (r.state (m + 1)) = line l (r.state m) ++ [f]) :
    ∃ k, m < k ∧ (functorsOf l (r.state k).2)[(line l (r.state m)).length]? = some f := by
  have hlt : (line l (r.state m)).length < (line l (r.state (m + 1))).length := by
    rw [hline, List.length_append]
    exact Nat.lt_succ_self _
  obtain ⟨k, hk, hstart⟩ := exists_started_at hl hlt
  refine ⟨k, hk, ?_⟩
  have hget : (line l (r.state k))[(line l (r.state m)).length]? = some f := by
    obtain ⟨fs, hfs⟩ := prefix_line (l := l) hk
    rw [← hfs, hline, List.append_assoc, List.getElem?_append_right le_rfl, Nat.sub_self]
    rfl
  rwa [line, List.getElem?_append_left hstart] at hget

/-! ### What a worker thread has begun -/

/-- The call has met a connection that is `kConnected`, and goes on. -/
def Begun (t : ℕ) (c : ConnId) (call : Call) (s : TcpServer) : Prop :=
  s.worker t = .queueing c call ∨ call = .shutdown ∧ s.worker t = .storing c

/-- How many steps the worker thread is from queueing the functor. -/
def stepsLeft : Worker → ℕ
  | .storing _ => 1
  | _ => 0

theorem begun_step {u : ℕ} {call : Call} (hb : s.Begun u c call) (hst : step cfg s lab = some s') :
    lab = .workerQueue u ∨ s'.Begun u c call ∧ stepsLeft (s'.worker u) ≤ stepsLeft (s.worker u) ∧
      (lab.ofWorker u → stepsLeft (s'.worker u) < stepsLeft (s.worker u)) := by
  by_cases hl : lab.ofWorker u
  · cases move_of_step hst with
    | workerTake v c' _ hw =>
      obtain rfl : v = u := hl
      simp [Begun, hw] at hb
    | workerTest v call' c' hw =>
      obtain rfl : v = u := hl
      simp [Begun, hw] at hb
    | workerStore v c' hw =>
      obtain rfl : v = u := hl
      obtain ⟨rfl, rfl⟩ : call = .shutdown ∧ c' = c := by simpa [Begun, hw] using hb
      have hw' : ((s.setState c' .kDisconnecting).setWorker v (.queueing c' .shutdown)).worker v =
          .queueing c' .shutdown := Function.update_self ..
      rw [hw, hw']
      exact .inr ⟨.inl hw', Nat.zero_le _, fun _ => Nat.one_pos⟩
    | workerQueue v =>
      obtain rfl : v = u := hl
      exact .inl rfl
    | workerDrop v c' hw =>
      obtain rfl : v = u := hl
      simp [Begun, hw] at hb
    | _ => exact absurd hl id
  · have hw := worker_of_step hl hst
    unfold Begun at hb ⊢
    rw [hw]
    exact .inr ⟨hb, le_rfl, fun h => absurd h hl⟩

/-- The worker thread queues the functor at the end of the line. -/
theorem line_workerQueue (cfg : Config) {u : ℕ} {call : Call} (hb : s.Begun u c call)
    (hst : step cfg s (.workerQueue u) = some s') :
    line (s.loopOf c) (s', t ++ started s (.workerQueue u) s') =
      line (s.loopOf c) (s, t) ++ [call.functor c] := by
  cases move_of_step hst with
  | workerQueue _ c' call' hw =>
    obtain ⟨rfl, rfl⟩ : c' = c ∧ call' = call := by simpa [Begun, hw] using hb
    have hq : ((s.push (s.loopOf c') (call'.functor c')).setWorker u (.holding c')).queue (s.loopOf c') =
        (s.queue (s.loopOf c')).push (call'.functor c') := queue_setQueue ..
    simp [line, started, hq, TaskQueue.unrun]

/-- The worker thread comes to queue its functor, and does nothing else before. -/
theorem exists_workerQueue {u : ℕ} (hu : r.Often (Label.ofWorker u)) {call : Call} {n : ℕ}
    (hb : (r.state n).1.Begun u c call) :
    ∃ m, n ≤ m ∧ (∀ k, n ≤ k → k ≤ m → (r.state k).1.Begun u c call) ∧ r.label m = .workerQueue u := by
  have hex : ∃ m, n ≤ m ∧ r.label m = .workerQueue u := by
    obtain ⟨m, hm, -, hlab⟩ := Sys.Run.exists_of_rank (r := r) (P := fun x => x.1.Begun u c call)
      (fun x => stepsLeft (x.1.worker u)) (E := fun m => r.label m = .workerQueue u) hu
      (fun k hk => begun_step hk (r.ofLogged.next k)) hb
    exact ⟨m, hm, hlab⟩
  -- the first time, so that it is the call that has begun
  classical
  obtain ⟨hm, hlab⟩ := Nat.find_spec hex
  refine ⟨Nat.find hex, hm, fun k hk => ?_, hlab⟩
  induction k, hk using Nat.le_induction with
  | base => exact fun _ => hb
  | succ k hk ih =>
    intro hk'
    refine ((begun_step (ih (Nat.le_of_succ_le hk')) (r.ofLogged.next k)).resolve_left fun hlab => ?_).1
    exact Nat.find_min hex hk' ⟨hk, hlab⟩

/-- **What a worker thread has begun is done in the loop of the connection**: if both threads come on again and
again, the worker thread, which does nothing else before, queues its functor in that loop, and the loop comes to
the place of this functor in its line and starts it; no other loop ever starts a functor like it. -/
theorem begun_run (r : ((sys cfg).logged started).Run fun x => C x.1)
    (hfair : ∀ l ≤ cfg.numThreads, r.Often (Label.advances l)) {u : ℕ} (hu : r.Often (Label.ofWorker u))
    {c : ConnId} {call : Call} {n : ℕ} (hb : (r.state n).1.Begun u c call)
    (hl : (r.state n).1.loopOf c = l) :
    (∃ m, n ≤ m ∧ (∀ k, n ≤ k → k ≤ m → (r.state k).1.Begun u c call) ∧ r.label m = .workerQueue u ∧
      line l (r.state (m + 1)) = line l (r.state m) ++ [call.functor c] ∧
      ∃ k, m < k ∧ (functorsOf l (r.state k).2)[(line l (r.state m)).length]? = some (call.functor c)) ∧
    ∀ k l', (l', call.functor c) ∈ (r.state k).2 → l' = l := by
  have hc : c < (r.state n).1.accepted := by
    refine (Placed.of_reach (.of_logged (r.reach n))).worker u c ?_
    rcases hb with hw | ⟨-, hw⟩
    · rw [hw]
      rfl
    · rw [hw]
      rfl
  have hkept : ∀ {k}, n ≤ k → c < (r.state k).1.accepted ∧ (r.state k).1.loopOf c = l := fun hk =>
    ⟨(loopOf_kept (r := r.ofLogged) hk hc).1, (loopOf_kept (r := r.ofLogged) hk hc).2.trans hl⟩
  refine ⟨?_, fun k l' hy => ?_⟩
  · obtain ⟨m, hm, hbegun, hlab⟩ := exists_workerQueue hu hb
    obtain ⟨s', hst, he⟩ := r.next_logged m
    have hline : line l (r.state (m + 1)) = line l (r.state m) ++ [call.functor c] := by
      rw [he, ← (hkept hm).2]
      rw [hlab] at hst ⊢
      exact line_workerQueue cfg (hbegun m hm le_rfl) hst
    have hle : l ≤ cfg.numThreads := hl ▸ loopOf_le (.of_logged (r.reach n)) hc
    exact ⟨m, hm, hbegun, hlab, hline, exists_started_last (hfair l hle) hline⟩
  · have hn : n ≤ max k n := le_max_right k n
    have hm := (r.prefix_history (le_max_left k n)).subset hy
    have hhome : (r.state (max k n)).1.home (call.functor c) = l' := (home_of_started (r.reach _) _ hm).2
    rw [← hhome, ← (hkept hn).2]
    cases call <;> rfl

end Runs

/-- A worker thread has tested the state for `shutdown`. -/
theorem begun_run_shutdown : ∃ r : ((sys config).logged started).Run fun _ _ => True,
    (r.state 0).1.Begun 0 0 .shutdown ∧
      ∃ m k, m < k ∧ (functorsOf 1 (r.state k).2)[(line 1 (r.state m)).length]? = some (.shutdownInLoop 0) := by
  obtain ⟨x, hx, hw, hl⟩ := Sys.Reach.exists_of_execIf (M := (sys config).logged started)
    (s := (TcpServer.start config, [])) (C := fun _ _ => True)
    (P := fun x => x.1.worker 0 = .storing 0 ∧ x.1.loopOf 0 = 1) (.init ⟨rfl, rfl⟩)
    (opening 7 ++ [.workerTake 0 0, .workerTest 0 .shutdown]) (by decide +kernel)
  obtain ⟨s, hist⟩ := x
  obtain ⟨r, rfl, -, hfair, hworker⟩ := exists_fair_run (C := fun _ _ => True) .nothing (.of_logged hx)
    fun _ _ _ => trivial
  replace hw : (r.state 0).worker 0 = .storing 0 := hw
  have hb : (r.state 0).Begun 0 0 .shutdown := .inr ⟨rfl, hw⟩
  have hout : (r.state 0).worker 0 ≠ .outside := by simp [hw]
  have hl' : ((r.logged started hist hx).state 0).1.loopOf 0 = 1 := hl
  obtain ⟨⟨m, -, -, -, -, k, hk, hget⟩, -⟩ :=
    begun_run (C := fun _ _ => True) (r.logged started hist hx) hfair (hworker 0 Nat.one_pos hout) hb hl'
  exact ⟨r.logged started hist hx, hb, m, k, hk, hget⟩

end TcpServer

end Mymuduo
