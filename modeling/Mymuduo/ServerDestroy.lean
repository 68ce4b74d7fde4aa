import Mymuduo.Confinement
import Mymuduo.ServerReg
import Mymuduo.ServerStale

/-!
# Mymuduo.ServerDestroy — a destructor that leaves nothing behind

`CleanEnd` says that the destructor meets nothing in the base loop that would use the server later: no
`removeConnectionInLoop` in its queue, no `closeCallback` that it has still to call, no channels that are
still to be dispatched or still registered, and no `sendInLoop` functors that register a channel again.
`Retired` is then an invariant of the base loop and of the other threads from the end of the destructor on
(`Retired.step`), and every later step is clean, whatever it is (`clean_of_cleanEnd`).
-/

namespace Mymuduo

open Lib

namespace TcpServer

section Defs

variable (cfg : Config) (s : TcpServer)

/-- `sendInLoop` waits in the base loop, or a thread is about to queue it. -/
def Sending (c : ConnId) : Prop :=
  .sendInLoop c ∈ (s.queue 0).unrun ∨ ∃ t < cfg.workers, s.worker t = .queueing c .send

instance (c : ConnId) : Decidable (s.Sending cfg c) := inferInstanceAs (Decidable (_ ∨ _))

/-- A thread is about to store `kDisconnecting`. -/
def Storing (c : ConnId) : Prop := ∃ t < cfg.workers, s.worker t = .storing c

instance (c : ConnId) : Decidable (s.Storing cfg c) :=
  inferInstanceAs (Decidable (∃ t < cfg.workers, s.worker t = .storing c))

/-- The functors that are still to run register no channel again. -/
def SendsNothing : Prop :=
  ∀ c < s.accepted, s.loopOf c = 0 → s.Sending cfg c →
    (s.conn c).state = .kDisconnected ∧ ¬ s.Storing cfg c

instance : Decidable (s.SendsNothing cfg) :=
  inferInstanceAs (Decidable (∀ c < s.accepted, _ → _ → _ ∧ _))

/-- The base loop has nothing left of the server. -/
structure Retired : Prop where
  removal : ∀ f ∈ (s.queue 0).unrun, f ≠ .removeConnectionInLoop f.conn
  reaction : ∀ x ∈ s.reactions 0, x.2 ≠ .closeCallback
  active : ∀ ptr ∈ s.active 0, ptr = .wakeup 0
  epoll : ∀ fd x, (s.poller 0).epoll fd = some x → x.2 = .wakeup 0
  closed : ∀ c < s.accepted, s.loopOf c = 0 → (s.conn c).state ≠ .kConnected
  sending : s.SendsNothing cfg

end Defs

variable {cfg : Config} {F : LoopId → ℕ → ChannelPtr → Prop} {s s' : TcpServer} {l : LoopId}
  {c : ConnId}

/-- Only the threads that exist call anything. -/
theorem idle_of_step (h : ∀ t, cfg.workers ≤ t → s.worker t = .outside) {lab : Label}
    (hst : TcpServer.step cfg s lab = some s') : ∀ t, cfg.workers ≤ t → s'.worker t = .outside := by
  have hset : ∀ {t w}, t < cfg.workers → ∀ t', cfg.workers ≤ t' →
      (s.setWorker t w).worker t' = .outside := by
    intro t w ht t' ht'
    have hn : t' ≠ t := fun he => Nat.not_le.mpr ht (he ▸ ht')
    exact (Function.update_of_ne hn ..).trans (h t' ht')
  have hlt : ∀ {t}, s.worker t ≠ .outside → t < cfg.workers := fun hne =>
    Nat.not_le.mp fun ht => hne (h _ ht)
  cases move_of_step hst with
  | poll l reports =>
    obtain ⟨r, hr⟩ := fillActiveChannels_eq s l reports
    rw [hr]
    exact h
  | dispatch l env ptr rest s' _ _ _ hs =>
    rcases handleEvent_cases hs with rfl | ⟨-, fd, highWater, -, -, rfl⟩ | ⟨c, -, -, -, rfl⟩
    · exact h
    · unfold TcpServer.newConnection
      simp only
      split <;> exact h
    · exact h
  | react l c e rest =>
    cases e <;> try exact h
    simp only [TcpServer.react, removeConnection]
    split <;> exact h
  | runFunctor l env f rest => cases f <;> exact h
  | workerTake t c ht => exact hset ht
  | workerTest t call c hw => exact hset (hlt (by simp [hw]))
  | workerStore t c hw => exact hset (hlt (by simp [hw]))
  | workerQueue t c call hw => exact hset (hlt (by simp [hw]))
  | workerDrop t c hw => exact hset (hlt (by simp [hw]))
  | _ => exact h

/-! ### What a retired server keeps -/

/-- Queues and workers, while the connections and the poller are as they were. -/
theorem Retired.of_sending (h : Retired cfg s) (hacc : s'.accepted = s.accepted)
    (hloop : s'.loopOf = s.loopOf) (hconn : s'.conn = s.conn) (hpoll : s'.poller 0 = s.poller 0)
    (hact : s'.active 0 = s.active 0) (hre : s'.reactions 0 = s.reactions 0)
    (hrem : ∀ f ∈ (s'.queue 0).unrun, f ≠ .removeConnectionInLoop f.conn)
    (hsend : ∀ c, s'.Sending cfg c → s.Sending cfg c)
    (hstore : ∀ c < s.accepted, s.loopOf c = 0 → s'.Storing cfg c → s.Storing cfg c) :
    Retired cfg s' where
  removal := hrem
  reaction := hre ▸ h.reaction
  active := hact ▸ h.active
  epoll := hpoll ▸ h.epoll
  closed c hc hl := by
    rw [hconn]
    rw [hacc] at hc
    rw [hloop] at hl
    exact h.closed c hc hl
  sending c hc hl hs := by
    rw [hacc] at hc
    rw [hloop] at hl
    obtain ⟨hd, hn⟩ := h.sending c hc hl (hsend c hs)
    rw [hconn]
    exact ⟨hd, fun hst => hn (hstore c hc hl hst)⟩

theorem Retired.setQueue (h : Retired cfg s) {q : TaskQueue Functor}
    (hq : l = 0 → ∀ f ∈ q.unrun, f ∈ (s.queue 0).unrun ∨
      (∀ c, f ≠ .removeConnectionInLoop c) ∧ ∀ c, f ≠ .sendInLoop c) :
    Retired cfg (s.setQueue l q) := by
  have hmem : ∀ f ∈ ((s.setQueue l q).queue 0).unrun, f ∈ (s.queue 0).unrun ∨
      (∀ c, f ≠ .removeConnectionInLoop c) ∧ ∀ c, f ≠ .sendInLoop c := by
    by_cases hl : l = 0
    · subst hl
      rw [queue_setQueue]
      exact hq rfl
    · rw [queue_setQueue_of_ne s q (Ne.symm hl)]
      exact fun f hf => .inl hf
  refine h.of_sending rfl rfl rfl rfl rfl rfl (fun f hf => ?_) (fun c hs => ?_) fun _ _ _ hst => hst
  · rcases hmem f hf with hf | hf
    · exact h.removal f hf
    · exact hf.1 _
  · refine hs.imp_left fun hm => ?_
    exact (hmem _ hm).resolve_right fun hn => hn.2 c rfl

theorem Retired.push (h : Retired cfg s) {f : Functor} (hr : ∀ c, f ≠ .removeConnectionInLoop c)
    (hs : ∀ c, f ≠ .sendInLoop c) : Retired cfg (s.push l f) := by
  refine h.setQueue fun hl g hg => ?_
  subst hl
  rcases TaskQueue.mem_unrun_push.mp hg with hg | rfl
  · exact .inl hg
  · exact .inr ⟨hr, hs⟩

/-- A queue with fewer tasks. -/
theorem Retired.shrink (h : Retired cfg s) {q : TaskQueue Functor}
    (hq : ∀ f ∈ q.unrun, f ∈ (s.queue l).unrun) : Retired cfg (s.setQueue l q) :=
  h.setQueue fun hl f hf => .inl (hl ▸ hq f hf)

theorem Retired.setReactions (h : Retired cfg s) {todo : List (ConnId × Event)}
    (ht : ∀ x ∈ todo, x.2 ≠ .closeCallback) : Retired cfg (s.setReactions 0 todo) := by
  have hself : (s.setReactions 0 todo).reactions 0 = todo := by simp [TcpServer.setReactions]
  exact { h with reaction := hself.symm ▸ ht }

/-- A member function of a connection that is not connected: it keeps the state, registers nothing and
does not close. -/
theorem Retired.onConn (h : Retired cfg s) {f : Io → Io}
    (hst : (f (s.io c)).conn.state = (s.conn c).state)
    (hep : ∀ fd x, (f (s.io c)).poller.epoll fd = some x → (s.io c).poller.epoll fd = some x)
    (htr : ∀ e ∈ (f (s.io c)).trace, e ≠ .closeCallback) : Retired cfg (s.onConn 0 c f) := by
  have hstate : ∀ c', ((s.setIo c (f (s.io c))).conn c').state = (s.conn c').state := by
    intro c'
    show (Function.update s.conn c (f (s.io c)).conn c').state = _
    by_cases hn : c' = c
    · subst hn
      rw [Function.update_self]
      exact hst
    · rw [Function.update_of_ne hn]
  have hpoll : ∀ fd x, ((s.setIo c (f (s.io c))).poller 0).epoll fd = some x →
      (s.poller 0).epoll fd = some x := by
    intro fd x hx
    by_cases hl : 0 = s.loopOf c
    · rw [hl, setIo_poller_self] at hx
      exact hl ▸ hep fd x hx
    · rwa [setIo_poller_of_ne hl] at hx
  have h1 : Retired cfg (s.setIo c (f (s.io c))) := by
    refine { h with
      epoll := fun fd x hx => h.epoll fd x (hpoll fd x hx)
      closed := fun c' hc' hl => ?_
      sending := fun c' hc' hl hs => ?_ }
    · rw [hstate]
      exact h.closed c' hc' hl
    · rw [hstate]
      exact h.sending c' hc' hl hs
  refine h1.setReactions fun x hx => ?_
  obtain ⟨e, he, rfl⟩ := List.mem_map.mp hx
  exact htr e he

/-- User code does nothing to a connection that is not connected. -/
theorem Retired.user (h : Retired cfg s) (hc : c < s.accepted) (hl : s.loopOf c = 0)
    (acts : List UserAct) : Retired cfg (s.onConn 0 c (Io.user acts)) := by
  obtain ⟨b, hb⟩ := Io.user_of_ne (s.io c) acts (h.closed c hc hl)
  refine h.onConn ?_ (fun fd x hx => ?_) fun e he => ?_
  · rw [hb]
    rfl
  · rw [hb] at hx
    exact hx
  · rw [hb] at he
    cases he

theorem Retired.connectDestroyed (h : Retired cfg s) (hc : c < s.accepted) (hl : s.loopOf c = 0)
    (acts : List UserAct) : Retired cfg (s.connectDestroyed 0 c acts) := by
  have hne : (s.io c).conn.state ≠ .kConnected := h.closed c hc hl
  have he : (s.io c).connectDestroyed acts = (s.io c).onChannel Channel.remove := by
    unfold Io.connectDestroyed
    simp only [if_neg hne]
  have h1 : Retired cfg (s.onConn 0 c (Io.connectDestroyed acts)) := by
    refine h.onConn ?_ (fun fd x hx => ?_) fun e hm => ?_
    · rw [he]
      rfl
    · rw [he] at hx
      exact (EPollerPoller.epoll_removeChannel hx).1
    · rw [he] at hm
      cases hm
  exact { h1 with }

/-- Every functor that may still wait in the base loop. -/
theorem Retired.callFunctor (h : Retired cfg s) (hp : Placed cfg F s) {f : Functor}
    (hf : f ∈ (s.queue 0).unrun) (env : FunctorEnv) : Retired cfg (s.callFunctor 0 env f) := by
  obtain ⟨hc, hl⟩ := hp.queued 0 f hf
  cases f with
  | connectEstablished c => exact absurd hf (hp.inline c)
  | connectDestroyed c => exact h.connectDestroyed hc hl env.acts
  | removeConnectionInLoop c => exact absurd rfl (h.removal _ hf)
  | writeComplete c => exact h.user hc hl env.acts
  | highWaterMark c size => exact h.user hc hl env.acts
  | sendInLoop c =>
    have hd : (s.io c).conn.state = .kDisconnected := (h.sending c hc hl (.inl hf)).1
    have he : (s.io c).sendInLoop env.message env.send = (s.io c).emit (.sendInLoop env.message) :=
      if_pos hd
    refine h.onConn ?_ (fun fd x hx => ?_) fun e hm => ?_
    · rw [he]
      rfl
    · rw [he] at hx
      exact hx
    · rw [he] at hm
      obtain rfl := List.mem_singleton.mp hm
      simp
  | shutdownInLoop c =>
    refine h.onConn (congrArg TcpConnection.state (Io.shutdownInLoop_conn _)) (fun fd x hx => ?_)
      fun e hm => ?_
    · unfold Io.shutdownInLoop at hx
      split at hx <;> exact hx
    · unfold Io.shutdownInLoop at hm
      split at hm
      · cases hm
      · obtain rfl := List.mem_singleton.mp hm
        simp

/-! ### Other threads -/

theorem storing_setWorker {t : ℕ} {w : Worker} (h : (s.setWorker t w).Storing cfg c) :
    s.Storing cfg c ∨ w = .storing c := by
  obtain ⟨t', ht', hw⟩ := h
  by_cases hn : t' = t
  · subst hn
    rw [show (s.setWorker t' w).worker t' = w from Function.update_self ..] at hw
    exact .inr hw
  · rw [show (s.setWorker t w).worker t' = s.worker t' from Function.update_of_ne hn ..] at hw
    exact .inl ⟨t', ht', hw⟩

theorem sending_setWorker {t : ℕ} {w : Worker} (h : (s.setWorker t w).Sending cfg c) :
    s.Sending cfg c ∨ w = .queueing c .send := by
  rcases h with h | ⟨t', ht', hw⟩
  · exact .inl (.inl h)
  by_cases hn : t' = t
  · subst hn
    rw [show (s.setWorker t' w).worker t' = w from Function.update_self ..] at hw
    exact .inr hw
  · rw [show (s.setWorker t w).worker t' = s.worker t' from Function.update_of_ne hn ..] at hw
    exact .inl (.inr ⟨t', ht', hw⟩)

/-- A thread that goes on without a call in its hand. -/
theorem Retired.setWorker (h : Retired cfg s) {t : ℕ} {w : Worker}
    (hw : ∀ c < s.accepted, s.loopOf c = 0 → w ≠ .storing c ∧ w ≠ .queueing c .send) :
    Retired cfg (s.setWorker t w) := by
  refine { h with sending := fun c hc hl hs => ?_ }
  obtain ⟨hd, hn⟩ := h.sending c hc hl ((sending_setWorker hs).resolve_right (hw c hc hl).2)
  exact ⟨hd, fun hst => hn ((storing_setWorker hst).resolve_right (hw c hc hl).1)⟩

/-- `send` and `shutdown` go no further than their test. -/
theorem Retired.workerTest (h : Retired cfg s) {t : ℕ} (call : Call) :
    Retired cfg (s.setWorker t (s.tested c call)) := by
  refine h.setWorker fun c' hc' hl' => ?_
  unfold tested
  by_cases hn : c' = c
  · subst hn
    rw [if_neg (h.closed c' hc' hl')]
    simp
  · split
    · cases call <;> simp [Ne.symm hn]
    · simp

/-- The thread has stored `kDisconnecting`; no `sendInLoop` of this connection waits. -/
theorem Retired.workerStore (h : Retired cfg s) {t : ℕ} (ht : t < cfg.workers)
    (hw : s.worker t = .storing c) :
    Retired cfg ((s.setState c .kDisconnecting).setWorker t (.queueing c .shutdown)) := by
  have hconn : ∀ c' ≠ c, (s.setState c .kDisconnecting).conn c' = s.conn c' := fun c' hn =>
    Function.update_of_ne hn ..
  have hself : ((s.setState c .kDisconnecting).conn c).state = .kDisconnecting := by
    simp [TcpServer.setState]
  refine { h with closed := fun c' hc' hl => ?_, sending := fun c' hc' hl hs => ?_ }
  · show ((s.setState c .kDisconnecting).conn c').state ≠ .kConnected
    by_cases hn : c' = c
    · rw [hn, hself]
      simp
    · rw [hconn c' hn]
      exact h.closed c' hc' hl
  · have hs' : s.Sending cfg c' := by
      rcases sending_setWorker hs with hs | hs
      · exact hs
      · cases hs
    obtain ⟨hd, hnot⟩ := h.sending c' hc' hl hs'
    have hn : c' ≠ c := by
      rintro rfl
      exact hnot ⟨t, ht, hw⟩
    refine ⟨?_, fun hst => hnot ?_⟩
    · show ((s.setState c .kDisconnecting).conn c').state = .kDisconnected
      rw [hconn c' hn]
      exact hd
    · rcases storing_setWorker hst with hst | hst
      · exact hst
      · cases hst

theorem Retired.workerQueue (h : Retired cfg s) {t : ℕ} (ht : t < cfg.workers) {call : Call}
    (hw : s.worker t = .queueing c call) :
    Retired cfg ((s.push (s.loopOf c) (call.functor c)).setWorker t (.holding c)) := by
  cases call with
  | shutdown =>
    exact (h.push (f := .shutdownInLoop c) (by simp) (by simp)).setWorker (by simp)
  | send =>
    refine h.of_sending rfl rfl rfl rfl rfl rfl (fun f hf => ?_) (fun c' hs => ?_)
      fun c' _ _ hst => ?_
    · have hf : f ∈ ((s.push (s.loopOf c) (Call.functor .send c)).queue 0).unrun := hf
      rcases mem_unrun_push hf with hf | rfl
      · exact h.removal f hf
      · simp [Call.functor]
    · rcases sending_setWorker hs with hs | hs
      · rcases hs with hm | hs
        · have hm : .sendInLoop c' ∈ ((s.push (s.loopOf c) (Call.functor .send c)).queue 0).unrun := hm
          rcases mem_unrun_push hm with hm | he
          · exact .inl hm
          · obtain rfl := Functor.sendInLoop.inj he
            exact .inr ⟨t, ht, hw⟩
        · exact .inr hs
      · cases hs
    · rcases storing_setWorker hst with hst | hst
      · exact hst
      · cases hst

/-- **A retired server stays retired**, whatever the base loop and the other threads do. -/
theorem Retired.step (h : Retired cfg s) (hp : Placed cfg F s)
    (hidle : ∀ t, cfg.workers ≤ t → s.worker t = .outside) {lab : Label}
    (hl : ∀ l, lab.loop = some l → l = 0) (hst : TcpServer.step cfg s lab = some s') :
    Retired cfg s' := by
  have hlt : ∀ {t}, s.worker t ≠ .outside → t < cfg.workers := fun hne =>
    Nat.not_le.mp fun ht => hne (hidle _ ht)
  cases move_of_step hst with
  | poll l reports =>
    obtain rfl := hl l rfl
    obtain ⟨r, hr⟩ := fillActiveChannels_eq s 0 reports
    have h1 : Retired cfg (s.reported r) := { h with }
    rw [hr]
    refine { h1 with active := fun ptr hm => ?_ }
    simp only [TcpServer.setPhase, setActive_active] at hm
    obtain ⟨x, -, hx⟩ := List.mem_filterMap.mp hm
    obtain ⟨y, hy, rfl⟩ := Option.map_eq_some_iff.mp hx
    exact h.epoll x.1 y hy
  | dispatch l env ptr rest s' _ _ ha hs =>
    obtain rfl := hl l rfl
    have hrest := setActive_active s 0 rest
    have h1 : Retired cfg (s.setActive 0 rest) := { h with
      active := fun ptr' hm => h.active ptr' (ha ▸ List.mem_cons_of_mem _ (hrest ▸ hm)) }
    have hw := h.active ptr (ha ▸ List.mem_cons_self)
    subst hw
    exact Option.some.inj hs ▸ h1
  | react l c e rest hre =>
    obtain rfl := hl l rfl
    have h1 : Retired cfg (s.setReactions 0 rest) := h.setReactions fun y hy =>
      h.reaction y (hre ▸ List.mem_cons_of_mem _ hy)
    have hne : e ≠ .closeCallback := h.reaction (c, e) (hre ▸ List.mem_cons_self)
    cases e with
    | closeCallback => exact absurd rfl hne
    | writeComplete => exact h1.push (f := .writeComplete c) (by simp) (by simp)
    | highWaterMark size => exact h1.push (f := .highWaterMark c size) (by simp) (by simp)
    | _ => exact h1
  | doPendingFunctors l =>
    have h1 : Retired cfg (s.setQueue l (s.queue l).swap) :=
      h.shrink fun f hf => TaskQueue.unrun_swap_subset _ hf
    exact { h1 with }
  | runFunctor l env f rest _ _ hr =>
    obtain rfl := hl l rfl
    have h1 := h.callFunctor hp (TaskQueue.mem_unrun_of_rest hr) env
    have h2 := h1.shrink (l := 0) fun g hg => TaskQueue.unrun_advance_subset _ hg
    exact { h2 with }
  | functorReturn l => exact { h with }
  | endFunctors l =>
    have h1 : Retired cfg (s.setQueue l (s.queue l).finish) :=
      h.shrink fun f hf => TaskQueue.unrun_finish_subset _ hf
    exact { h1 with }
  | userAct l c a _ _ hc hloop =>
    obtain rfl := hl l rfl
    exact h.user hc hloop [a]
  | keep c => exact { h with }
  | drop c => exact { h with }
  | workerTake t c => exact h.setWorker (by simp)
  | workerTest t call c => exact h.workerTest call
  | workerStore t c hw => exact h.workerStore (hlt (by simp [hw])) hw
  | workerQueue t c call hw => exact h.workerQueue (hlt (by simp [hw])) hw
  | workerDrop t c => exact h.setWorker (by simp)

/-! ### The base loop while another thread takes a step -/

structure Aside (s s' : TcpServer) : Prop where
  accepted : s'.accepted = s.accepted
  active : s'.active 0 = s.active 0
  reactions : s'.reactions 0 = s.reactions 0
  loop : ∀ c < s.accepted, s'.loopOf c = s.loopOf c
  conn : ∀ c < s.accepted, s.loopOf c = 0 → SameConn (s.conn c) (s'.conn c)

theorem Placed.aside (h : Placed cfg F s) {lab : Label} (hl : lab.loop ≠ some 0)
    (hst : TcpServer.step cfg s lab = some s') : Aside s s' := by
  have hext := extends_of_step hst
  have hconn : ∀ c < s.accepted, s.loopOf c = 0 → SameConn (s.conn c) (s'.conn c) := by
    intro c hc h0
    refine (untouched_of_step hst).conn c hc fun hm => hl ?_
    rw [h.owned hst hm]
    exact congrArg some ((hext.loop c hc).trans h0)
  suffices hrest : s'.accepted = s.accepted ∧ s'.active 0 = s.active 0 ∧
      s'.reactions 0 = s.reactions 0 from ⟨hrest.1, hrest.2.1, hrest.2.2, hext.loop, hconn⟩
  cases move_of_step hst with
  | poll l reports =>
    have hn : (0 : LoopId) ≠ l := fun he => hl (congrArg some he.symm)
    obtain ⟨r, hr⟩ := fillActiveChannels_eq s l reports
    rw [hr]
    exact ⟨rfl, Function.update_of_ne hn .., rfl⟩
  | dispatch l env ptr rest s' _ _ ha hs =>
    have hn : (0 : LoopId) ≠ l := fun he => hl (congrArg some he.symm)
    have hact : (s.setActive l rest).active 0 = s.active 0 := Function.update_of_ne hn ..
    rcases handleEvent_cases hs with rfl | ⟨rfl, -⟩ | ⟨c, -, -, -, rfl⟩
    · exact ⟨rfl, hact, rfl⟩
    · exact absurd (h.active l .accept (ha ▸ List.mem_cons_self)).symm hn
    · exact ⟨rfl, hact, Function.update_of_ne hn ..⟩
  | react l c e rest =>
    have hn : (0 : LoopId) ≠ l := fun he => hl (congrArg some he.symm)
    have hre : (s.setReactions l rest).reactions 0 = s.reactions 0 := Function.update_of_ne hn ..
    cases e <;> try exact ⟨rfl, rfl, hre⟩
    simp only [TcpServer.react, removeConnection, if_neg hn.symm]
    exact ⟨rfl, rfl, hre⟩
  | runFunctor l env f rest =>
    have hn : (0 : LoopId) ≠ l := fun he => hl (congrArg some he.symm)
    cases f with
    | removeConnectionInLoop c => exact ⟨rfl, rfl, rfl⟩
    | _ => exact ⟨rfl, rfl, Function.update_of_ne hn ..⟩
  | userAct l c a =>
    have hn : (0 : LoopId) ≠ l := fun he => hl (congrArg some he.symm)
    exact ⟨rfl, rfl, Function.update_of_ne hn ..⟩
  | _ => exact ⟨rfl, rfl, rfl⟩

end TcpServer

/-! ### The destructor -/

namespace ServerLife

section Defs

variable (cfg : Config) (s : ServerLife)

/-- The base loop may still dispatch to the connection, or the user may still call it. -/
def InUse (c : ConnId) : Prop :=
  (s.server.conn c).channel.index = .kAdded ∨ (s.server.conn c).state = .kConnected

instance (c : ConnId) : Decidable (s.InUse c) := inferInstanceAs (Decidable (_ ∨ _))

/-- The destructor begins when the base loop has no `closeCallback` and no `Acceptor::listen` to call, no
channel left to dispatch, and all its connections in use are in `connections`; it ends when no
`removeConnectionInLoop` waits in the base loop, and no `sendInLoop` that would do something. -/
def CleanEnd : Label → Prop
  | .destroy _ =>
    s.listenPending = false ∧ (∀ x ∈ s.server.reactions 0, x.2 ≠ .closeCallback) ∧
      (∀ ptr ∈ s.server.active 0, ptr = .wakeup 0) ∧
      ∀ c < s.server.accepted, s.server.loopOf c = 0 → s.InUse c →
        s.server.connections (s.server.nameOf c) = some c
  | .finish =>
    (∀ f ∈ (s.server.queue 0).unrun, f ≠ .removeConnectionInLoop f.conn) ∧
      s.server.SendsNothing cfg
  | _ => True

instance (lab : Label) : Decidable (s.CleanEnd cfg lab) :=
  match lab with
  | .destroy _ => inferInstanceAs (Decidable (_ ∧ _ ∧ _ ∧ _))
  | .finish => inferInstanceAs (Decidable (_ ∧ _))
  | .start _ | .startLoop | .listen | .runListen | .run _ | .call .. | .endLoop _ | .closeNext _
  | .closed | .join => .isTrue trivial

/-- The base loop during the destructor; `todo` are the connections that it has still to take. -/
structure Leaving (todo : List ConnId) : Prop where
  listen : s.listenPending = false
  after : ∀ x ∈ s.after, x.2 ≠ .closeCallback
  reaction : ∀ x ∈ s.server.reactions 0, x.2 ≠ .closeCallback
  active : ∀ ptr ∈ s.server.active 0, ptr = .wakeup 0
  inUse : ∀ c < s.server.accepted, s.server.loopOf c = 0 → s.InUse c → c ∈ todo

/-- What the destructor has achieved at each stage. -/
structure Teardown : Prop where
  closing : ∀ todo, s.stage = .closing todo → s.Leaving todo
  joining : ∀ l, s.stage = .joining l → s.Leaving []
  destroyed : s.stage = .destroyed → s.server.Retired cfg ∧ s.listenPending = false

end Defs

variable {cfg : Config} {s s' : ServerLife} {todo : List ConnId}

theorem Leaving.aside (h : s.Leaving todo) {server : TcpServer} (ha : s.server.Aside server) :
    (s.setServer server).Leaving todo where
  listen := h.listen
  after := h.after
  reaction := ha.reactions.symm ▸ h.reaction
  active := ha.active.symm ▸ h.active
  inUse c hc hl hu := by
    replace hc : c < s.server.accepted := ha.accepted ▸ hc
    replace hl : s.server.loopOf c = 0 := (ha.loop c hc).symm.trans hl
    refine h.inUse c hc hl ?_
    change (server.conn c).channel.index = .kAdded ∨ (server.conn c).state = .kConnected at hu
    rcases ha.conn c hc hl with he | he
    · rwa [he] at hu
    · rw [he] at hu
      exact .inl (hu.resolve_right (by simp))

/-- A call of user code on a connection of the base loop, in the middle of the destructor. -/
theorem Leaving.act (h : s.Leaving todo) {c : ConnId} (hc : c < s.server.accepted)
    (hl : s.server.loopOf c = 0) (a : UserAct) :
    ({ s with server := s.server.onConn 0 c fun io => io.act a } : ServerLife).Leaving todo := by
  set io := (s.server.io c).act a with hio
  have hself : (s.server.onConn 0 c fun io => io.act a).conn c = io.conn :=
    Function.update_self ..
  have hne : ∀ c' ≠ c, (s.server.onConn 0 c fun io => io.act a).conn c' = s.server.conn c' :=
    fun c' hn => Function.update_of_ne hn ..
  refine { h with reaction := fun x hx => ?_, inUse := fun c' hc' hl' hu => ?_ }
  · obtain ⟨evs, ht, hK⟩ := (Io.Frame.of_steps
      ((Io.Steps.refl (K := fun e => e.IsCallback = false) (s.server.io c)).act
        (fun _ he => he) a)).trace
    simp only [TcpServer.onConn, TcpServer.setReactions, Function.update_self] at hx
    obtain ⟨e, he, rfl⟩ := List.mem_map.mp hx
    rw [ht] at he
    rintro rfl
    exact absurd (hK _ he) (by simp [Event.IsCallback])
  · by_cases hn : c' = c
    · subst hn
      by_cases hst : (s.server.conn c').state = .kConnected
      · exact h.inUse c' hc hl (.inr hst)
      · -- nothing but the input buffer has changed
        obtain ⟨b, hb⟩ := Io.user_of_ne (s.server.io c') [a] hst
        have hconn : io.conn = ((s.server.io c').setInput b).conn := congrArg Io.conn hb
        refine h.inUse c' hc hl ?_
        change ((s.server.onConn 0 c' fun io => io.act a).conn c').channel.index = .kAdded ∨
          ((s.server.onConn 0 c' fun io => io.act a).conn c').state = .kConnected at hu
        rw [hself, hconn] at hu
        exact hu
    · refine h.inUse c' hc' hl' ?_
      change ((s.server.onConn 0 c fun io => io.act a).conn c').channel.index = .kAdded ∨
        ((s.server.onConn 0 c fun io => io.act a).conn c').state = .kConnected at hu
      rwa [hne c' hn] at hu

/-- The functors that a callback has queued. -/
theorem Leaving.react (h : s.Leaving todo) {c : ConnId} {e : Event} {rest : List (ConnId × Event)}
    (hre : s.server.reactions 0 = (c, e) :: rest) :
    (s.setServer ((s.server.setReactions 0 rest).react 0 c e)).Leaving todo := by
  have hself : (s.server.setReactions 0 rest).reactions 0 = rest := by
    simp [TcpServer.setReactions]
  have hrest : ∀ x ∈ (s.server.setReactions 0 rest).reactions 0, x.2 ≠ .closeCallback := by
    rw [hself]
    exact fun x hx => h.reaction x (hre ▸ List.mem_cons_of_mem _ hx)
  have hne : e ≠ .closeCallback := h.reaction (c, e) (hre ▸ List.mem_cons_self)
  cases e with
  | closeCallback => exact absurd rfl hne
  | _ => exact { h with reaction := hrest, inUse := h.inUse }

/-- `connectDestroyed` takes a connection of the base loop out of use. -/
theorem Leaving.closeNext {c : ConnId} (h : s.Leaving (c :: todo)) (acts : List UserAct) :
    ({ s with server := s.server.closeConnection c acts, stage := .closing todo } :
      ServerLife).Leaving todo := by
  have hacc := accepted_closeConnection s.server c acts
  by_cases h0 : s.server.loopOf c = 0
  · have he : s.server.closeConnection c acts = ({ s.server with
        connections := Function.update s.server.connections (s.server.nameOf c) none } :
          TcpServer).connectDestroyed 0 c acts := by
      unfold TcpServer.closeConnection
      simp only [if_pos h0]
    obtain ⟨hidx, hst, evs, ht, hq⟩ := Io.connectDestroyed_spec acts (s.server.io c)
    have hself : (s.server.closeConnection c acts).conn c =
        ((s.server.io c).connectDestroyed acts).conn := by
      rw [he]
      exact Function.update_self ..
    have hne : ∀ c' ≠ c, (s.server.closeConnection c acts).conn c' = s.server.conn c' := by
      intro c' hn
      rw [he]
      exact Function.update_of_ne hn ..
    refine ⟨h.listen, h.after, fun x hx => ?_, ?_, fun c' hc' hl' hu => ?_⟩
    · simp only [he, TcpServer.connectDestroyed, TcpServer.onConn, TcpServer.setReactions,
        Function.update_self] at hx
      obtain ⟨e, hm, rfl⟩ := List.mem_map.mp hx
      rintro rfl
      have hr := hq .closeCallback (by
        change Event.closeCallback ∈ ((s.server.io c).connectDestroyed acts).trace at hm
        rwa [ht] at hm)
      cases hr
    · show ∀ ptr ∈ (s.server.closeConnection c acts).active 0, ptr = .wakeup 0
      rw [he]
      exact h.active
    · change ((s.server.closeConnection c acts).conn c').channel.index = .kAdded ∨
        ((s.server.closeConnection c acts).conn c').state = .kConnected at hu
      change c' < (s.server.closeConnection c acts).accepted at hc'
      change (s.server.closeConnection c acts).loopOf c' = 0 at hl'
      rw [hacc] at hc'
      rw [he] at hl'
      by_cases hn : c' = c
      · subst hn
        rw [hself, hidx] at hu
        exact absurd (hu.resolve_left (by simp)) hst
      · rw [hne c' hn] at hu
        exact (List.mem_cons.mp (h.inUse c' hc' hl' hu)).resolve_left hn
  · have he : s.server.closeConnection c acts = ({ s.server with
        connections := Function.update s.server.connections (s.server.nameOf c) none } :
          TcpServer).push (s.server.loopOf c) (.connectDestroyed c) := by
      unfold TcpServer.closeConnection
      simp only [if_neg h0]
    rw [he]
    refine { h with inUse := fun c' hc' hl' hu => ?_ }
    refine (List.mem_cons.mp (h.inUse c' hc' hl' hu)).resolve_left ?_
    rintro rfl
    exact h0 hl'

/-- After the acceptor nothing is registered in the base loop but its own channel. -/
theorem Leaving.finish (h : s.Leaving []) (hi : s.Inv cfg)
    (hrem : ∀ f ∈ (s.server.queue 0).unrun, f ≠ .removeConnectionInLoop f.conn)
    (hsend : s.server.SendsNothing cfg) :
    (s.destroyAcceptor.server.setReactions 0 s.after).Retired cfg := by
  have h1 := hi.destroyAcceptor
  have h2 : s.destroyAcceptor.server.Retired cfg := by
    refine ⟨hrem, h.reaction, h.active, fun fd x hx => ?_, fun c hc hl hst => ?_, hsend⟩
    · obtain ⟨m, ptr⟩ := x
      obtain ⟨hhome, hunder⟩ := h1.placed.entry 0 fd m ptr hx
      cases ptr with
      | wakeup l => exact congrArg ChannelPtr.wakeup hhome
      | accept =>
        have hidx : s.destroyAcceptor.acceptChannel.index = .kNew := rfl
        exact absurd (hidx.symm.trans hunder.2) (by simp)
      | conn c => exact (List.not_mem_nil (h.inUse c hhome.1 hhome.2 (.inl hunder.2))).elim
    · exact (List.not_mem_nil (h.inUse c hc hl (.inr hst))).elim
  exact h2.setReactions h.after

/-! ### Whole runs -/

theorem Teardown.run (h : s.Teardown cfg) (hi : s.Inv cfg) (ho : s.Ordered)
    (hidle : ∀ t, cfg.workers ≤ t → s.server.worker t = .outside) {lab : TcpServer.Label}
    (hr : s.Runs lab) {server : TcpServer} (hs : TcpServer.step cfg s.server lab = some server) :
    (s.setServer server).Teardown cfg := by
  refine ⟨fun todo hst => ?_, fun l hst => ?_, fun hst => ?_⟩
  · replace hst : s.stage = .closing todo := hst
    have hleave := h.closing todo hst
    by_cases hl : lab.loop = some 0
    · -- the thread of the base loop is in the destructor, perhaps in a callback
      have hcb : lab.inCallback = true := by
        unfold Runs at hr
        rw [hl] at hr
        rcases hr with hr | ⟨-, hr⟩
        · simp [BaseFree, hst] at hr
        · exact hr
      cases TcpServer.move_of_step hs with
      | react l c e rest hre =>
        obtain rfl : l = 0 := Option.some.inj hl
        exact hleave.react hre
      | userAct l c a _ _ hc hloop =>
        obtain rfl : l = 0 := Option.some.inj hl
        exact { hleave.act hc hloop a with inUse := (hleave.act hc hloop a).inUse }
      | _ => cases hcb
    · exact hleave.aside (hi.placed.aside hl hs)
  · replace hst : s.stage = .joining l := hst
    have hl : lab.loop ≠ some 0 := by
      intro hl
      unfold Runs at hr
      rw [hl] at hr
      simp [BaseFree, Closing, hst] at hr
    exact (h.joining l hst).aside (hi.placed.aside hl hs)
  · obtain ⟨hret, hlist⟩ := h.destroyed hst
    exact ⟨hret.step hi.placed hidle (hr.base (ho.destroyed hst)) hs, hlist⟩

theorem Teardown.endLoop (h : s.Teardown cfg) (ho : s.Ordered) {l : LoopId} (h0 : 0 < l)
    (hl : l ≤ s.threads) (he : s.ended l = false) : (s.endLoop l).Teardown cfg := by
  refine ⟨fun todo hst => ?_, fun l' hst => ?_, fun hst => ?_⟩
  · have hleave := h.closing todo hst
    exact { hleave with inUse := hleave.inUse }
  · have hleave := h.joining l' hst
    exact { hleave with inUse := hleave.inUse }
  · -- all loops of the pool are gone
    exact absurd (he.symm.trans (ho.destroyed hst l h0 hl)) (by simp)

theorem Teardown.step (h : s.Teardown cfg) (hi : s.Inv cfg) (ho : s.Ordered)
    (hidle : ∀ t, cfg.workers ≤ t → s.server.worker t = .outside) {lab : Label}
    (hclean : s.CleanEnd cfg lab) (hst : step cfg s lab = some s') : s'.Teardown cfg := by
  cases move_of_step hst with
  | start caller => exact ⟨by simp, by simp, by simp⟩
  | startLoop caller hs =>
    have hs' : (s.startLoop cfg).stage = .starting caller := hs
    exact ⟨by simp [hs'], by simp [hs'], by simp [hs']⟩
  | listen => exact ⟨by simp, by simp, by simp⟩
  | queueListen caller => exact ⟨by simp, by simp, by simp⟩
  | runListen hl hb =>
    refine ⟨fun todo hs => ?_, fun l hs => ?_, fun hs => ?_⟩
    · simp [BaseFree, show s.stage = .closing todo from hs] at hb
    · simp [BaseFree, show s.stage = .joining l from hs] at hb
    · exact absurd (hl.symm.trans (h.destroyed hs).2) (by simp)
  | run lab server hr _ hs => exact h.run hi ho hidle hr hs
  | call c a hb _ _ hc hl =>
    refine ⟨fun todo hs => (h.closing todo hs).act hc hl a, fun l hs => ?_, fun hs => ?_⟩
    · simp [BaseFree, Closing, show s.stage = .joining l from hs] at hb
    · obtain ⟨hret, hrest⟩ := h.destroyed hs
      exact ⟨hret.user hc hl [a], hrest⟩
  | endLoop l h0 hl he => exact h.endLoop ho h0 hl he
  | destroy order _ hperm =>
    obtain ⟨hlist, hre, hact, huse⟩ := hclean
    refine ⟨fun todo ht => ?_, by simp, by simp⟩
    obtain rfl := Stage.closing.inj ht
    refine ⟨hlist, hre, by simp [TcpServer.setReactions], hact, fun c hc hl hu => ?_⟩
    have hm : c ∈ s.server.entries :=
      List.mem_filter.mpr ⟨List.mem_range.mpr hc, decide_eq_true (huse c hc hl hu)⟩
    exact hperm.mem_iff.mpr hm
  | closeNext c todo acts hs =>
    refine ⟨fun todo' ht => ?_, by simp, by simp⟩
    obtain rfl := Stage.closing.inj ht
    exact (h.closing _ hs).closeNext acts
  | closed hs =>
    have hleave := h.closing [] hs
    exact ⟨by simp, fun l _ => { hleave with inUse := hleave.inUse }, by simp⟩
  | join l hs =>
    have hleave := h.joining l hs
    exact ⟨by simp, fun k _ => { hleave with inUse := hleave.inUse }, by simp⟩
  | finish l hs =>
    have hleave := h.joining l hs
    exact ⟨by simp, by simp, fun _ => ⟨hleave.finish hi hclean.1 hclean.2, hleave.listen⟩⟩

theorem idle_of_step (h : ∀ t, cfg.workers ≤ t → s.server.worker t = .outside) {lab : Label}
    (hst : step cfg s lab = some s') : ∀ t, cfg.workers ≤ t → s'.server.worker t = .outside := by
  cases move_of_step hst with
  | run lab server _ _ hs => exact TcpServer.idle_of_step h hs
  | closeNext c todo acts =>
    show ∀ t, cfg.workers ≤ t → (s.server.closeConnection c acts).worker t = .outside
    unfold TcpServer.closeConnection
    simp only
    split <;> exact h
  | _ => exact h

theorem teardown_of_reach (h : (sys cfg).Reach (CleanEnd cfg) s) : s.Teardown cfg := by
  have h1 : (s.Inv cfg ∧ s.Ordered) ∧ (∀ t, cfg.workers ≤ t → s.server.worker t = .outside) ∧
      s.Teardown cfg := by
    refine h.invariant (I := fun s => (s.Inv cfg ∧ s.Ordered) ∧
      (∀ t, cfg.workers ≤ t → s.server.worker t = .outside) ∧ s.Teardown cfg) ?_ ?_
    · rintro _ rfl
      exact ⟨⟨.construct, ordered_of_reach (C := CleanEnd cfg) (.init rfl)⟩, fun _ _ => rfl,
        ⟨by simp [construct], by simp [construct], by simp [construct]⟩⟩
    · rintro s lab s' ⟨⟨hi, ho⟩, hidle, ht⟩ hc hst
      exact ⟨⟨hi.step hst, ho.step hst⟩, idle_of_step hidle hst, ht.step hi ho hidle hc hst⟩
  exact h1.2.2

/-- A base loop that has nothing left of the server gets nothing of it into its hands. -/
theorem spares_of_retired {s : TcpServer} (h : s.Retired cfg) (lab : TcpServer.Label) : s.Spares cfg lab := by
  have hactive : ∀ c, .conn c ∉ s.active 0 := fun c hm => absurd (h.active _ hm) (by simp)
  cases lab with
  | poll l reports =>
    rintro c - ⟨x, -, he⟩
    obtain ⟨y, hy, hc⟩ := Option.map_eq_some_iff.mp he
    exact absurd ((h.epoll _ y hy).symm.trans hc) (by simp)
  | dispatch l env =>
    intro ptr hm
    rw [h.active ptr (List.mem_of_mem_head? hm)]
    trivial
  | doPendingFunctors l => exact fun f hf => h.removal f (TaskQueue.mem_unrun.mpr (.inr hf))
  | drop c => exact fun c' _ hm => absurd hm (hactive c')
  | workerDrop t => exact fun c _ hm => absurd hm (hactive c)
  | _ => exact trivial

/-- **After such a destructor every step is clean.** -/
theorem clean_of_cleanEnd (h : (sys cfg).Reach (CleanEnd cfg) s) : (sys cfg).Reach (Clean cfg) s := by
  induction h with
  | init hs => exact .init hs
  | @step s s' lab hr hc hst ih =>
    have ht := teardown_of_reach hr
    refine .step ih ?_ hst
    cases move_of_step hst with
    | run lab => exact fun hd => spares_of_retired (ht.destroyed hd).1 lab
    | runListen hl => exact fun hd => absurd (hl.symm.trans (ht.destroyed hd).2) (by simp)
    | finish l hs =>
      have hleave := ht.joining l hs
      refine ⟨fun x hx => ?_, fun f hf => hc.1 f (TaskQueue.mem_unrun.mpr (.inl hf)), fun c _ hm => ?_⟩
      · have hself : (s.server.setReactions 0 s.after).reactions 0 = s.after := by
          simp [TcpServer.setReactions]
        rw [hself] at hx
        exact hleave.after x hx
      · exact absurd (hleave.active _ hm) (by simp)
    | _ => exact trivial

/-- The connection is open when the server is destroyed. -/
example : ((sys TcpServer.config).execIf (CleanEnd TcpServer.config) (construct TcpServer.config)
    (opened ++ destroying)).any (fun s => decide (s.stage = .destroyed)) = true := by decide +kernel

end ServerLife

end Mymuduo
