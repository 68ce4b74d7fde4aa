import Mathlib.Data.List.Nodup
import Mymuduo.Lifetime
import Mymuduo.ServerPlaces

/-!
# Mymuduo.ServerSound — the invariants of a server together

In the runs in which the loop threads call the functions of the connections, `Own`, `Reg` and `Placed` hold
at every moment, and with them `Tidy`: a connection is active at most once, and everything that is queued
for a connection before its `connectEstablished` has run is that functor.
-/

namespace Mymuduo

open Lib

namespace TcpServer

variable {cfg : Config} {s s' : TcpServer} {l : LoopId} {c : ConnId} {lab : Label}

/-! ### Where connections stand -/

/-- No connection is active twice, and only `connectEstablished` is queued for a connection that has not
been established. -/
structure Tidy (s : TcpServer) : Prop where
  active : ∀ l c, (s.active l).count (.conn c) ≤ 1
  queued : ∀ l, ∀ f ∈ (s.queue l).unrun, (∀ c, f ≠ .connectEstablished c) →
    s.established f.conn = true

namespace Tidy

theorem setQueue (h : Tidy s) {q : TaskQueue Functor}
    (hq : ∀ f ∈ q.unrun, (∀ c, f ≠ .connectEstablished c) → s.established f.conn = true) :
    Tidy (s.setQueue l q) where
  active := h.active
  queued := forall_setQueue
    (P := fun _ q => ∀ f ∈ q.unrun, (∀ c, f ≠ .connectEstablished c) → s.established f.conn = true)
    hq h.queued

/-- A queue with fewer tasks. -/
theorem shrink (h : Tidy s) {q : TaskQueue Functor} (hq : ∀ f ∈ q.unrun, f ∈ (s.queue l).unrun) :
    Tidy (s.setQueue l q) :=
  h.setQueue fun f hf => h.queued l f (hq f hf)

theorem push (h : Tidy s) {f : Functor}
    (he : (∀ c, f ≠ .connectEstablished c) → s.established f.conn = true) : Tidy (s.push l f) :=
  h.setQueue fun g hg hn => (TaskQueue.mem_unrun_push.mp hg).elim (fun hg => h.queued l g hg hn)
    fun hgf => hgf ▸ he (hgf ▸ hn)

theorem setActive (h : Tidy s) {active : List ChannelPtr}
    (ha : ∀ c, active.count (.conn c) ≤ 1) : Tidy (s.setActive l active) where
  active := forall_update (P := fun _ (active : List ChannelPtr) => ∀ c, active.count (.conn c) ≤ 1)
    ha h.active
  queued := h.queued

theorem setEstablished (h : Tidy s) (c : ConnId) :
    Tidy { s with established := Function.update s.established c true } where
  active := h.active
  queued l f hf hn := by
    by_cases hc : f.conn = c
    · simp [hc]
    · exact (Function.update_of_ne hc ..).trans (h.queued l f hf hn)

theorem removeConnectionInLoop (h : Tidy s) (he : s.established c = true) :
    Tidy (s.removeConnectionInLoop c) :=
  push (s := { s with connections := Function.update s.connections (s.nameOf c) none })
    ⟨h.active, h.queued⟩ fun _ => he

theorem react (h : Tidy s) {e : Event} (he : e.Reacts = true → s.established c = true) :
    Tidy (s.react l c e) := by
  cases e with
  | closeCallback =>
    simp only [TcpServer.react, removeConnection]
    split
    · exact h.removeConnectionInLoop (he rfl)
    · exact h.push fun _ => he rfl
  | writeComplete => exact h.push fun _ => he rfl
  | highWaterMark size => exact h.push fun _ => he rfl
  | _ => exact h

theorem newConnection (h : Tidy s) (fd : ℕ) (highWater : Option ℕ) (acts : List UserAct) :
    Tidy (s.newConnection cfg fd highWater acts) := by
  have h1 : Tidy (s.createConnection cfg fd highWater) := ⟨h.active, h.queued⟩
  unfold TcpServer.newConnection
  simp only
  split
  · have h2 := h1.setEstablished s.accepted
    exact ⟨h2.active, h2.queued⟩
  · exact h1.push fun hn => absurd rfl (hn _)

theorem callFunctor (h : Tidy s) {f : Functor} (hf : f ∈ (s.queue l).unrun) (env : FunctorEnv) :
    Tidy (s.callFunctor l env f) := by
  cases f with
  | connectEstablished c =>
    have h1 := h.setEstablished c
    exact ⟨h1.active, h1.queued⟩
  | removeConnectionInLoop c =>
    exact h.removeConnectionInLoop (h.queued l _ hf fun _ => by simp)
  | _ => exact ⟨h.active, h.queued⟩

/-- A descriptor is reported once, and a connection is registered under one descriptor. -/
theorem count_reported (hp : Placed cfg (fun _ _ _ => True) s) {reports : List (ℕ × Events)}
    (hr : (reports.map Prod.fst).Nodup) (c : ConnId) :
    (reports.filterMap fun x => ((s.poller l).epoll x.1).map Prod.snd).count (.conn c) ≤ 1 := by
  have hfd : ∀ x : ℕ × Events, ((s.poller l).epoll x.1).map Prod.snd = some (.conn c) →
      x.1 = (s.conn c).channel.fd := by
    intro x hx
    obtain ⟨⟨m, ptr⟩, hy, hyc⟩ := Option.map_eq_some_iff.mp hx
    obtain rfl : ptr = .conn c := hyc
    exact (hp.entry l x.1 m _ hy).2.1.symm
  have hle := List.nodup_iff_count.mp hr (s.conn c).channel.fd
  rw [List.count, List.countP_map] at hle
  rw [List.count, List.countP_filterMap]
  refine (List.countP_mono_left fun x _ hx => ?_).trans hle
  cases hm : ((s.poller l).epoll x.1).map Prod.snd with
  | none => simp [hm] at hx
  | some ptr =>
    obtain rfl : ptr = .conn c := by simpa [hm] using hx
    simpa using hfd x hm

theorem start : Tidy (TcpServer.start cfg) :=
  ⟨fun l c => by simp [TcpServer.start], fun l f hf => by
    simp [TcpServer.start, TaskQueue.unrun, TaskQueue.empty] at hf⟩

theorem step (h : Tidy s) (hp : Placed cfg (fun _ _ _ => True) s) (hr : Reg cfg s) {lab : Label}
    (hf : lab.foreign = false) (hst : TcpServer.step cfg s lab = some s') : Tidy s' := by
  cases move_of_step hst with
  | poll l reports _ _ hready =>
    obtain ⟨r, he⟩ := fillActiveChannels_eq s l reports
    have h1 : Tidy (s.reported r) := ⟨h.active, h.queued⟩
    have h2 := h1.setActive (l := l) (count_reported (l := l) hp hready.1)
    rw [he]
    exact ⟨h2.active, h2.queued⟩
  | dispatch l env ptr rest s' _ _ ha hs =>
    have h1 : Tidy (s.setActive l rest) := h.setActive fun c =>
      le_trans ((List.sublist_cons_self ptr rest).count_le _) (ha ▸ h.active l c)
    rcases handleEvent_cases hs with rfl | ⟨-, fd, highWater, -, -, rfl⟩ | ⟨c, -, -, -, rfl⟩
    · exact h1
    · exact h1.newConnection fd highWater env.acts
    · exact ⟨h1.active, h1.queued⟩
  | react l c e rest hre =>
    have h1 : Tidy (s.setReactions l rest) := ⟨h.active, h.queued⟩
    refine h1.react fun he => ?_
    exact ((hr.reaction l (c, e) (hre ▸ List.mem_cons_self)).2 he).1
  | doPendingFunctors l =>
    have h1 : Tidy (s.setQueue l (s.queue l).swap) :=
      h.shrink fun f hf => TaskQueue.unrun_swap_subset _ hf
    exact ⟨h1.active, h1.queued⟩
  | runFunctor l env f rest _ _ hrest =>
    have h1 := h.callFunctor (TaskQueue.mem_unrun_of_rest hrest) env
    have h2 := h1.shrink (l := l) fun g hg => TaskQueue.unrun_advance_subset _ hg
    exact ⟨h2.active, h2.queued⟩
  | functorReturn l => exact ⟨h.active, h.queued⟩
  | endFunctors l =>
    have h1 : Tidy (s.setQueue l (s.queue l).finish) :=
      h.shrink fun f hf => TaskQueue.unrun_finish_subset _ hf
    exact ⟨h1.active, h1.queued⟩
  | userAct l c a => exact ⟨h.active, h.queued⟩
  | keep c => exact ⟨h.active, h.queued⟩
  | drop c => exact ⟨h.active, h.queued⟩
  | workerTake | workerTest | workerStore | workerQueue | workerDrop => cases hf

end Tidy

/-! ### What stays -/

theorem update_true {f : ConnId → Bool} {k : ConnId} (h : f c = true) :
    Function.update f k true c = true := by
  by_cases hc : c = k
  · rw [hc, Function.update_self]
  · rwa [Function.update_of_ne hc]

/-- What has been done to a connection. -/
theorem done_of_step (hst : step cfg s lab = some s') :
    (s.established c = true → s'.established c = true) ∧
      (s.destroyed c = true → s'.destroyed c = true) := by
  cases move_of_step hst with
  | poll k reports =>
    obtain ⟨r, hr⟩ := fillActiveChannels_eq s k reports
    rw [hr]
    exact ⟨id, id⟩
  | dispatch k env ptr rest s' _ _ _ hev =>
    rcases handleEvent_cases hev with rfl | ⟨-, fd, highWater, -, -, rfl⟩ | ⟨c, -, -, -, rfl⟩
    · exact ⟨id, id⟩
    · unfold newConnection
      simp only
      split
      · exact ⟨update_true, id⟩
      · exact ⟨id, id⟩
    · exact ⟨id, id⟩
  | react k c e rest =>
    cases e with
    | closeCallback =>
      simp only [TcpServer.react, removeConnection]
      split
      · exact ⟨id, id⟩
      · exact ⟨id, id⟩
    | _ => exact ⟨id, id⟩
  | runFunctor k env f rest =>
    cases f with
    | connectEstablished c => exact ⟨update_true, id⟩
    | connectDestroyed c => exact ⟨id, update_true⟩
    | _ => exact ⟨id, id⟩
  | _ => exact ⟨id, id⟩

/-! ### All together -/

/-- The invariants of the runs in which the loop threads call the functions of the connections. -/
structure Sound (cfg : Config) (s : TcpServer) : Prop where
  own : Own cfg s
  reg : Reg cfg s
  placed : Placed cfg (fun _ _ _ => True) s
  tidy : Tidy s

/-- The wakeup channel, and in the base loop the one that accepts. -/
theorem home_startPoller {fd : ℕ} {m : Events} {ptr : ChannelPtr}
    (h : (startPoller cfg l).epoll fd = some (m, ptr)) : ptr = .wakeup l ∨ l = 0 ∧ ptr = .accept := by
  have hw : ∀ {fd m ptr}, ((Channel.new (.wakeup l) (cfg.wakeupFd l)).enableReading .new).1.epoll fd =
      some (m, ptr) → ptr = .wakeup l := by
    intro fd m ptr h
    rcases (EPollerPoller.epoll_updateChannel h).1 with h | ⟨-, hp⟩
    · cases h
    · exact hp
  unfold startPoller at h
  simp only at h
  split at h
  next h0 =>
    rcases (EPollerPoller.epoll_updateChannel h).1 with h | ⟨-, hp⟩
    · exact .inl (hw h)
    · exact .inr ⟨h0, hp⟩
  next => exact .inl (hw h)

theorem Placed.start : Placed cfg (fun _ _ _ => True) (TcpServer.start cfg) := by
  refine ⟨?_, ?_, ?_, ?_, ?_, ?_, fun l fd m ptr he => ?_, ?_⟩
  case refine_7 =>
    change (if l ≤ cfg.numThreads then startPoller cfg l else .new).epoll fd = some (m, ptr) at he
    split at he
    next =>
      rcases home_startPoller he with rfl | ⟨h0, rfl⟩
      · exact ⟨rfl, trivial⟩
      · exact ⟨h0, trivial⟩
    next => cases he
  all_goals
    simp [TcpServer.start, TaskQueue.unrun, TaskQueue.empty, Worker.conn]

theorem Sound.start : Sound cfg (TcpServer.start cfg) := ⟨.start, .start, .start, .start⟩

theorem Sound.step (h : Sound cfg s) {lab : Label} (hl : s.LoopThreads lab)
    (hst : TcpServer.step cfg s lab = some s') : Sound cfg s' where
  own := h.own.step hl.2 hst
  reg := h.reg.step h.own hl.2 hl.1 hst
  placed := h.placed.step hst
  tidy := h.tidy.step h.placed h.reg hl.1 hst

theorem Sound.of_reach {C : TcpServer → Label → Prop} (hC : ∀ s lab, C s lab → s.LoopThreads lab)
    (h : (sys cfg).Reach C s) : Sound cfg s :=
  h.invariant (fun _ hs => hs ▸ .start) fun s lab _ hi hc hst => hi.step (hC s lab hc) hst

end TcpServer

end Mymuduo
