import Mymuduo.ServerOwn

/-!
# Mymuduo.DeferredLife — deferred `send` and `shutdown` on a connection that is gone

The functors that `send` and `shutdown` queue from another thread bind the plain `this`.  Such a functor
runs on a connection that is held when it is taken out of the queue with `connectDestroyed` or before:
that functor stays in the batch until the batch is dropped.  A functor that a worker thread queues
after `connectDestroyed` has been taken out has nobody to hold its connection but the worker itself and
the user; when they give it up too early, the loop runs the functor on an object that is gone.
-/

namespace Mymuduo

open Lib

/-- The functor that is running. -/
def Phase.current : Phase → List Functor
  | .running f => [f]
  | _ => []

namespace TcpServer

/-! ### Functors that wait for a connection that is going -/

section Defs

variable (cfg : Config) (s : TcpServer)

/-- A functor with the plain pointer to `c` waits in the loop of `c`, or is running there. -/
def Deferred (c : ConnId) : Prop :=
  ∃ f ∈ (s.phase (s.loopOf c)).current ++ (s.queue (s.loopOf c)).unrun,
    f.owns = false ∧ f.conn = c

instance (c : ConnId) : Decidable (s.Deferred c) := inferInstanceAs (Decidable (∃ f ∈ _, _))

/-- Its `connectDestroyed` has been taken out of the queue already. -/
def Late (c : ConnId) : Prop := s.destroying c = true ∧ s.Deferred c

instance (c : ConnId) : Decidable (s.Late c) := inferInstanceAs (Decidable (_ ∧ _))

/-- What is left of the holders when a step gives pointers up. -/
def giveUp (s : TcpServer) : Label → TcpServer
  | .drop c => s.setRefs c (s.userRefs c - 1)
  | .workerDrop t => s.setWorker t .outside
  | .endFunctors l => s.finish l
  | _ => s

/-- The step gives pointers up. -/
def Label.givesUp : Label → Bool
  | .drop _ | .workerDrop _ | .endFunctors _ => true
  | _ => false

/-- A step that gives pointers up does not give up the last one to a connection that a late functor waits for;
and fewer than `2 ^ 31` connections are accepted. -/
def Permitted (lab : Label) : Prop :=
  s.Numbered lab ∧ (lab.givesUp = true → ∀ c < s.accepted, s.Late c → (s.giveUp lab).Held cfg c)

instance (lab : Label) : Decidable (s.Permitted cfg lab) := inferInstanceAs (Decidable (_ ∧ _))

/-- The thread of the loop `l` is about to execute `f`, or is in it. -/
def Executing (l : LoopId) (f : Functor) : Prop :=
  (s.phase l = .functors ∧ ∃ rest, (s.queue l).rest = f :: rest) ∨ s.phase l = .running f

structure Cover : Prop where
  running : ∀ l f, s.phase l = .running f → f ∈ (s.queue l).batch
  worker : ∀ t c, (s.worker t).conn = some c → t < cfg.workers
  held : ∀ c < s.accepted, s.Late c → s.Held cfg c

end Defs

variable {cfg : Config} {s s' : TcpServer} {l : LoopId} {c : ConnId}

/-! ### Holders that stay -/

/-- A queue with more tasks holds more connections. -/
theorem Held.setQueue (h : s.Held cfg c) {q : TaskQueue Functor}
    (hq : ∀ f ∈ (s.queue l).held, f ∈ q.held) : (s.setQueue l q).Held cfg c := by
  have hheld := forall_setQueue (P := fun l' q => ∀ f ∈ (s.queue l').held, f ∈ q.held) hq
    fun _ _ hf => hf
  refine h.imp_right (.imp_left ?_)
  rintro ⟨l', hl', f, hf, ho⟩
  exact ⟨l', hl', f, hheld l' f hf, ho⟩

theorem Held.push (h : s.Held cfg c) (l : LoopId) (f : Functor) : (s.push l f).Held cfg c :=
  h.setQueue fun _ hg => TaskQueue.mem_held_push.mpr (.inl hg)

/-- The functor that is queued holds its connection. -/
theorem held_push_self {f : Functor} (hl : l ≤ cfg.numThreads) (ho : f.owns = true) :
    (s.push l f).Held cfg f.conn := by
  refine .inr (.inl ⟨l, hl, f, ?_, ho, rfl⟩)
  rw [TcpServer.push, queue_setQueue]
  exact TaskQueue.mem_held_push.mpr (.inr rfl)

theorem Held.removeConnectionInLoop (h : s.Held cfg c) (ho : Own cfg s) (hc : c < s.accepted)
    {c' : ConnId} (hc' : c' < s.accepted) : (s.removeConnectionInLoop c').Held cfg c := by
  by_cases hn : c = c'
  · subst hn
    exact held_push_self (f := .connectDestroyed c) (ho.loop c hc) rfl
  · refine Held.push (s := { s with
      connections := Function.update s.connections (s.nameOf c') none }) ?_ _ _
    refine h.imp_left fun he => ?_
    exact (Function.update_of_ne (fun hne => hn (ho.name_inj hc hc' hne)) ..).trans he

theorem Held.createConnection (h : s.Held cfg c) (ho : Own cfg s) (hc : c < s.accepted)
    (hb : s.accepted + 1 < 2 ^ 31) (fd : ℕ) (highWater : Option ℕ) :
    (s.createConnection cfg fd highWater).Held cfg c := by
  refine h.imp_left fun he => ?_
  show Function.update s.connections (cfg.connName s.nextConnId) (some s.accepted)
    (Function.update s.nameOf s.accepted (cfg.connName s.nextConnId) c) = some c
  rw [Function.update_of_ne hc.ne, Function.update_of_ne (ho.name_new hb hc)]
  exact he

/-! ### Queues -/

/-- Nothing becomes late through a queue with no more plain pointers to run. -/
theorem Late.of_setQueue {q : TaskQueue Functor}
    (hq : ∀ f ∈ q.unrun, f.owns = false → f ∈ (s.queue l).unrun) (h : (s.setQueue l q).Late c) :
    s.Late c := by
  have hunrun := forall_setQueue
    (P := fun l' q => ∀ f ∈ q.unrun, f.owns = false → f ∈ (s.queue l').unrun) hq fun _ _ hf _ => hf
  obtain ⟨hd, g, hg, ho, hc⟩ := h
  refine ⟨hd, g, ?_, ho, hc⟩
  rcases List.mem_append.mp hg with hg | hg
  · exact List.mem_append_left _ hg
  · exact List.mem_append_right _ (hunrun _ g hg ho)

theorem Late.of_push {f : Functor} (ho : f.owns = true) (h : (s.push l f).Late c) : s.Late c := by
  refine h.of_setQueue fun g hg hg' => (TaskQueue.mem_unrun_push.mp hg).resolve_right ?_
  rintro rfl
  simp [ho] at hg'

theorem Cover.setQueue (h : Cover cfg s) {q : TaskQueue Functor}
    (hrun : ∀ f, s.phase l = .running f → f ∈ q.batch)
    (hheld : ∀ c < s.accepted, (s.setQueue l q).Late c → (s.setQueue l q).Held cfg c) :
    Cover cfg (s.setQueue l q) where
  running := forall_setQueue (P := fun l' q => ∀ f, s.phase l' = .running f → f ∈ q.batch) hrun
    h.running
  worker := h.worker
  held := hheld

/-- Queueing a functor that holds its connection. -/
theorem Cover.push (h : Cover cfg s) {f : Functor} (ho : f.owns = true) (l : LoopId) :
    Cover cfg (s.push l f) :=
  h.setQueue (h.running l) fun c hc hlate => (h.held c hc (hlate.of_push ho)).push l f

/-- The worker that queues a functor with the plain pointer holds the connection. -/
theorem Cover.push_raw (h : Cover cfg s) {t : ℕ} {f : Functor}
    (hw : (s.worker t).conn = some f.conn) (l : LoopId) : Cover cfg (s.push l f) := by
  refine h.setQueue (h.running l) fun c hc hlate => ?_
  obtain ⟨hd, g, hg, ho, hgc⟩ := hlate
  by_cases hgf : g = f
  · subst hgf
    exact hgc ▸ .inr (.inr (.inr ⟨t, h.worker t _ hw, hw⟩))
  · refine Held.push (h.held c hc ⟨hd, g, ?_, ho, hgc⟩) l f
    rcases List.mem_append.mp hg with hg | hg
    · exact List.mem_append_left _ hg
    · exact List.mem_append_right _ ((mem_unrun_push hg).resolve_right hgf)

/-- The batch with `connectDestroyed` holds the connection. -/
theorem Cover.swapFunctors (h : Cover cfg s) (ho : Own cfg s) (hp : s.phase l = .dispatch) :
    Cover cfg (s.swapFunctors l) := by
  have hrun := forall_setQueue (l := l) (q := (s.queue l).swap)
    (P := fun l' q => ∀ f, s.phase l' = .running f → f ∈ q.batch)
    (fun f hf => by cases hp.symm.trans hf) h.running
  have hq : (s.swapFunctors l).queue l = (s.queue l).swap := queue_setQueue s l _
  refine ⟨hrun, h.worker, fun c hc ⟨hd, hdef⟩ => ?_⟩
  rcases Bool.or_eq_true_iff.mp hd with hd | hm
  · -- it was late before: the old batch was empty, so its holders are still there
    have hlate : s.Late c := Late.of_setQueue (l := l) (q := (s.queue l).swap)
      (fun f hf _ => TaskQueue.unrun_swap (ho.rest (.inr hp)) ▸ hf) ⟨hd, hdef⟩
    refine (h.held c hc hlate).setQueue fun f hf => ?_
    rw [TaskQueue.mem_held, ho.batch l (.inr hp)] at hf
    exact TaskQueue.mem_held_swap.mpr (hf.resolve_left List.not_mem_nil)
  · have hm := of_decide_eq_true hm
    have hl : s.loopOf c = l := (ho.queued l _ (TaskQueue.mem_held.mpr (.inr hm))).2
    refine .inr (.inl ⟨l, hl ▸ ho.loop c hc, .connectDestroyed c, ?_, rfl, rfl⟩)
    rw [hq, TaskQueue.mem_held_swap]
    exact hm

/-- The functor that is started leaves the rest for the thread. -/
theorem Cover.advance (h : Cover cfg s) {f : Functor} {rest : List Functor}
    (hp : s.phase l = .functors) (hr : (s.queue l).rest = f :: rest) :
    Cover cfg ((s.advance l).setPhase l (.running f)) := by
  have hq : (s.advance l).queue l = (s.queue l).advance := queue_setQueue s l _
  have hbatch := forall_setQueue (l := l) (q := (s.queue l).advance)
    (P := fun l' q => q.batch = (s.queue l').batch) rfl fun _ => rfl
  refine ⟨fun l' g hg => (hbatch l').symm ▸ ?_, h.worker, fun c hc hlate => ?_⟩
  · by_cases hl : l' = l
    · subst hl
      rw [phase_setPhase] at hg
      obtain rfl := Phase.running.inj hg
      exact (s.queue l').suffix.subset (hr ▸ List.mem_cons_self)
    · rw [phase_setPhase_of_ne _ _ hl] at hg
      exact h.running l' g hg
  · obtain ⟨hd, g, hg, hg'⟩ := hlate
    have hdef : s.Deferred c := by
      refine ⟨g, ?_, hg'⟩
      change g ∈ (((s.advance l).setPhase l (.running f)).phase (s.loopOf c)).current ++
        ((s.advance l).queue (s.loopOf c)).unrun at hg
      by_cases hl : s.loopOf c = l
      · rw [hl, phase_setPhase, hq] at hg
        rw [hl, hp, TaskQueue.unrun_eq_cons hr]
        exact hg
      · rw [phase_setPhase_of_ne _ _ hl] at hg
        exact queue_setQueue_of_ne s _ hl ▸ hg
    exact (h.held c hc ⟨hd, hdef⟩).setQueue (q := (s.queue l).advance) fun _ hf => hf

/-- The batch of the loop `l` is dropped: by the condition on the step somebody else holds. -/
theorem Cover.finish (h : Cover cfg s) (hp : s.phase l = .functors) (hr : (s.queue l).rest = [])
    (hheld : ∀ c < s.accepted, s.Late c → (s.finish l).Held cfg c) : Cover cfg (s.finish l) := by
  refine h.setQueue (fun f hf => ?_) fun c hc hlate => hheld c hc (hlate.of_setQueue fun f hf _ => ?_)
  · cases hp.symm.trans hf
  · exact TaskQueue.unrun_finish hr ▸ hf

/-! ### One step -/

theorem Cover.removeConnectionInLoop (h : Cover cfg s) (ho : Own cfg s) (hc : c < s.accepted) :
    Cover cfg (s.removeConnectionInLoop c) where
  running := forall_setQueue (P := fun l' q => ∀ f, s.phase l' = .running f → f ∈ q.batch)
    (h.running _) h.running
  worker := h.worker
  held c' hc' hlate := (h.held c' hc' (Late.of_push (s := { s with
    connections := Function.update s.connections (s.nameOf c) none }) rfl hlate)).removeConnectionInLoop
      ho hc' hc

theorem Cover.react (h : Cover cfg s) (ho : Own cfg s) (hc : c < s.accepted) (l : LoopId)
    (e : Event) : Cover cfg (s.react l c e) := by
  cases e with
  | closeCallback =>
    simp only [TcpServer.react, removeConnection]
    split
    · exact h.removeConnectionInLoop ho hc
    · exact h.push (f := .removeConnectionInLoop c) rfl 0
  | writeComplete => exact h.push (f := .writeComplete c) rfl _
  | highWaterMark size => exact h.push (f := .highWaterMark c size) rfl _
  | _ => exact h

theorem Cover.createConnection (h : Cover cfg s) (ho : Own cfg s) (hb : s.accepted + 1 < 2 ^ 31)
    (fd : ℕ) (highWater : Option ℕ) : Cover cfg (s.createConnection cfg fd highWater) where
  running := h.running
  worker := h.worker
  held c hc hlate := by
    rcases Nat.lt_or_eq_of_le (Nat.le_of_lt_succ hc) with hc | rfl
    · refine Held.createConnection (h.held c hc ?_) ho hc hb fd highWater
      have hl : (s.createConnection cfg fd highWater).loopOf c = s.loopOf c :=
        Function.update_of_ne hc.ne ..
      obtain ⟨hd, hdef⟩ := hlate
      unfold Deferred at hdef
      rw [hl] at hdef
      exact ⟨hd, hdef⟩
    · exact absurd ((ho.fresh _ le_rfl).2.1.symm.trans hlate.1) (by decide)

theorem Cover.newConnection (h : Cover cfg s) (ho : Own cfg s) (hb : s.accepted + 1 < 2 ^ 31)
    (fd : ℕ) (highWater : Option ℕ) (acts : List UserAct) :
    Cover cfg (s.newConnection cfg fd highWater acts) := by
  have h1 := h.createConnection ho hb fd highWater
  unfold TcpServer.newConnection
  simp only
  split
  · exact ⟨h1.running, h1.worker, h1.held⟩
  · exact h1.push (f := .connectEstablished s.accepted) rfl _

theorem Cover.setPhase (h : Cover cfg s) {p : Phase} (hp : p.current = []) (l : LoopId) :
    Cover cfg (s.setPhase l p) where
  running l' f hf := by
    by_cases hl : l' = l
    · subst hl
      rw [phase_setPhase] at hf
      simp [hf, Phase.current] at hp
    · rw [phase_setPhase_of_ne s p hl] at hf
      exact h.running l' f hf
  worker := h.worker
  held c hc hlate := by
    obtain ⟨hd, g, hg, hg'⟩ := hlate
    refine h.held c hc ⟨hd, g, ?_, hg'⟩
    rcases List.mem_append.mp hg with hg | hg
    · change g ∈ ((s.setPhase l p).phase (s.loopOf c)).current at hg
      by_cases hl : s.loopOf c = l
      · subst hl
        simp [hp] at hg
      · rw [phase_setPhase_of_ne s p hl] at hg
        exact List.mem_append_left _ hg
    · exact List.mem_append_right _ hg

theorem Cover.callFunctor (h : Cover cfg s) (ho : Own cfg s) {f : Functor}
    (hc : f.conn < s.accepted) (l : LoopId) (env : FunctorEnv) :
    Cover cfg (s.callFunctor l env f) := by
  cases f with
  | removeConnectionInLoop c => exact h.removeConnectionInLoop ho hc
  | _ => exact ⟨h.running, h.worker, h.held⟩

theorem Cover.handleEvent (h : Cover cfg s) (ho : Own cfg s) {ptr : ChannelPtr} {env : DispatchEnv}
    (hb : env.accept.isSome → s.accepted + 1 < 2 ^ 31)
    (hs : s.handleEvent cfg l ptr env = some s') : Cover cfg s' := by
  rcases handleEvent_cases hs with rfl | ⟨-, fd, highWater, he, -, rfl⟩ | ⟨c, -, -, -, rfl⟩
  · exact h
  · exact h.newConnection ho (hb (by simp [he])) fd highWater env.acts
  · exact ⟨h.running, h.worker, h.held⟩

/-! ### Pointers of the user and of the workers -/

theorem Held.setRefs (h : s.Held cfg c) {c' : ConnId} {n : ℕ} (hn : 0 < n) :
    (s.setRefs c' n).Held cfg c := by
  have hrefs : ∀ c, 0 < s.userRefs c → 0 < (s.setRefs c' n).userRefs c :=
    forall_update (P := fun c n => 0 < s.userRefs c → 0 < n) (fun _ => hn) fun _ hc => hc
  exact h.imp_right (.imp_right (.imp_left (hrefs c)))

/-- A worker thread that goes on with the pointers it has. -/
theorem Held.setWorker (h : s.Held cfg c) {t : ℕ} {w : Worker}
    (hw : ∀ c, (s.worker t).conn = some c → w.conn = some c) : (s.setWorker t w).Held cfg c := by
  have hworker : ∀ t' c, (s.worker t').conn = some c → ((s.setWorker t w).worker t').conn = some c :=
    forall_update (P := fun t' (w : Worker) => ∀ c, (s.worker t').conn = some c → w.conn = some c) hw
      fun _ _ hc => hc
  refine h.imp_right (.imp_right (.imp_right ?_))
  rintro ⟨t', ht', hc⟩
  exact ⟨t', ht', hworker t' c hc⟩

theorem Cover.setWorker (h : Cover cfg s) {t : ℕ} {w : Worker}
    (ht : ∀ c, w.conn = some c → t < cfg.workers)
    (hheld : ∀ c < s.accepted, s.Late c → (s.setWorker t w).Held cfg c) :
    Cover cfg (s.setWorker t w) where
  running := h.running
  worker := forall_update (P := fun t' (w : Worker) => ∀ c, w.conn = some c → t' < cfg.workers) ht
    h.worker
  held := hheld

/-! ### Whole runs -/

theorem Cover.init : Cover cfg (TcpServer.start cfg) := by
  refine ⟨fun l f hf => ?_, fun t c hc => ?_, fun c hc => ?_⟩
  · cases hf
  · cases hc
  · exact absurd hc (Nat.not_lt_zero c)

/-- **A late functor finds its connection held**: an invariant of every permitted step. -/
theorem Cover.step (h : Cover cfg s) (ho : Own cfg s) {lab : Label} (hb : s.Permitted cfg lab)
    (hst : step cfg s lab = some s') : Cover cfg s' := by
  obtain ⟨hnum, hleft⟩ := hb
  cases move_of_step hst with
  | poll l reports =>
    obtain ⟨r, he⟩ := fillActiveChannels_eq s l reports
    have h1 : Cover cfg (s.fillActiveChannels l reports) := by
      rw [he]
      exact ⟨h.running, h.worker, h.held⟩
    exact h1.setPhase rfl l
  | dispatch l env ptr rest s' hp _ _ hs =>
    have h1 : Cover cfg (s.setActive l rest) := ⟨h.running, h.worker, h.held⟩
    exact h1.handleEvent (ho.setActive hp rest) hnum hs
  | react l c e rest hre =>
    have ho1 := ho.setReactions (l := l) rest fun y hy =>
      ho.reaction l y (hre ▸ List.mem_cons_of_mem _ hy)
    have h1 : Cover cfg (s.setReactions l rest) := ⟨h.running, h.worker, h.held⟩
    exact h1.react ho1 (ho.reaction l (c, e) (hre ▸ List.mem_cons_self)) l e
  | doPendingFunctors l hp => exact (h.swapFunctors ho hp).setPhase rfl l
  | runFunctor l env f rest hp _ hr =>
    have hf : f ∈ (s.queue l).held := TaskQueue.held_of_unrun (TaskQueue.mem_unrun_of_rest hr)
    have h1 := h.callFunctor ho (ho.queued l f hf).1 l env
    exact h1.advance (by rw [phase_callFunctor, hp]) ((batch_callFunctor s l l env f).1.trans hr)
  | functorReturn l => exact h.setPhase rfl l
  | endFunctors l hp _ hr => exact (h.finish hp hr (hleft rfl)).setPhase rfl l
  | userAct l c a => exact ⟨h.running, h.worker, h.held⟩
  | keep c =>
    exact ⟨h.running, h.worker, fun c' hc' hl => (h.held c' hc' hl).setRefs (Nat.succ_pos _)⟩
  | drop c => exact ⟨h.running, h.worker, hleft rfl⟩
  | workerTake t c ht hw =>
    refine h.setWorker (fun _ _ => ht) fun c' hc' hl => (h.held c' hc' hl).setWorker fun c hc => ?_
    rw [hw] at hc
    cases hc
  | workerTest t call c hw =>
    have hc : (s.worker t).conn = some c := by rw [hw]; rfl
    refine h.setWorker (fun _ _ => h.worker t c hc) fun c' hc' hl =>
      (h.held c' hc' hl).setWorker fun c'' hc'' => ?_
    rw [tested_conn, ← hc, hc'']
  | workerStore t c hw =>
    have hc : (s.worker t).conn = some c := by rw [hw]; rfl
    have h1 : Cover cfg (s.setState c .kDisconnecting) := ⟨h.running, h.worker, h.held⟩
    refine h1.setWorker (fun _ _ => h.worker t c hc) fun c' hc' hl =>
      (h1.held c' hc' hl).setWorker fun c'' hc'' => ?_
    exact hc.symm.trans hc''
  | workerQueue t c call hw =>
    have hc : (s.worker t).conn = some c := by rw [hw]; rfl
    have hf : (call.functor c).conn = c := by cases call <;> rfl
    have h1 := h.push_raw (f := call.functor c) (hc.trans (congrArg some hf.symm)) (s.loopOf c)
    refine h1.setWorker (fun _ _ => h.worker t c hc) fun c' hc' hl =>
      (h1.held c' hc' hl).setWorker fun c'' hc'' => ?_
    exact hc.symm.trans hc''
  | workerDrop t => exact h.setWorker (fun _ hc' => by cases hc') (hleft rfl)

/-- **A deferred `send` or `shutdown` runs on a connection that is held**, in every run whose steps are
permitted. -/
theorem deferred_live (h : (sys cfg).Reach (Permitted cfg) s) :
    ∀ l f, s.Executing l f → f.owns = false → s.Held cfg f.conn := by
  intro l f hexec ho
  obtain ⟨hown, hcov⟩ := h.invariant (I := fun s => Own cfg s ∧ Cover cfg s)
    (fun _ hs => hs ▸ ⟨.start, .init⟩)
    fun _ _ _ hi hc hst => ⟨hi.1.step hc.1 hst, hi.2.step hi.1 hc hst⟩
  have hf : f ∈ (s.queue l).held ∧ f ∈ (s.phase l).current ++ (s.queue l).unrun := by
    rcases hexec with ⟨-, rest, hr⟩ | hp
    · have hu : f ∈ (s.queue l).unrun := TaskQueue.mem_unrun_of_rest hr
      exact ⟨TaskQueue.held_of_unrun hu, List.mem_append_right _ hu⟩
    · exact ⟨TaskQueue.mem_held.mpr (.inl (hcov.running l f hp)),
        List.mem_append_left _ (hp ▸ List.mem_cons_self)⟩
  obtain ⟨hc, hhome⟩ := hown.queued l f hf.1
  have hl : s.loopOf f.conn = l := by
    cases f with
    | removeConnectionInLoop c => cases ho
    | _ => exact hhome
  cases hd : s.destroying f.conn with
  | false => exact hown.held_of_not_destroying hc hd
  | true => exact hcov.held f.conn hc ⟨hd, f, hl.symm ▸ hf.2, ho, rfl⟩

/-- A functor queued before `connectDestroyed` is taken out: the batch holds its connection. -/
theorem deferred_live_batch :
    ∃ s, (sys config).Reach (Permitted config) s ∧ s.destroyed 0 = true ∧
      s.Executing 1 (.sendInLoop 0) ∧ s.Held config 0 := by
  obtain ⟨s, hr, hd, hp, hrest⟩ := Sys.Reach.exists_of_execIf (M := sys config)
    (s := TcpServer.start config) (C := Permitted config)
    (P := fun s => s.destroyed 0 = true ∧ s.phase 1 = .functors ∧
      (s.queue 1).rest = [.sendInLoop 0])
    (.init rfl)
    (opening 7 ++ [.workerTake 0 0, .workerTest 0 .send] ++ closing 7 ++
      [.workerQueue 0, .workerDrop 0] ++ taking 1 ++ running 1)
    (by decide +kernel)
  have hexec : s.Executing 1 (.sendInLoop 0) := .inl ⟨hp, [], hrest⟩
  exact ⟨s, hr, hd, hexec, deferred_live hr 1 _ hexec rfl⟩

/-- The worker queues its functor when `connectDestroyed` has been taken out, and drops its pointer
before the loop comes to the functor. -/
theorem deferred_live_late :
    ¬ ∀ s, (sys config).Reach Numbered s → ∀ l f, s.Executing l f → f.owns = false →
      s.Held config f.conn := by
  intro h
  obtain ⟨s, hr, hp, hrest, hheld⟩ := Sys.Reach.exists_of_execIf (M := sys config)
    (s := TcpServer.start config) (C := Numbered)
    (P := fun s => s.phase 1 = .functors ∧ (s.queue 1).rest = [.sendInLoop 0] ∧
      ¬ s.Held config 0)
    (.init rfl)
    (opening 7 ++ [.workerTake 0 0, .workerTest 0 .send] ++ closing 7 ++ taking 1 ++
      [.workerQueue 0] ++ running 1 ++ [.endFunctors 1, .workerDrop 0] ++ taking 1)
    (by decide +kernel)
  exact hheld (h s hr 1 (.sendInLoop 0) (.inl ⟨hp, [], hrest⟩) rfl)

end TcpServer

end Mymuduo
