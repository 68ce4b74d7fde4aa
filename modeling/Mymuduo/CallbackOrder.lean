import Mymuduo.CloseOnce
import Mymuduo.ServerConn

/-!
# Mymuduo.CallbackOrder — the order of the callbacks of a connection

The user sees a connection come up, then its messages, then see it go down once, and the server removes it;
`Ordered` says so of the callbacks `Io.called` of one connection, in every run of `Conn.InTurn`
(`Conn.ordered_of_reach`).

In a server the end is complete: a connection whose `connectDestroyed` has run or is under way was closed by
`handleClose`, so it went down and `closeCallback` was called (`Announced`).  Until then it is in
`connections`.
-/

namespace Mymuduo

open Lib Events

namespace Event

/-- `connectionCallback` on a connection that is connected. -/
abbrev up : Event := .connectionCallback true

/-- `connectionCallback` on a connection that is not. -/
abbrev down : Event := .connectionCallback false

end Event

namespace Io

variable {io io' : Io}

/-- The callbacks that have been invoked. -/
def called (io : Io) : List Event := io.trace.filter Event.IsCallback

theorem called_emit (io : Io) {e : Event} (he : e.IsCallback = true) :
    (io.emit e).called = io.called ++ [e] := by
  simp [called, he]

/-- What invokes no callback. -/
theorem called_of_frame (h : Frame (fun e => e.IsCallback = false) io io') : io'.called = io.called := by
  obtain ⟨evs, ht, hq⟩ := h.trace
  have hnil : evs.filter Event.IsCallback = [] :=
    List.filter_eq_nil_iff.mpr fun e he => by simp [hq e he]
  rw [called, ht, List.filter_append, hnil, List.append_nil]
  rfl

theorem called_user (acts : List UserAct) (io : Io) : (io.user acts).called = io.called :=
  called_of_frame (.of_steps ((Steps.refl io).user (fun _ h => h) acts))

theorem called_connectEstablished (acts : List UserAct) (io : Io) :
    (io.connectEstablished acts).called = io.called ++ [.up] :=
  (called_user acts _).trans (called_emit _ rfl)

theorem called_handleClose (acts : List UserAct) (io : Io) :
    (io.handleClose acts).called = io.called ++ [.down, .closeCallback] := by
  obtain ⟨b, hb⟩ := handleClose_eq acts io
  rw [hb, called_emit _ rfl]
  have h1 : (io.closed.setInput b).called = io.called ++ [.down] :=
    called_emit ((io.setState .kDisconnected).onChannel Channel.disableAll) rfl
  rw [h1, List.append_assoc]
  rfl

theorem called_connectDestroyed (acts : List UserAct) (io : Io) :
    (io.connectDestroyed acts).called =
      io.called ++ if io.conn.state = .kConnected then [.down] else [] := by
  obtain ⟨b, hb⟩ := connectDestroyed_eq acts io
  rw [hb]
  split
  · exact called_emit ((io.setState .kDisconnected).onChannel Channel.disableAll) rfl
  · exact (List.append_nil _).symm

theorem called_handleWrite (ret : IoRet) (io : Io) : (io.handleWrite ret).called = io.called :=
  called_of_frame (.of_steps ((Steps.refl io).handleWrite (fun _ h => h) ret))

/-- A read delivers a message or closes the connection. -/
theorem called_handleRead (data : List UInt8) (acts : List UserAct) (io : Io) :
    (io.handleRead (.ok data) acts).called = io.called ++ [.messageCallback] ∨
      (io.handleRead (.ok data) acts).called = io.called ++ [.down, .closeCallback] := by
  simp only [handleRead]
  split
  · exact .inr (called_handleClose acts _)
  · exact .inl ((called_user acts _).trans (called_emit _ rfl))

/-- One dispatch that does not both close and read. -/
theorem called_handleEventWithGuard {env : Callback → CallbackEnv}
    (hn : ¬ (io.conn.channel.revents.CloseAndRead ∧ (env .read).read.isOk = true)) :
    (io.handleEventWithGuard env).called = io.called ∨
      (io.handleEventWithGuard env).called = io.called ++ [.messageCallback] ∨
      (io.handleEventWithGuard env).called = io.called ++ [.down, .closeCallback] := by
  have hwrite : ∀ (x : Io) (b : Bool), (if b then x.handleWrite (env .write).write else x).called = x.called := by
    intro x b
    cases b with
    | false => rfl
    | true => exact called_handleWrite _ x
  rw [handleEventWithGuard_eq env io rfl]
  simp only
  rw [hwrite]
  by_cases hclose : (io.conn.channel.revents.epollhup && !io.conn.channel.revents.epollin) = true
  · -- the read that follows a close fails
    rw [if_pos hclose]
    rw [Bool.and_eq_true, Bool.not_eq_true'] at hclose
    refine .inr (.inr ?_)
    split
    next hread =>
      rw [hclose.2, Bool.false_or] at hread
      cases hrd : (env .read).read with
      | ok data => exact absurd ⟨⟨hclose.1, hread, hclose.2⟩, by rw [hrd]; rfl⟩ hn
      | err e => exact called_handleClose _ io
    next => exact called_handleClose _ io
  · rw [if_neg hclose]
    split
    · cases (env .read).read with
      | ok data => exact .inr (called_handleRead data _ io)
      | err e => exact .inl rfl
    · exact .inl rfl

theorem handleClose_state (acts : List UserAct) (io : Io) :
    (io.handleClose acts).conn.state = .kDisconnected := by
  obtain ⟨b, hb⟩ := handleClose_eq acts io
  rw [hb]
  rfl

/-- What a close brings about, a message keeps, and so does what invokes no callback, holds after a
dispatch. -/
theorem dispatch_called {P : Io → Prop} (hclose : ∀ (io : Io) acts, P (io.handleClose acts))
    (hmessage : ∀ io : Io, P io → P (io.emit .messageCallback))
    (hsame : ∀ io io' : Io, P io → io'.called = io.called →
      (io.conn.state = .kDisconnected → io'.conn.state = .kDisconnected) → P io')
    (h : P io) (env : Callback → CallbackEnv) : P (io.handleEventWithGuard env) := by
  refine dispatch_keeps (fun io cb h => ?_) h
  cases cb with
  | close => exact hclose ..
  | error => exact h
  | read =>
    simp only [callback]
    cases (env .read).read with
    | err e => exact h
    | ok data =>
      simp only [handleRead]
      split
      · exact hclose ..
      · generalize io.conn.inputBuffer.readFd _ = b
        have h1 : P ((io.setInput b).emit .messageCallback) := hmessage _ (hsame io _ h rfl id)
        refine hsame _ _ h1 (called_user ..) fun hs => ?_
        obtain ⟨b, hb⟩ := user_of_ne ((io.setInput b).emit .messageCallback) (env .read).acts (by rw [hs]; simp)
        rw [hb]
        exact hs
  | write => exact hsame _ _ h (called_handleWrite _ io) fun hs => (handleWrite_state _ io).trans hs

/-- A connection that goes down in a dispatch is closed by it. -/
theorem closeCallback_of_down (h : .down ∈ io.called → .closeCallback ∈ io.called)
    (env : Callback → CallbackEnv) (hm : .down ∈ (io.handleEventWithGuard env).called) :
    .closeCallback ∈ (io.handleEventWithGuard env).called := by
  refine dispatch_called (P := fun io => .down ∈ io.called → .closeCallback ∈ io.called)
    (fun io acts _ => ?_) (fun io h hm => ?_) (fun io io' h hc _ hm => ?_) h env hm
  · rw [called_handleClose]
    simp
  · rw [called_emit _ rfl] at hm ⊢
    exact List.mem_append_left _ (h (by simpa using hm))
  · exact hc ▸ h (hc ▸ hm)

end Io

/-- The connection comes up, delivers messages, and at its end goes down; it is closed with that, or
destroyed without being closed. -/
def Ordered (called : List Event) : Prop :=
  ∃ n fin, called = .up :: (List.replicate n .messageCallback ++ fin) ∧
    (fin = [] ∨ fin = [.down] ∨ fin = [.down, .closeCallback])

/-- Callbacks of a connection that has not gone down. -/
theorem Ordered.of_not_down {called : List Event} (h : Ordered called) (hd : .down ∉ called) :
    ∃ n, called = .up :: List.replicate n .messageCallback := by
  obtain ⟨n, fin, rfl, rfl | rfl | rfl⟩ := h
  · exact ⟨n, by rw [List.append_nil]⟩
  · exact absurd (by simp) hd
  · exact absurd (by simp) hd

theorem Ordered.concat_message (n : ℕ) :
    Ordered (.up :: List.replicate n .messageCallback ++ [.messageCallback]) :=
  ⟨n + 1, [], by rw [List.append_nil, List.replicate_succ', List.cons_append], .inl rfl⟩

namespace Conn

variable {k : Conn}

/-- Nothing is called before `connectEstablished`. -/
structure OrderInv (k : Conn) : Prop where
  close : k.CloseInv
  fresh : k.established = false → k.io.called = []
  ordered : k.established = true → Ordered k.io.called

theorem OrderInv.step {k' : Conn} {l : Label} (h : k.OrderInv) (hp : k.InTurn l)
    (hst : k.step l = some k') : k'.OrderInv := by
  have hclose := h.close.step hp hst
  have hest := established_step hst
  suffices hord : Ordered k'.io.called by
    exact ⟨hclose, fun hf => Bool.noConfusion (hest.symm.trans hf), fun _ => hord⟩
  obtain ⟨hen, rfl⟩ := of_guard hst
  have hquiet := Io.Steps.refl (K := fun e : Event => e.IsCallback = false) k.io
  have hopen : k.io.Open → k.established = true →
      ∃ n, k.io.called = .up :: List.replicate n .messageCallback := fun ho he =>
    (h.ordered he).of_not_down fun hm => ho.not_called (List.mem_filter.mp hm).1
  cases l with
  | connectEstablished acts =>
    refine ⟨0, [], ?_, .inl rfl⟩
    exact (Io.called_connectEstablished acts k.io).trans (by rw [h.fresh hen]; rfl)
  | connectDestroyed acts =>
    have hcalled := Io.called_connectDestroyed acts k.io
    by_cases hs : k.io.conn.state = .kConnected
    · have ho : k.io.Open := h.close.open_of_ne (by simp [hs])
      obtain ⟨n, hn⟩ := hopen ho hen
      rw [if_pos hs, hn] at hcalled
      exact ⟨n, [.down], hcalled, .inr (.inl rfl)⟩
    · rw [if_neg hs, List.append_nil] at hcalled
      exact hcalled ▸ h.ordered hen
  | sendInLoop message env =>
    exact Io.called_of_frame (.of_steps (hquiet.sendInLoop (fun _ h => h) message env)) ▸ h.ordered hen
  | shutdownInLoop =>
    exact Io.called_of_frame (.of_steps (hquiet.shutdownInLoop fun _ h => h)) ▸ h.ordered hen
  | act a => exact Io.called_of_frame (.of_steps (hquiet.act (fun _ h => h) a)) ▸ h.ordered hen
  | poll revents => exact h.ordered hen.1
  | dispatch env =>
    obtain ⟨n, hn⟩ := hopen (h.close.open_of_active hen.2) hen.1
    rcases Io.called_handleEventWithGuard hp with hc | hc | hc
    · exact hc ▸ h.ordered hen.1
    · rw [hn] at hc
      exact hc ▸ .concat_message n
    · rw [hn] at hc
      exact ⟨n, [.down, .closeCallback], hc, .inr (.inr rfl)⟩
  | storeDisconnecting => exact h.ordered hen
  | handleRead ret acts => exact absurd hp id
  | handleWrite ret => exact absurd hp id
  | handleClose acts => exact absurd hp id

theorem ordered_of_reach (h : sys.Reach InTurn k) : k.OrderInv := by
  refine h.invariant (fun k hi => ⟨.of_reach (.init hi), fun _ => ?_, fun he => ?_⟩)
    fun k l k' hI hC hst => hI.step hC hst
  · rw [Io.called, hi.trace]
    rfl
  · rw [hi.established] at he
    cases he

end Conn

/-! ### The connections of a server -/

/-- No dispatch both closes a connection and reads from it. -/
def Policy.Apart (p : Policy) : Prop :=
  ∀ conn env, p.dispatch conn env → ¬ (conn.channel.revents.CloseAndRead ∧ (env .read).read.isOk = true)

/-- User code that does anything, and no such dispatch. -/
def Policy.apart : Policy where
  up _ := True
  down _ := True
  act _ := True
  dispatch conn env := ¬ (conn.channel.revents.CloseAndRead ∧ (env .read).read.isOk = true)

instance : DecidablePred Policy.apart.up := fun _ => .isTrue trivial

instance : DecidablePred Policy.apart.down := fun _ => .isTrue trivial

instance : DecidablePred Policy.apart.act := fun _ => .isTrue trivial

instance (conn : TcpConnection) (env : Io.Callback → Io.CallbackEnv) :
    Decidable (Policy.apart.dispatch conn env) := inferInstanceAs (Decidable (¬ (_ ∧ _)))

theorem Policy.Apart.inTurn {p : Policy} (hp : p.Apart) {k : Conn} {l : Conn.Label}
    (hf : k.Follows p l) : k.InTurn l := by
  cases l with
  | dispatch env => exact hp _ env hf
  | connectDestroyed => exact hf.2
  | connectEstablished | act | poll => trivial
  | sendInLoop | shutdownInLoop | handleRead | handleWrite | handleClose | storeDisconnecting =>
    exact hf.elim

namespace TcpServer

variable {cfg : Config} {p : Policy} {s s' : TcpServer} {l : LoopId} {c : ConnId}
  {t : List (ConnId × Event)}

/-- The removal of a connection, its destruction, and its going down are announced by `closeCallback`. -/
structure Announced (s : TcpServer) (t : List (ConnId × Event)) : Prop where
  reaction : ∀ l, ∀ y ∈ s.reactions l, y ∈ t
  removal : ∀ l c, .removeConnectionInLoop c ∈ (s.queue l).unrun → (c, .closeCallback) ∈ t
  destroy : ∀ l c, .connectDestroyed c ∈ (s.queue l).unrun → (c, .closeCallback) ∈ t
  past : ∀ c, s.destroyed c = true → (c, .closeCallback) ∈ t
  down : ∀ c, (c, .down) ∈ t → (c, .closeCallback) ∈ t

namespace Announced

theorem setQueue (h : Announced s t) {q : TaskQueue Functor}
    (hr : ∀ c, .removeConnectionInLoop c ∈ q.unrun → (c, .closeCallback) ∈ t)
    (hd : ∀ c, .connectDestroyed c ∈ q.unrun → (c, .closeCallback) ∈ t) :
    Announced (s.setQueue l q) t where
  reaction := h.reaction
  removal := forall_setQueue
    (P := fun _ q => ∀ c, .removeConnectionInLoop c ∈ q.unrun → (c, .closeCallback) ∈ t) hr h.removal
  destroy := forall_setQueue
    (P := fun _ q => ∀ c, .connectDestroyed c ∈ q.unrun → (c, .closeCallback) ∈ t) hd h.destroy
  past := h.past
  down := h.down

/-- A queue with fewer tasks. -/
theorem shrink (h : Announced s t) {q : TaskQueue Functor}
    (hq : ∀ f ∈ q.unrun, f ∈ (s.queue l).unrun) : Announced (s.setQueue l q) t :=
  h.setQueue (fun c hm => h.removal l c (hq _ hm)) fun c hm => h.destroy l c (hq _ hm)

theorem push (h : Announced s t) {f : Functor}
    (hr : ∀ c, f = .removeConnectionInLoop c → (c, .closeCallback) ∈ t)
    (hd : ∀ c, f = .connectDestroyed c → (c, .closeCallback) ∈ t) : Announced (s.push l f) t :=
  h.setQueue (fun c hm => (TaskQueue.mem_unrun_push.mp hm).elim (h.removal l c) fun he => hr c he.symm)
    fun c hm => (TaskQueue.mem_unrun_push.mp hm).elim (h.destroy l c) fun he => hd c he.symm

theorem removeConnectionInLoop (h : Announced s t) (hc : (c, .closeCallback) ∈ t) :
    Announced (s.removeConnectionInLoop c) t :=
  push (s := { s with connections := Function.update s.connections (s.nameOf c) none })
    { h with } (by simp) (by simpa using hc)

theorem setReactions (h : Announced s t) {todo : List (ConnId × Event)} (ht : ∀ y ∈ todo, y ∈ t) :
    Announced (s.setReactions l todo) t where
  reaction := forall_update (P := fun _ (todo : List (ConnId × Event)) => ∀ y ∈ todo, y ∈ t) ht
    h.reaction
  removal := h.removal
  destroy := h.destroy
  past := h.past
  down := h.down

theorem react (h : Announced s t) {e : Event} (he : (c, e) ∈ t) : Announced (s.react l c e) t := by
  cases e with
  | closeCallback =>
    simp only [TcpServer.react, removeConnection]
    split
    · exact h.removeConnectionInLoop he
    · exact h.push (by simpa using he) (by simp)
  | writeComplete => exact h.push (by simp) (by simp)
  | highWaterMark size => exact h.push (by simp) (by simp)
  | _ => exact h

/-- A member function whose close, if it goes down, is complete or was announced before. -/
theorem onConn (h : Announced s t) (l : LoopId) (c : ConnId) (f : Io → Io)
    (hd : .down ∈ (f (s.io c)).called → .closeCallback ∈ (f (s.io c)).called ∨
      (c, .closeCallback) ∈ t) :
    Announced (s.onConn l c f) (t ++ (s.onConn l c f).reactions l) := by
  have hre := onConn_reactions s l c f
  have hmem : ∀ {e : Event}, e ∈ (f (s.io c)).trace → (c, e) ∈ (s.onConn l c f).reactions l :=
    fun he => hre ▸ List.mem_map_of_mem he
  have h1 : Announced (s.setIo c (f (s.io c))) (t ++ (s.onConn l c f).reactions l) :=
    { reaction := fun l y hy => List.mem_append_left _ (h.reaction l y hy)
      removal := fun l c hm => List.mem_append_left _ (h.removal l c hm)
      destroy := fun l c hm => List.mem_append_left _ (h.destroy l c hm)
      past := fun c hm => List.mem_append_left _ (h.past c hm)
      down := fun c' hm => by
        rcases List.mem_append.mp hm with hm | hm
        · exact List.mem_append_left _ (h.down c' hm)
        · rw [hre] at hm
          obtain ⟨e, he, heq⟩ := List.mem_map.mp hm
          obtain ⟨rfl, rfl⟩ := Prod.mk.inj heq
          rcases hd (List.mem_filter.mpr ⟨he, rfl⟩) with hc | hc
          · exact List.mem_append_right _ (hmem (List.mem_filter.mp hc).1)
          · exact List.mem_append_left _ hc }
  exact h1.setReactions fun y hy => List.mem_append_right _ (hre ▸ hy)

/-- Nothing goes down in user code. -/
theorem user (h : Announced s t) (l : LoopId) (c : ConnId) (acts : List UserAct) :
    Announced (s.onConn l c (Io.user acts)) (t ++ (s.onConn l c (Io.user acts)).reactions l) := by
  refine h.onConn l c (Io.user acts) fun hm => ?_
  rw [Io.called_user] at hm
  exact absurd hm List.not_mem_nil

theorem connectEstablished (h : Announced s t) (l : LoopId) (c : ConnId) (acts : List UserAct) :
    Announced (s.connectEstablished l c acts) (t ++ (s.connectEstablished l c acts).reactions l) := by
  have h1 := h.onConn l c (Io.connectEstablished acts) fun hm => by
    rw [Io.called_connectEstablished] at hm
    simp [Io.called, TcpServer.io] at hm
  exact { h1 with }

theorem newConnection (h : Announced s t) (hre : s.reactions 0 = []) (fd : ℕ) (highWater : Option ℕ)
    (acts : List UserAct) : Announced (s.newConnection cfg fd highWater acts)
      (t ++ (s.newConnection cfg fd highWater acts).reactions 0) := by
  have h1 : Announced (s.createConnection cfg fd highWater) t := { h with }
  unfold TcpServer.newConnection
  simp only
  split
  · exact h1.connectEstablished 0 s.accepted acts
  · have h2 : Announced ((s.createConnection cfg fd highWater).push (s.getNextLoop cfg).1
        (.connectEstablished s.accepted)) t := h1.push (by simp) (by simp)
    have hre' : ((s.createConnection cfg fd highWater).push (s.getNextLoop cfg).1
        (.connectEstablished s.accepted)).reactions 0 = [] := hre
    rwa [hre', List.append_nil]

theorem callFunctor (h : Announced s t) (hre : s.reactions l = []) {f : Functor}
    (hu : f ∈ (s.queue l).unrun) (ho : f.owns = true) (env : FunctorEnv) :
    Announced (s.callFunctor l env f) (t ++ (s.callFunctor l env f).reactions l) := by
  cases f with
  | connectEstablished c => exact h.connectEstablished l c env.acts
  | connectDestroyed c =>
    have hc := h.destroy l c hu
    have h1 := h.onConn l c (Io.connectDestroyed env.acts) fun _ => .inr hc
    have hpast : ∀ c', Function.update s.destroyed c true c' = true →
        (c', .closeCallback) ∈ t ++ (s.onConn l c (Io.connectDestroyed env.acts)).reactions l :=
      forall_update (P := fun c' d => d = true →
        (c', .closeCallback) ∈ t ++ (s.onConn l c (Io.connectDestroyed env.acts)).reactions l)
        (fun _ => List.mem_append_left _ hc) h1.past
    exact { h1 with past := hpast }
  | removeConnectionInLoop c =>
    have h1 := h.removeConnectionInLoop (h.removal l c hu)
    have hre' : (s.callFunctor l env (.removeConnectionInLoop c)).reactions l = [] := hre
    rw [hre', List.append_nil]
    exact h1
  | writeComplete c | highWaterMark c size => exact h.user l c env.acts
  | sendInLoop c | shutdownInLoop c => exact absurd ho (by simp [Functor.owns])

theorem step (h : Announced s t) (hs : Sound cfg s) {lab : Label} (hob : s.Obeys p lab)
    (hst : TcpServer.step cfg s lab = some s') : Announced s' (t ++ shown s lab s') := by
  have hforeign := hob.loopThreads.1
  have hnil : ∀ {s'}, Announced s' t → Announced s' (t ++ []) := fun h => by rwa [List.append_nil]
  cases move_of_step hst with
  | poll l reports =>
    obtain ⟨r, hr⟩ := fillActiveChannels_eq s l reports
    refine hnil ?_
    rw [hr]
    exact { h with }
  | dispatch l env ptr rest s' _ hre ha hev =>
    have h1 : Announced (s.setActive l rest) t := { h with }
    rcases handleEvent_cases hev with rfl | ⟨rfl, fd, highWater, -, -, rfl⟩ | ⟨c, -, rfl, -, rfl⟩
    · have hre' : shown s (.dispatch l env) (s.setActive l rest) = [] := hre
      rw [hre']
      exact hnil h1
    · have h0 : l = 0 := hs.placed.active l .accept (ha ▸ List.mem_cons_self)
      subst h0
      exact h1.newConnection hre fd highWater env.acts
    · exact h1.onConn l c _ fun hm =>
        .inl (Io.closeCallback_of_down (fun hn => absurd hn List.not_mem_nil) _ hm)
  | react l c e rest hre =>
    have h1 : Announced (s.setReactions l rest) t := h.setReactions fun y hy =>
      h.reaction l y (hre ▸ List.mem_cons_of_mem _ hy)
    exact hnil (h1.react (h.reaction l (c, e) (hre ▸ List.mem_cons_self)))
  | doPendingFunctors l =>
    have h1 : Announced (s.setQueue l (s.queue l).swap) t :=
      h.shrink fun f hf => TaskQueue.unrun_swap_subset _ hf
    exact hnil { h1 with }
  | runFunctor l env f rest _ hre hr =>
    have hu := TaskQueue.mem_unrun_of_rest hr
    have h1 := h.callFunctor hre hu (hs.reg.owns l f (TaskQueue.held_of_unrun hu)) env
    have h2 := h1.shrink (l := l) fun g hg => TaskQueue.unrun_advance_subset _ hg
    exact { h2 with }
  | functorReturn l => exact hnil { h with }
  | endFunctors l =>
    have h1 : Announced (s.setQueue l (s.queue l).finish) t :=
      h.shrink fun f hf => TaskQueue.unrun_finish_subset _ hf
    exact hnil { h1 with }
  | userAct l c a => exact h.user l c [a]
  | keep c => exact hnil { h with }
  | drop c => exact hnil { h with }
  | workerTake | workerTest | workerStore | workerQueue | workerDrop => cases hforeign

theorem start : Announced (TcpServer.start cfg) [] := by
  constructor <;> simp [TcpServer.start, TaskQueue.unrun, TaskQueue.empty]

theorem of_reach {x : TcpServer × List (ConnId × Event)}
    (h : ((sys cfg).logged shown).Reach (fun x => Obeys p x.1) x) :
    Sound cfg x.1 ∧ Announced x.1 x.2 := by
  refine h.invariant (I := fun x => Sound cfg x.1 ∧ Announced x.1 x.2) (fun x hx => ?_)
    fun x lab x' hI hob hst => ?_
  · obtain ⟨hs, ht⟩ := hx
    rw [show x.1 = TcpServer.start cfg from hs, ht]
    exact ⟨.start, .start⟩
  · obtain ⟨s', hst', rfl⟩ := Sys.step_logged.mp hst
    exact ⟨hI.1.step hob.loopThreads hst', hI.2.step hI.1 hob hst'⟩

end Announced

/-- **The life of a connection as the user sees it.**  At every moment of every run of a server: a connection
that has not been established has seen no callback; one that has been has come up, once and before anything
else, then has delivered messages; and either it is still in `connections` and has not been destroyed, or
after the last message it has gone down and has been closed, once each. -/
theorem callback_order (hp : p.Apart) {x : TcpServer × List (ConnId × Event)}
    (h : ((sys cfg).logged shown).Reach (fun x => Obeys p x.1) x) {c : ConnId} (hc : c < x.1.accepted) :
    (x.1.established c = false → (eventsOf c x.2).filter Event.IsCallback = []) ∧
    (x.1.established c = true → ∃ n,
      (eventsOf c x.2).filter Event.IsCallback = .up :: List.replicate n .messageCallback ∧
        x.1.connections (x.1.nameOf c) = some c ∧ x.1.destroyed c = false ∨
      (eventsOf c x.2).filter Event.IsCallback =
        .up :: (List.replicate n .messageCallback ++ [.down, .closeCallback])) := by
  obtain ⟨hs, hann⟩ := Announced.of_reach h
  obtain ⟨k, hk, hview, -⟩ := exists_view h hc
  have hord := Conn.ordered_of_reach (hk.mono fun _ _ hf => hp.inTurn hf)
  have hcalled : k.io.called = (eventsOf c x.2).filter Event.IsCallback := by
    rw [Io.called, hview.trace]
  have hmem : ∀ {e : Event}, e.IsCallback = true → (e ∈ k.io.called ↔ (c, e) ∈ x.2) := by
    intro e he
    rw [hcalled, List.mem_filter, and_iff_left he, mem_eventsOf]
  rw [← hcalled]
  refine ⟨fun he => hord.fresh (hview.established.trans he), fun he => ?_⟩
  obtain ⟨n, fin, hrun, hfin⟩ := hord.ordered (hview.established.trans he)
  by_cases hclose : (c, .closeCallback) ∈ x.2
  · refine ⟨n, .inr ?_⟩
    have hm := (hmem rfl).mpr hclose
    rw [hrun] at hm
    rcases hfin with rfl | rfl | rfl
    · simp at hm
    · simp at hm
    · exact hrun
  · have hdown : .down ∉ k.io.called := fun hm => hclose (hann.down c ((hmem rfl).mp hm))
    obtain ⟨n, hrun⟩ := Ordered.of_not_down ⟨n, fin, hrun, hfin⟩ hdown
    have hlive : x.1.destroyed c = false := Bool.eq_false_iff.mpr fun hd => hclose (hann.past c hd)
    have hkept : x.1.destroying c = false := Bool.eq_false_iff.mpr fun hd =>
      hclose (hann.destroy _ c (TaskQueue.mem_unrun.mpr (.inl (hs.own.last c hc hd hlive))))
    refine ⟨n, .inl ⟨hrun, ?_, hlive⟩⟩
    rcases hs.own.keep c hc hkept with hentry | hq | hq
    · exact hentry
    · exact absurd (hann.removal 0 c hq) hclose
    · exact absurd (hann.destroy _ c (TaskQueue.mem_unrun.mpr (.inr hq))) hclose

/-- A connection whose peer has closed it. -/
theorem callback_order_closed :
    ∃ x : TcpServer × List (ConnId × Event), x.1.connections (x.1.nameOf 0) = none ∧ ∃ n,
      (eventsOf 0 x.2).filter Event.IsCallback =
        .up :: (List.replicate n .messageCallback ++ [.down, .closeCallback]) := by
  obtain ⟨x, hx, hc, hest, hn⟩ :=
    Sys.Reach.exists_of_execIf (M := (sys config).logged shown) (s := (TcpServer.start config, []))
      (C := fun x => Obeys .apart x.1)
      (P := fun x => 0 < x.1.accepted ∧ x.1.established 0 = true ∧
        x.1.connections (x.1.nameOf 0) = none)
      (.init ⟨rfl, rfl⟩) (opening 7 ++ closing 7) (by decide +kernel)
  obtain ⟨n, h⟩ := (callback_order (p := .apart) (fun _ _ h => h) hx hc).2 hest
  rcases h with ⟨-, he, -⟩ | h
  · exact absurd (hn.symm.trans he) (by simp)
  · exact ⟨x, hn, n, h⟩

end TcpServer

end Mymuduo
