import Mymuduo.ServerPlaces

/-!
# Mymuduo.ServerLife — a server from its constructor to the end of its destructor

(`TcpServer.cc`, `EventLoopThreadPool.cc`, `Acceptor.cc`)

The steps of the loops and of the other threads are those of `TcpServer` (`run`).  Around them:

* any thread calls `start()`: the threads of the pool come one after the other, each constructs its
  loop (`startLoop`); then `Acceptor::listen` runs at once or is queued (`listen`, `runListen`);
* the thread of the base loop runs `~TcpServer` (`destroy`), outside `loop()` or in the middle of it:
  it takes the entries of `connections` one after the other, in any order (`closeNext`), then the
  members are destroyed, first `connections` (`closed`), then the pool, which waits for its threads
  (`join`), then the acceptor (`finish`);
* the thread of a sub loop leaves `loop()` and destroys its loop (`endLoop`), after the destructor or
  somebody else has called `quit()`;
* user code calls a function of a connection in the thread of the base loop while that is not in
  `loop()` (`call`).

What the thread of the base loop had still to do when it came to the destructor waits in `after`.
-/

namespace Mymuduo

open Lib

namespace TcpServer

/-- The thread of which loop takes the step. -/
def Label.loop : Label → Option LoopId
  | .poll l _ | .dispatch l _ | .react l | .doPendingFunctors l | .runFunctor l _
  | .functorReturn l | .endFunctors l | .userAct l _ _ => some l
  | _ => none

/-- What may happen inside a callback. -/
def Label.inCallback : Label → Bool
  | .react _ | .userAct .. => true
  | _ => false

def setPoller (l : LoopId) (p : EPollerPoller) (s : TcpServer) : TcpServer :=
  { s with poller := Function.update s.poller l p }

/-- `item.second.reset()`, and `connectDestroyed` in the loop of the connection. -/
def closeConnection (c : ConnId) (acts : List UserAct) (s : TcpServer) : TcpServer :=
  let s := { s with connections := Function.update s.connections (s.nameOf c) none }
  if s.loopOf c = 0 then s.connectDestroyed 0 c acts
  else s.push (s.loopOf c) (.connectDestroyed c)

/-- The connections in `connections`. -/
def entries (s : TcpServer) : List ConnId :=
  (List.range s.accepted).filter fun c => s.connections (s.nameOf c) = some c

end TcpServer

inductive Thread
  | loop (l : LoopId)
  | other (t : ℕ)
  deriving DecidableEq, Repr

/-- How far the server has come. -/
inductive Stage
  | constructed
  | starting (caller : Thread)
  | started
  | closing (todo : List ConnId)
  | joining (next : LoopId)
  | destroyed
  deriving DecidableEq, Repr

/-- `threads` are the loops of the pool that have been constructed, `ended` those that are gone;
`nonblocking` are the descriptors with `O_NONBLOCK`. -/
structure ServerLife where
  server : TcpServer
  stage : Stage
  acceptChannel : Channel
  listenPending : Bool
  threads : ℕ
  ended : LoopId → Bool
  after : List (ConnId × Event)
  nonblocking : ℕ → Bool

namespace ServerLife

variable (cfg : Config)

/-! ### The modes of the descriptors -/

/-- `eventfd` with `EFD_NONBLOCK`. -/
def createEventfd (fd : ℕ) (flags : ℕ → Bool) : ℕ → Bool := Function.update flags fd true

/-- `socket` with `SOCK_NONBLOCK`. -/
def createNonblocking (fd : ℕ) (flags : ℕ → Bool) : ℕ → Bool := Function.update flags fd true

/-- `accept`, which does not hand the flag of the listening socket on. -/
def socketAccept (fd : ℕ) (flags : ℕ → Bool) : ℕ → Bool := Function.update flags fd false

/-! ### The beginning -/

/-- The poller of a new loop. -/
def newLoop (l : LoopId) : EPollerPoller :=
  ((Channel.new (.wakeup l) (cfg.wakeupFd l)).enableReading .new).1

/-- The server after its constructor, next to a base loop. -/
def construct : ServerLife where
  server := { TcpServer.start cfg with
    poller := Function.update (fun _ => .new) 0 (newLoop cfg 0) }
  stage := .constructed
  acceptChannel := .new .accept cfg.listenFd
  listenPending := false
  threads := 0
  ended := fun _ => false
  after := []
  nonblocking := createNonblocking cfg.listenFd (createEventfd (cfg.wakeupFd 0) fun _ => false)

/-- `Acceptor::listen`. -/
def listen (s : ServerLife) : ServerLife :=
  let r := s.acceptChannel.enableReading (s.server.poller 0)
  { s with server := s.server.setPoller 0 r.1, acceptChannel := r.2 }

/-- `~Acceptor`. -/
def destroyAcceptor (s : ServerLife) : ServerLife :=
  let r := s.acceptChannel.disableAll (s.server.poller 0)
  let r := r.2.remove r.1
  { s with server := s.server.setPoller 0 r.1, acceptChannel := r.2 }

/-- The next thread of the pool constructs its loop. -/
def startLoop (s : ServerLife) : ServerLife :=
  let l := s.threads + 1
  { s with
    server := s.server.setPoller l (newLoop cfg l)
    threads := l
    nonblocking := createEventfd (cfg.wakeupFd l) s.nonblocking }

/-- `~EventLoop`: the poller and the pending functors go with it. -/
def endLoop (l : LoopId) (s : ServerLife) : ServerLife :=
  { s with
    server := (s.server.setPoller l .new).setQueue l .empty
    ended := Function.update s.ended l true }

/-! ### The steps -/

inductive Label
  | start (caller : Thread)
  | startLoop
  | listen
  | runListen
  | run (lab : TcpServer.Label)
  | call (c : ConnId) (a : UserAct)
  | endLoop (l : LoopId)
  | destroy (order : List ConnId)
  | closeNext (acts : List UserAct)
  | closed
  | join
  | finish

/-- The thread of the base loop is neither in `start()` nor in the destructor. -/
def BaseFree (s : ServerLife) : Prop :=
  match s.stage with
  | .starting caller => caller ≠ .loop 0
  | .closing _ | .joining _ => False
  | _ => True

instance (s : ServerLife) : Decidable s.BaseFree := by unfold BaseFree; split <;> infer_instance

/-- The thread of the base loop calls the destructor, and may be in a callback. -/
def Closing (s : ServerLife) : Prop :=
  match s.stage with
  | .closing _ => True
  | _ => False

instance (s : ServerLife) : Decidable s.Closing := by unfold Closing; split <;> infer_instance

/-- The thread that takes the step exists, and is not busy with the server. -/
def Runs (s : ServerLife) (lab : TcpServer.Label) : Prop :=
  match lab.loop with
  | none => True
  | some 0 => s.BaseFree ∨ s.Closing ∧ lab.inCallback = true
  | some (l + 1) => l < s.threads ∧ s.ended (l + 1) = false

instance (s : ServerLife) (lab : TcpServer.Label) : Decidable (s.Runs lab) := by
  unfold Runs; split <;> infer_instance

/-- `epoll_wait` is called after everything else has been done. -/
def Idle (s : ServerLife) : TcpServer.Label → Prop
  | .poll l _ => s.server.reactions l = []
  | _ => True

instance (s : ServerLife) (lab : TcpServer.Label) : Decidable (s.Idle lab) :=
  match lab with
  | .poll l _ => decidable_of_iff ((s.server.reactions l).isEmpty = true) List.isEmpty_iff
  | .dispatch .. | .react _ | .doPendingFunctors _ | .runFunctor .. | .functorReturn _
  | .endFunctors _ | .userAct .. | .keep _ | .drop _ | .workerTake .. | .workerTest .. | .workerStore _
  | .workerQueue _ | .workerDrop _ => .isTrue trivial

/-- The server after a step, with the mode of the descriptor it may have accepted. -/
def setServer (server : TcpServer) (s : ServerLife) : ServerLife :=
  { s with
    server := server
    nonblocking :=
      if server.accepted = s.server.accepted then s.nonblocking
      else socketAccept (server.conn s.server.accepted).channel.fd s.nonblocking }

def step (s : ServerLife) : Label → Option ServerLife
  | .start caller =>
    if s.stage = .constructed then some { s with stage := .starting caller } else none
  | .startLoop =>
    match s.stage with
    | .starting _ => if s.threads < cfg.numThreads then some (s.startLoop cfg) else none
    | _ => none
  | .listen =>
    match s.stage with
    | .starting caller =>
      if s.threads = cfg.numThreads then
        some (if caller = .loop 0 then { s.listen with stage := .started }
          else { s with stage := .started, listenPending := true })
      else none
    | _ => none
  | .runListen =>
    if s.listenPending = true ∧ s.BaseFree ∧ s.server.phase 0 = .functors ∧
        s.server.reactions 0 = [] then
      some { s.listen with listenPending := false }
    else none
  | .run lab =>
    if s.Runs lab ∧ s.Idle lab then
      (TcpServer.step cfg s.server lab).map fun server => s.setServer server
    else none
  | .call c a =>
    if (s.BaseFree ∨ s.Closing) ∧ s.server.phase 0 = .poll ∧ s.server.reactions 0 = [] ∧
        c < s.server.accepted ∧ s.server.loopOf c = 0 ∧ s.server.Held cfg c then
      some { s with server := s.server.onConn 0 c fun io => io.act a }
    else none
  | .endLoop l =>
    if 0 < l ∧ l ≤ s.threads ∧ s.ended l = false ∧ s.server.phase l = .poll ∧
        s.server.reactions l = [] then
      some (s.endLoop l)
    else none
  | .destroy order =>
    if (s.stage = .constructed ∨ s.stage = .started) ∧ order.Perm s.server.entries then
      some { s with
        server := s.server.setReactions 0 []
        stage := .closing order
        after := s.server.reactions 0 }
    else none
  | .closeNext acts =>
    match s.stage, s.server.reactions 0 with
    | .closing (c :: todo), [] =>
      some { s with server := s.server.closeConnection c acts, stage := .closing todo }
    | _, _ => none
  | .closed =>
    match s.stage, s.server.reactions 0 with
    | .closing [], [] => some { s with stage := .joining 1 }
    | _, _ => none
  | .join =>
    match s.stage with
    | .joining l =>
      if l ≤ s.threads ∧ s.ended l = true then some { s with stage := .joining (l + 1) } else none
    | _ => none
  | .finish =>
    match s.stage with
    | .joining l =>
      if s.threads < l then
        some { s.destroyAcceptor with
          server := s.destroyAcceptor.server.setReactions 0 s.after
          stage := .destroyed }
      else none
    | _ => none

/-- All runs, from the constructor of the server on. -/
def sys : Sys ServerLife Label where
  init s := s = construct cfg
  step := step cfg

/-! ### What a step can do -/

/-- What one step does: `step` as a relation, with the guard of each label. -/
inductive Move (s : ServerLife) : Label → ServerLife → Prop
  | start (caller : Thread) : s.stage = .constructed →
      Move s (.start caller) { s with stage := .starting caller }
  | startLoop (caller : Thread) : s.stage = .starting caller → s.threads < cfg.numThreads →
      Move s .startLoop (s.startLoop cfg)
  | listen : s.stage = .starting (.loop 0) → s.threads = cfg.numThreads →
      Move s .listen { s.listen with stage := .started }
  | queueListen (caller : Thread) : s.stage = .starting caller → caller ≠ .loop 0 →
      s.threads = cfg.numThreads →
      Move s .listen { s with stage := .started, listenPending := true }
  | runListen : s.listenPending = true → s.BaseFree → s.server.phase 0 = .functors →
      s.server.reactions 0 = [] → Move s .runListen { s.listen with listenPending := false }
  | run (lab : TcpServer.Label) (server : TcpServer) : s.Runs lab → s.Idle lab →
      TcpServer.step cfg s.server lab = some server → Move s (.run lab) (s.setServer server)
  | call (c : ConnId) (a : UserAct) : s.BaseFree ∨ s.Closing → s.server.phase 0 = .poll →
      s.server.reactions 0 = [] → c < s.server.accepted → s.server.loopOf c = 0 →
      s.server.Held cfg c →
      Move s (.call c a) { s with server := s.server.onConn 0 c fun io => io.act a }
  | endLoop (l : LoopId) : 0 < l → l ≤ s.threads → s.ended l = false → s.server.phase l = .poll →
      s.server.reactions l = [] → Move s (.endLoop l) (s.endLoop l)
  | destroy (order : List ConnId) : s.stage = .constructed ∨ s.stage = .started →
      order.Perm s.server.entries →
      Move s (.destroy order) { s with
        server := s.server.setReactions 0 []
        stage := .closing order
        after := s.server.reactions 0 }
  | closeNext (c : ConnId) (todo : List ConnId) (acts : List UserAct) :
      s.stage = .closing (c :: todo) → s.server.reactions 0 = [] →
      Move s (.closeNext acts)
        { s with server := s.server.closeConnection c acts, stage := .closing todo }
  | closed : s.stage = .closing [] → s.server.reactions 0 = [] →
      Move s .closed { s with stage := .joining 1 }
  | join (l : LoopId) : s.stage = .joining l → l ≤ s.threads → s.ended l = true →
      Move s .join { s with stage := .joining (l + 1) }
  | finish (l : LoopId) : s.stage = .joining l → s.threads < l →
      Move s .finish { s.destroyAcceptor with
        server := s.destroyAcceptor.server.setReactions 0 s.after
        stage := .destroyed }

section Cases

variable {cfg} {s s' : ServerLife}

theorem move_of_step {lab : Label} (h : step cfg s lab = some s') : Move cfg s lab s' := by
  cases lab with
  | start caller =>
    obtain ⟨hs, rfl⟩ := of_guard h
    exact .start caller hs
  | startLoop =>
    simp only [step] at h
    split at h
    next caller hs =>
      obtain ⟨ht, rfl⟩ := of_guard h
      exact .startLoop caller hs ht
    next => cases h
  | listen =>
    simp only [step] at h
    split at h
    next caller hs =>
      obtain ⟨ht, rfl⟩ := of_guard h
      by_cases hc : caller = .loop 0
      · rw [if_pos hc]
        exact .listen (hc ▸ hs) ht
      · rw [if_neg hc]
        exact .queueListen caller hs hc ht
    next => cases h
  | runListen =>
    obtain ⟨⟨hl, hb, hp, hr⟩, rfl⟩ := of_guard h
    exact .runListen hl hb hp hr
  | run lab =>
    simp only [step] at h
    split at h
    next hg =>
      obtain ⟨server, hs, rfl⟩ := Option.map_eq_some_iff.mp h
      exact .run lab server hg.1 hg.2 hs
    next => cases h
  | call c a =>
    obtain ⟨⟨hb, hp, hr, hc, hl, hh⟩, rfl⟩ := of_guard h
    exact .call c a hb hp hr hc hl hh
  | endLoop l =>
    obtain ⟨⟨h0, hl, he, hp, hr⟩, rfl⟩ := of_guard h
    exact .endLoop l h0 hl he hp hr
  | destroy order =>
    obtain ⟨⟨hs, ho⟩, rfl⟩ := of_guard h
    exact .destroy order hs ho
  | closeNext acts =>
    simp only [step] at h
    split at h
    next c todo hs hr => exact Option.some.inj h ▸ .closeNext c todo acts hs hr
    next => cases h
  | closed =>
    simp only [step] at h
    split at h
    next hs hr => exact Option.some.inj h ▸ .closed hs hr
    next => cases h
  | join =>
    simp only [step] at h
    split at h
    next l hs =>
      obtain ⟨⟨hl, he⟩, rfl⟩ := of_guard h
      exact .join l hs hl he
    next => cases h
  | finish =>
    simp only [step] at h
    split at h
    next l hs =>
      obtain ⟨hl, rfl⟩ := of_guard h
      exact .finish l hs hl
    next => cases h

end Cases

/-! ### What is registered, from the constructor to the end -/

section Defs

variable (s : ServerLife)

/-- The channels that are registered and are not those of connections. -/
def Fixed (l : LoopId) (fd : ℕ) : ChannelPtr → Prop
  | .wakeup _ => l ≤ s.threads ∧ fd = cfg.wakeupFd l
  | .accept => fd = cfg.listenFd ∧ s.acceptChannel.index = .kAdded
  | .conn _ => True

structure Inv : Prop where
  placed : s.server.Placed cfg (s.Fixed cfg)
  accept : s.acceptChannel.this = .accept ∧ s.acceptChannel.fd = cfg.listenFd
  after : ∀ x ∈ s.after, x.1 < s.server.accepted
  todo : ∀ todo, s.stage = .closing todo → ∀ c ∈ todo, c < s.server.accepted
  threads : s.threads ≤ cfg.numThreads

end Defs

variable {cfg} {s s' : ServerLife}

theorem epoll_newLoop {l : LoopId} {fd : ℕ} {m : Events} {ptr : ChannelPtr}
    (h : (newLoop cfg l).epoll fd = some (m, ptr)) : fd = cfg.wakeupFd l ∧ ptr = .wakeup l := by
  rcases (EPollerPoller.epoll_updateChannel h).1 with h | h
  · cases h
  · exact h

/-- The poller of one loop is another one; no connection is registered that was not before. -/
theorem placed_setPoller {F G : LoopId → ℕ → ChannelPtr → Prop} {s : TcpServer} {l : LoopId}
    {p : EPollerPoller} (h : s.Placed cfg F)
    (hconn : ∀ fd m c, p.epoll fd = some (m, .conn c) → (s.poller l).epoll fd = some (m, .conn c))
    (hfix : ∀ fd m ptr, (∀ c, ptr ≠ .conn c) → p.epoll fd = some (m, ptr) →
      s.Home l ptr ∧ G l fd ptr)
    (hother : ∀ l' ≠ l, ∀ fd ptr, s.Home l' ptr → F l' fd ptr → G l' fd ptr) :
    (s.setPoller l p).Placed cfg G := by
  have hself : (s.setPoller l p).poller l = p := Function.update_self ..
  have hne : ∀ l' ≠ l, (s.setPoller l p).poller l' = s.poller l' := fun l' hn =>
    Function.update_of_ne hn ..
  refine { h with entry := fun l' fd m ptr he => ?_ }
  by_cases hl : l' = l
  · subst hl
    rw [hself] at he
    cases ptr with
    | conn c => exact h.entry l' fd m _ (hconn fd m c he)
    | accept => exact hfix fd m _ (by simp) he
    | wakeup l'' => exact hfix fd m _ (by simp) he
  · rw [hne l' hl] at he
    obtain ⟨hhome, hunder⟩ := h.entry l' fd m ptr he
    refine ⟨hhome, ?_⟩
    cases ptr with
    | conn c => exact hunder
    | accept => exact hother l' hl fd _ hhome hunder
    | wakeup l'' => exact hother l' hl fd _ hhome hunder

theorem Inv.construct : (construct cfg).Inv cfg := by
  refine ⟨⟨?_, ?_, ?_, ?_, ?_, ?_, fun l fd m ptr he => ?_, ?_⟩, ⟨rfl, rfl⟩, ?_, ?_, Nat.zero_le _⟩
  case refine_7 =>
    by_cases hl : l = 0
    · subst hl
      obtain ⟨rfl, rfl⟩ := epoll_newLoop (he : (newLoop cfg 0).epoll fd = some (m, ptr))
      exact ⟨rfl, Nat.zero_le _, rfl⟩
    · change (Function.update (fun _ => EPollerPoller.new) 0 (newLoop cfg 0) l).epoll fd = _ at he
      rw [Function.update_of_ne hl] at he
      cases he
  all_goals
    simp [ServerLife.construct, TcpServer.start, TaskQueue.unrun, TaskQueue.empty, Worker.conn]

/-- What the acceptor registers is its own channel. -/
theorem Inv.listen (h : s.Inv cfg) : s.listen.Inv cfg := by
  obtain ⟨hthis, hfd⟩ := h.accept
  have hthis' : s.listen.acceptChannel.this = .accept :=
    (Channel.updateChannel_this _ _).trans hthis
  have hfd' : s.listen.acceptChannel.fd = cfg.listenFd := (Channel.updateChannel_fd _ _).trans hfd
  refine ⟨placed_setPoller h.placed (fun fd m c he => ?_) (fun fd m ptr hn he => ?_)
    fun l' hl fd ptr hhome hF => ?_, ⟨hthis', hfd'⟩, h.after, h.todo, h.threads⟩
  · rcases (EPollerPoller.epoll_updateChannel he).1 with he | ⟨-, hp⟩
    · exact he
    · exact absurd (hp.trans hthis) (by simp)
  · obtain ⟨hor, hidx⟩ := EPollerPoller.epoll_updateChannel he
    rcases hor with he | ⟨hd, hp⟩
    · obtain ⟨hhome, hunder⟩ := h.placed.entry 0 fd m ptr he
      refine ⟨hhome, ?_⟩
      cases ptr with
      | wakeup l => exact hunder
      | accept => exact ⟨hunder.1, hidx (hunder.1.trans hfd.symm)⟩
      | conn c => exact absurd rfl (hn c)
    · obtain rfl : ptr = .accept := hp.trans hthis
      exact ⟨rfl, hd.trans hfd, hidx hd⟩
  · cases ptr with
    | accept => exact absurd hhome hl
    | _ => exact hF

/-- After the acceptor nothing is registered with its channel. -/
theorem Inv.destroyAcceptor (h : s.Inv cfg) : s.destroyAcceptor.Inv cfg := by
  obtain ⟨hthis, hfd⟩ := h.accept
  have hthis' : s.destroyAcceptor.acceptChannel.this = .accept :=
    (Channel.updateChannel_this _ _).trans hthis
  have hfd' : s.destroyAcceptor.acceptChannel.fd = cfg.listenFd :=
    (Channel.updateChannel_fd _ _).trans hfd
  have hold : ∀ fd m ptr, (s.destroyAcceptor.server.poller 0).epoll fd = some (m, ptr) →
      (s.server.poller 0).epoll fd = some (m, ptr) ∧ fd ≠ cfg.listenFd := by
    intro fd m ptr he
    obtain ⟨he, hne⟩ := EPollerPoller.epoll_removeChannel he
    obtain ⟨hor, hidx⟩ := EPollerPoller.epoll_updateChannel he
    have hd : fd ≠ cfg.listenFd := fun hd =>
      hne (hd.trans hfd'.symm) (hidx (hd.trans hfd.symm))
    exact ⟨hor.resolve_right fun hp => hd (hp.1.trans hfd), hd⟩
  refine ⟨placed_setPoller h.placed (fun fd m c he => (hold fd m _ he).1)
    (fun fd m ptr hn he => ?_) fun l' hl fd ptr hhome hF => ?_, ⟨hthis', hfd'⟩, h.after, h.todo, h.threads⟩
  · obtain ⟨he, hd⟩ := hold fd m ptr he
    obtain ⟨hhome, hunder⟩ := h.placed.entry 0 fd m ptr he
    refine ⟨hhome, ?_⟩
    cases ptr with
    | wakeup l => exact hunder
    | accept => exact absurd hunder.1 hd
    | conn c => exact absurd rfl (hn c)
  · cases ptr with
    | accept => exact absurd hhome hl
    | _ => exact hF

theorem Inv.startLoop (h : s.Inv cfg) (ht : s.threads < cfg.numThreads) :
    (s.startLoop cfg).Inv cfg := by
  refine ⟨placed_setPoller h.placed (fun fd m c he => ?_) (fun fd m ptr _ he => ?_)
    fun l' _ fd ptr _ hF => ?_, h.accept, h.after, h.todo, ht⟩
  · obtain ⟨-, hp⟩ := epoll_newLoop he
    cases hp
  · obtain ⟨rfl, rfl⟩ := epoll_newLoop he
    exact ⟨rfl, le_rfl, rfl⟩
  · cases ptr with
    | wakeup l => exact ⟨Nat.le_succ_of_le hF.1, hF.2⟩
    | _ => exact hF

theorem Inv.endLoop (h : s.Inv cfg) (l : LoopId) : (s.endLoop l).Inv cfg := by
  have h1 : (s.server.setPoller l .new).Placed cfg (s.Fixed cfg) :=
    placed_setPoller h.placed (fun _ _ _ he => by cases he) (fun _ _ _ _ he => by cases he)
      fun _ _ _ _ _ hF => hF
  exact ⟨h1.shrink (l := l) (q := .empty) fun f hf => (List.not_mem_nil hf).elim, h.accept, h.after,
    h.todo, h.threads⟩

theorem placed_closeConnection {F : LoopId → ℕ → ChannelPtr → Prop} {s : TcpServer}
    (h : s.Placed cfg F) {c : ConnId} (hc : c < s.accepted) (acts : List UserAct) :
    (s.closeConnection c acts).Placed cfg F := by
  have h1 : ({ s with connections := Function.update s.connections (s.nameOf c) none } :
      TcpServer).Placed cfg F := { h with }
  unfold TcpServer.closeConnection
  simp only
  split
  next => exact h1.connectDestroyed hc acts
  next => exact h1.push (f := .connectDestroyed c) hc (by simp)

theorem extends_closeConnection (s : TcpServer) (c : ConnId) (acts : List UserAct) :
    s.Extends (s.closeConnection c acts) := by
  unfold TcpServer.closeConnection
  simp only
  split
  · have h1 := TcpServer.Extends.onConn
      (s := { s with connections := Function.update s.connections (s.nameOf c) none }) (c := c) 0
      ((Io.Steps.refl _).connectDestroyed acts)
    exact { h1 with }
  · exact .of_eq rfl rfl fun _ => rfl

theorem accepted_closeConnection (s : TcpServer) (c : ConnId) (acts : List UserAct) :
    (s.closeConnection c acts).accepted = s.accepted := by
  unfold TcpServer.closeConnection
  simp only
  split <;> rfl

/-- **Everything stays in its place** while a server starts, runs and is destroyed. -/
theorem Inv.step (h : s.Inv cfg) {lab : Label} (hst : step cfg s lab = some s') : s'.Inv cfg := by
  cases move_of_step hst with
  | start caller => exact ⟨h.placed, h.accept, h.after, by simp, h.threads⟩
  | startLoop caller hs ht => exact h.startLoop ht
  | listen => exact ⟨h.listen.placed, h.listen.accept, h.after, by simp, h.threads⟩
  | queueListen caller => exact ⟨h.placed, h.accept, h.after, by simp, h.threads⟩
  | runListen => exact ⟨h.listen.placed, h.listen.accept, h.after, h.todo, h.threads⟩
  | run lab server _ _ hs =>
    have hacc := (TcpServer.extends_of_step hs).accepted
    exact ⟨h.placed.step hs, h.accept, fun x hx => (h.after x hx).trans_le hacc,
      fun todo ht c hc => (h.todo todo ht c hc).trans_le hacc, h.threads⟩
  | call c a _ _ _ hc => exact ⟨h.placed.user hc [a], h.accept, h.after, h.todo, h.threads⟩
  | endLoop l => exact h.endLoop l
  | destroy order _ ho =>
    refine ⟨h.placed.setReactions [] (by simp), h.accept, h.placed.reaction 0, fun todo ht c hc => ?_,
      h.threads⟩
    obtain rfl := Stage.closing.inj ht
    have hm := (List.mem_filter.mp (ho.mem_iff.mp hc)).1
    exact List.mem_range.mp hm
  | closeNext c todo acts hs =>
    have hc : c < s.server.accepted := h.todo _ hs c List.mem_cons_self
    have hacc := accepted_closeConnection s.server c acts
    refine ⟨placed_closeConnection h.placed hc acts, h.accept, fun x hx => ?_, fun todo' ht c' hc' => ?_,
      h.threads⟩
    · show x.1 < (s.server.closeConnection c acts).accepted
      rw [hacc]
      exact h.after x hx
    · obtain rfl := Stage.closing.inj ht
      show c' < (s.server.closeConnection c acts).accepted
      rw [hacc]
      exact h.todo _ hs c' (List.mem_cons_of_mem _ hc')
  | closed => exact ⟨h.placed, h.accept, h.after, by simp, h.threads⟩
  | join l => exact ⟨h.placed, h.accept, h.after, by simp, h.threads⟩
  | finish l =>
    have h1 := h.destroyAcceptor
    exact ⟨h1.placed.setReactions _ h.after, h1.accept, h.after, by simp, h.threads⟩

theorem inv_of_reach {C : ServerLife → Label → Prop} (h : (sys cfg).Reach C s) : s.Inv cfg :=
  h.invariant (fun _ hs => hs ▸ .construct) fun _ _ _ hi _ hst => hi.step hst

/-! ### A server that starts -/

theorem exec_startLoop (n : ℕ) (s : ServerLife) {caller : Thread} (hs : s.stage = .starting caller)
    (hn : s.threads + n ≤ cfg.numThreads) :
    ∃ s', (sys cfg).exec s (List.replicate n .startLoop) = some s' ∧
      s'.stage = .starting caller ∧ s'.threads = s.threads + n ∧
      s'.acceptChannel = s.acceptChannel ∧
      s'.server = { s.server with poller := fun l =>
        if s.threads < l ∧ l ≤ s.threads + n then newLoop cfg l else s.server.poller l } := by
  induction n generalizing s with
  | zero =>
    refine ⟨s, rfl, hs, rfl, rfl, ?_⟩
    have hp : ∀ l, (if s.threads < l ∧ l ≤ s.threads + 0 then newLoop cfg l else s.server.poller l) =
        s.server.poller l := fun l => if_neg (by omega)
    simp only [hp]
  | succ n ih =>
    have hstep : (sys cfg).step s .startLoop = some (s.startLoop cfg) := by
      show ServerLife.step cfg s .startLoop = _
      simp only [step, hs]
      rw [if_pos (by omega)]
    have hthreads : (s.startLoop cfg).threads = s.threads + 1 := rfl
    obtain ⟨s', he, hst, ht, ha, hsv⟩ := ih (s.startLoop cfg) hs (by omega)
    refine ⟨s', ?_, hst, by omega, ha, hsv.trans ?_⟩
    · rw [List.replicate_succ]
      exact Sys.exec_cons_eq_some.mpr ⟨_, hstep, he⟩
    · have hp : ∀ l, (if s.threads + 1 < l ∧ l ≤ s.threads + 1 + n then newLoop cfg l
          else Function.update s.server.poller (s.threads + 1) (newLoop cfg (s.threads + 1)) l) =
          if s.threads < l ∧ l ≤ s.threads + (n + 1) then newLoop cfg l else s.server.poller l := by
        intro l
        by_cases hl : l = s.threads + 1
        · subst hl
          rw [if_neg (by omega), if_pos (by omega), Function.update_self]
        · rw [Function.update_of_ne hl]
          by_cases hin : s.threads < l ∧ l ≤ s.threads + (n + 1)
          · rw [if_pos hin, if_pos (by omega)]
          · rw [if_neg hin, if_neg (by omega)]
      exact congrArg (fun p => { s.server with poller := p }) (funext hp)

/-- **The server that listens.**  When `start()` has been called in the thread of the base loop, the
server is in the initial state of `TcpServer.sys`. -/
theorem exec_start : ∃ s, (sys cfg).exec (construct cfg)
    (.start (.loop 0) :: (List.replicate cfg.numThreads .startLoop ++ [.listen])) = some s ∧
      s.stage = .started ∧ s.server = TcpServer.start cfg := by
  obtain ⟨s, he, hst, ht, ha, hsv⟩ := exec_startLoop cfg.numThreads
    { construct cfg with stage := .starting (.loop 0) } rfl (Nat.zero_add _).le
  have ht : s.threads = cfg.numThreads := ht.trans (Nat.zero_add _)
  have hlisten : (sys cfg).exec s [.listen] = some { s.listen with stage := .started } := by
    show (ServerLife.step cfg s .listen).bind some = _
    simp only [step, hst, if_pos ht, if_true]
    rfl
  refine ⟨_, Sys.exec_cons_eq_some.mpr ⟨_, rfl, Sys.exec_append_eq_some he hlisten⟩, rfl, ?_⟩
  have hp : ∀ l, Function.update s.server.poller 0
      (s.acceptChannel.enableReading (s.server.poller 0)).1 l =
        if l ≤ cfg.numThreads then TcpServer.startPoller cfg l else .new := by
    intro l
    rw [ha, hsv]
    by_cases hl : l = 0
    · subst hl
      rfl
    · rw [Function.update_of_ne hl]
      show (if 0 < l ∧ l ≤ 0 + cfg.numThreads then newLoop cfg l
        else Function.update (fun _ => EPollerPoller.new) 0 (newLoop cfg 0) l) = _
      by_cases hin : l ≤ cfg.numThreads
      · rw [if_pos ⟨Nat.pos_of_ne_zero hl, by simpa using hin⟩, if_pos hin]
        simp only [TcpServer.startPoller, if_neg hl]
        rfl
      · rw [if_neg fun h => hin (by simpa using h.2), if_neg hin, Function.update_of_ne hl]
  show s.server.setPoller 0 (s.acceptChannel.enableReading (s.server.poller 0)).1 = _
  unfold TcpServer.setPoller
  rw [funext hp, hsv]
  rfl

/-- A server with one sub loop that has accepted a connection with the descriptor 7. -/
def opened : List Label :=
  [.start (.loop 0), .startLoop, .listen] ++ (TcpServer.opening 7).map .run

end ServerLife

end Mymuduo
