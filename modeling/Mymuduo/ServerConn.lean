import Mymuduo.ConnLocal
import Mymuduo.ConnRun
import Mymuduo.Lib.Simulation
import Mymuduo.ServerSound

/-!
# Mymuduo.ServerConn — every connection of a server is a connection that runs on its own

In the runs of a server in which the functions of a connection are called by the thread of its loop, each
connection takes the steps of `Conn` and no others, whatever the other connections, the loops and the
queues do in between (`connection_run`).  So what holds of all runs of one connection holds of every
connection of a server.

* `shown` are the events of the member function that a step calls; `Sys.logged` keeps them all;
* `Policy` says what user code does, on the level of the server (`Follows`) and of the connection
  (`Conn.Follows`);
* `View c` relates the server and its history to the connection on its own.
-/

namespace Mymuduo

open Lib

/-! ### What a step shows -/

/-- The events of the connection `c`, out of those of all connections. -/
def eventsOf (c : ConnId) (hist : List (ConnId × Event)) : List Event :=
  (hist.filter fun x => x.1 = c).map Prod.snd

@[simp] theorem eventsOf_nil (c : ConnId) : eventsOf c [] = [] := rfl

@[simp] theorem eventsOf_append (c : ConnId) (h h' : List (ConnId × Event)) :
    eventsOf c (h ++ h') = eventsOf c h ++ eventsOf c h' := by
  simp [eventsOf]

theorem mem_eventsOf {c : ConnId} {h : List (ConnId × Event)} {e : Event} :
    e ∈ eventsOf c h ↔ (c, e) ∈ h := by
  simp [eventsOf]

theorem eventsOf_self (c : ConnId) (evs : List Event) :
    eventsOf c (evs.map fun e => (c, e)) = evs := by
  induction evs with
  | nil => rfl
  | cons e evs ih => simpa [eventsOf] using ih

theorem eventsOf_of_ne {c c' : ConnId} (hn : c' ≠ c) (evs : List Event) :
    eventsOf c (evs.map fun e => (c', e)) = [] := by
  simp [eventsOf, List.filter_map, hn]

/-! ### What user code does -/

/-- `up` and `down` are the bodies of `connectionCallback` in `connectEstablished` and `connectDestroyed`,
`dispatch` is what the callbacks of one dispatch on a connection meet and call, `act` are the calls made
elsewhere. -/
structure Policy where
  up : List UserAct → Prop
  down : List UserAct → Prop
  act : UserAct → Prop
  dispatch : TcpConnection → (Io.Callback → Io.CallbackEnv) → Prop

/-- User code that does anything. -/
def Policy.any : Policy := ⟨fun _ => True, fun _ => True, fun _ => True, fun _ _ => True⟩

instance : DecidablePred Policy.any.up := fun _ => .isTrue trivial

instance : DecidablePred Policy.any.down := fun _ => .isTrue trivial

instance : DecidablePred Policy.any.act := fun _ => .isTrue trivial

instance (conn : TcpConnection) (env : Io.Callback → Io.CallbackEnv) :
    Decidable (Policy.any.dispatch conn env) := .isTrue trivial

/-- The loop thread takes the steps of a connection, with user code that follows the policy;
`connectDestroyed` is a functor, which runs when every active channel has been dispatched. -/
def Conn.Follows (p : Policy) (k : Conn) : Conn.Label → Prop
  | .connectEstablished acts => p.up acts
  | .connectDestroyed acts => p.down acts ∧ k.active = false
  | .act a => p.act a
  | .dispatch env => p.dispatch k.io.conn env
  | .poll _ => True
  | .sendInLoop .. | .shutdownInLoop | .handleRead .. | .handleWrite _ | .handleClose _
  | .storeDisconnecting => False

namespace TcpServer

variable {cfg : Config} {s s' : TcpServer} {l : LoopId} {c : ConnId}

/-- The events of the member function that the step calls. -/
def shown (_ : TcpServer) (lab : Label) (s' : TcpServer) : List (ConnId × Event) :=
  match lab with
  | .dispatch l _ | .runFunctor l _ | .userAct l .. => s'.reactions l
  | _ => []

/-- epoll reports of a descriptor what it is registered for, errors and hang-ups. -/
def Faithful (s : TcpServer) : Label → Prop
  | .poll l reports => ∀ x ∈ reports, ∀ y ∈ (s.poller l).epoll x.1, y.1.Reportable x.2
  | _ => True

instance (s : TcpServer) (lab : Label) : Decidable (s.Faithful lab) :=
  match lab with
  | .poll l reports =>
    inferInstanceAs (Decidable (∀ x ∈ reports, ∀ y ∈ (s.poller l).epoll x.1, y.1.Reportable x.2))
  | .dispatch .. | .react _ | .doPendingFunctors _ | .runFunctor .. | .functorReturn _
  | .endFunctors _ | .userAct .. | .keep _ | .drop _ | .workerTake .. | .workerTest ..
  | .workerStore _ | .workerQueue _ | .workerDrop _ => .isTrue trivial

/-- The user code that a step runs follows the policy. -/
def Follows (p : Policy) (s : TcpServer) : Label → Prop
  | .dispatch l env =>
    match s.active l with
    | .conn c :: _ => p.dispatch (s.conn c) env.callbacks
    | _ => p.up env.acts
  | .runFunctor l env =>
    match (s.queue l).rest with
    | .connectEstablished _ :: _ => p.up env.acts
    | .connectDestroyed _ :: _ => p.down env.acts
    | _ => ∀ a ∈ env.acts, p.act a
  | .userAct _ _ a => p.act a
  | _ => True

instance (p : Policy) [DecidablePred p.up] [DecidablePred p.down] [DecidablePred p.act]
    [∀ conn env, Decidable (p.dispatch conn env)] (s : TcpServer) (lab : Label) :
    Decidable (s.Follows p lab) :=
  match lab with
  | .dispatch l env =>
    match h : s.active l with
    | .conn c :: _ => decidable_of_iff (p.dispatch (s.conn c) env.callbacks) (by rw [Follows, h])
    | [] | .wakeup _ :: _ | .accept :: _ => decidable_of_iff (p.up env.acts) (by rw [Follows, h])
  | .runFunctor l env =>
    match h : (s.queue l).rest with
    | .connectEstablished _ :: _ => decidable_of_iff (p.up env.acts) (by rw [Follows, h])
    | .connectDestroyed _ :: _ => decidable_of_iff (p.down env.acts) (by rw [Follows, h])
    | [] | .removeConnectionInLoop _ :: _ | .writeComplete _ :: _ | .highWaterMark .. :: _
    | .sendInLoop _ :: _ | .shutdownInLoop _ :: _ =>
      decidable_of_iff (∀ a ∈ env.acts, p.act a) (by rw [Follows, h])
  | .userAct _ _ a => inferInstanceAs (Decidable (p.act a))
  | .poll .. | .react _ | .doPendingFunctors _ | .functorReturn _ | .endFunctors _ | .keep _ | .drop _
  | .workerTake .. | .workerTest .. | .workerStore _ | .workerQueue _ | .workerDrop _ => .isTrue trivial

/-- The steps of a server whose connections are called by the threads of their loops only. -/
structure Obeys (p : Policy) (s : TcpServer) (lab : Label) : Prop where
  loopThreads : s.LoopThreads lab
  faithful : s.Faithful lab
  follows : s.Follows p lab

instance (p : Policy) (s : TcpServer) (lab : Label) [Decidable (s.Follows p lab)] :
    Decidable (s.Obeys p lab) :=
  decidable_of_iff (s.LoopThreads lab ∧ s.Faithful lab ∧ s.Follows p lab)
    ⟨fun ⟨h1, h2, h3⟩ => ⟨h1, h2, h3⟩, fun h => ⟨h.loopThreads, h.faithful, h.follows⟩⟩

/-! ### Each connection on its own -/

/-- `k` is the connection `c` of the server on its own, with all that it has shown. -/
structure View (c : ConnId) (x : TcpServer × List (ConnId × Event)) (k : Conn) : Prop where
  conn : k.io.conn = x.1.conn c
  trace : k.io.trace = eventsOf c x.2
  established : k.established = x.1.established c
  active : k.active = true ↔ .conn c ∈ x.1.active (x.1.loopOf c)

end TcpServer

namespace Conn

variable {D : Conn → Label → Prop} {k : Conn}

theorem coherent_of_reach (h : sys.Reach D k) : Coherent k.io.poller k.io.conn.channel := by
  refine h.invariant (fun s hi => hi.coherent) fun s lab s' hI _ hst => ?_
  obtain ⟨-, rfl⟩ := of_guard hst
  have hio := Io.Steps.refl (K := fun _ => True) s.io
  cases lab with
  | connectEstablished acts => exact (Io.Frame.of_steps (hio.connectEstablished acts)).coherent hI
  | connectDestroyed acts => exact (Io.Frame.of_steps (hio.connectDestroyed acts)).coherent hI
  | sendInLoop message env =>
    exact (Io.Frame.of_steps (hio.sendInLoop any_event message env)).coherent hI
  | shutdownInLoop => exact (Io.Frame.of_steps (hio.shutdownInLoop any_event)).coherent hI
  | act a => exact (Io.Frame.of_steps (hio.act any_event a)).coherent hI
  | handleRead ret acts => exact (Io.Frame.of_steps (hio.handleRead ret acts)).coherent hI
  | handleWrite ret => exact (Io.Frame.of_steps (hio.handleWrite any_event ret)).coherent hI
  | handleClose acts => exact (Io.Frame.of_steps (hio.handleClose acts)).coherent hI
  | poll revents => exact ⟨hI.epoll, hI.channels⟩
  | dispatch env => exact (Io.Frame.of_steps (hio.handleEventWithGuard env)).coherent hI
  | storeDisconnecting => exact ⟨hI.epoll, hI.channels⟩

/-- A callback body, call by call. -/
theorem exec_user (he : k.established = true) (acts : List UserAct) :
    sys.exec k (acts.map .act) = some { k with io := k.io.user acts } := by
  induction acts generalizing k with
  | nil => rfl
  | cons a acts ih =>
    have hst : k.step (.act a) = some { k with io := k.io.act a } := if_pos he
    rw [List.map_cons]
    exact Sys.exec_cons_eq_some.mpr ⟨_, hst, ih he⟩

end Conn

namespace TcpServer

variable {cfg : Config} {p : Policy} {s s' : TcpServer} {l : LoopId} {c c' : ConnId}
  {t : List (ConnId × Event)} {k : Conn}

theorem onConn_conn_self (s : TcpServer) (l : LoopId) (c : ConnId) (f : Io → Io) :
    (s.onConn l c f).conn c = (f (s.io c)).conn := Function.update_self ..

theorem onConn_conn_of_ne (hn : c' ≠ c) (s : TcpServer) (l : LoopId) (f : Io → Io) :
    (s.onConn l c f).conn c' = s.conn c' := Function.update_of_ne hn ..

namespace View

/-- A step that does nothing to the connection. -/
theorem same (h : View c (s, t) k) {evs : List (ConnId × Event)} (hconn : s'.conn c = s.conn c)
    (hest : s'.established c = s.established c)
    (hact : .conn c ∈ s'.active (s'.loopOf c) ↔ .conn c ∈ s.active (s.loopOf c))
    (hevs : eventsOf c evs = []) : View c (s', t ++ evs) k where
  conn := h.conn.trans hconn.symm
  trace := by rw [h.trace, eventsOf_append, hevs, List.append_nil]
  established := h.established.trans hest.symm
  active := h.active.trans hact.symm

/-- A member function of the connection, as the server and as the connection on its own run it. -/
theorem own (h : View c (s, t) k) {f : Io → Io} {k' : Conn} (hio : k'.io = f k.io)
    (hf : ∀ t io io', Io.Alike t io io' → Io.Alike t (f io) (f io'))
    (hconn : s'.conn c = (f (s.io c)).conn) {evs : List (ConnId × Event)}
    (hevs : eventsOf c evs = (f (s.io c)).trace) (hest : k'.established = s'.established c)
    (hact : k'.active = true ↔ .conn c ∈ s'.active (s'.loopOf c)) : View c (s', t ++ evs) k' := by
  have ha : Io.Alike k.io.trace (s.io c) k.io := ⟨h.conn, (List.append_nil _).symm⟩
  have hf' := hf _ _ _ ha
  refine ⟨?_, ?_, hest, hact⟩
  · rw [hio]
    exact hf'.conn.trans hconn.symm
  · rw [hio, hf'.trace, h.trace, eventsOf_append, hevs]

end View

/-! ### What a poll reports -/

theorem setRevents_conn_of_ne {q : EPollerPoller} {x : ℕ × Events}
    (hx : (q.epoll x.1).map Prod.snd ≠ some (.conn c)) (s : TcpServer) :
    (setRevents q s x).conn c = s.conn c := by
  unfold setRevents
  split
  next m c' he =>
    refine Function.update_of_ne (fun hc => hx ?_) ..
    rw [he, hc]
    rfl
  next => rfl

theorem foldl_setRevents_conn_of_ne {q : EPollerPoller} {reports : List (ℕ × Events)}
    (hx : ∀ x ∈ reports, (q.epoll x.1).map Prod.snd ≠ some (.conn c)) (s : TcpServer) :
    (reports.foldl (setRevents q) s).conn c = s.conn c := by
  induction reports generalizing s with
  | nil => rfl
  | cons x reports ih =>
    obtain ⟨hx, hrest⟩ := List.forall_mem_cons.mp hx
    exact (ih hrest _).trans (setRevents_conn_of_ne hx s)

/-- The one report of a connection. -/
theorem foldl_setRevents_conn_of_mem {q : EPollerPoller} {reports : List (ℕ × Events)}
    (hfd : ∀ x ∈ reports, (q.epoll x.1).map Prod.snd = some (.conn c) → x.1 = (s.conn c).channel.fd)
    (hn : (reports.map Prod.fst).Nodup) {x : ℕ × Events} (hm : x ∈ reports)
    (hx : (q.epoll x.1).map Prod.snd = some (.conn c)) :
    (reports.foldl (setRevents q) s).conn c =
      { s.conn c with channel := { (s.conn c).channel with revents := x.2 } } := by
  obtain ⟨pre, post, rfl⟩ := List.append_of_mem hm
  -- another report of the connection would have the same descriptor
  have hone : ∀ y ∈ pre ++ post, (q.epoll y.1).map Prod.snd ≠ some (.conn c) := by
    intro y hy hyc
    have hmem : y ∈ pre ++ x :: post :=
      ((List.sublist_cons_self x post).append_left pre).subset hy
    have hfst : y.1 = x.1 := (hfd y hmem hyc).trans (hfd x hm hx).symm
    rw [List.map_append, List.map_cons, List.nodup_middle, List.nodup_cons, ← List.map_append,
      ← hfst] at hn
    exact hn.1 (List.mem_map_of_mem hy)
  have hpre := foldl_setRevents_conn_of_ne (fun y hy => hone y (List.mem_append_left _ hy)) s
  rw [List.foldl_append, List.foldl_cons,
    foldl_setRevents_conn_of_ne fun y hy => hone y (List.mem_append_right _ hy)]
  obtain ⟨⟨m, ptr⟩, he, hptr⟩ := Option.map_eq_some_iff.mp hx
  obtain rfl : ptr = .conn c := hptr
  simp only [setRevents, he, Function.update_self, hpre]

theorem fillActiveChannels_same (s : TcpServer) (l : LoopId) (reports : List (ℕ × Events)) :
    (s.fillActiveChannels l reports).active = Function.update s.active l
        (reports.filterMap fun x => ((s.poller l).epoll x.1).map Prod.snd) ∧
      (s.fillActiveChannels l reports).loopOf = s.loopOf ∧
      (s.fillActiveChannels l reports).established = s.established := by
  obtain ⟨r, hr⟩ := fillActiveChannels_eq s l reports
  rw [hr]
  exact ⟨rfl, rfl, rfl⟩

/-- What is registered under a descriptor for a connection that is live. -/
theorem Sound.registered (hs : Sound cfg s) (hc : c < s.accepted) (hlive : s.Live c) :
    Coherent (s.poller (s.loopOf c)) (s.conn c).channel :=
  hs.reg.coherent c hc (hs.own.held hc hlive.2)

/-- A connection that epoll reports. -/
theorem Sound.reported (hs : Sound cfg s) {x : ℕ × Events}
    (hx : ((s.poller l).epoll x.1).map Prod.snd = some (.conn c)) :
    s.loopOf c = l ∧ s.Live c ∧ (s.conn c).channel.fd = x.1 ∧
      (s.poller l).epoll x.1 = some ((s.conn c).channel.events, .conn c) := by
  obtain ⟨⟨m, ptr⟩, he, hptr⟩ := Option.map_eq_some_iff.mp hx
  obtain rfl : ptr = .conn c := hptr
  obtain ⟨⟨hc, hl⟩, hfd, hidx⟩ := hs.placed.entry l x.1 m _ he
  have hlive := hs.reg.live c hc (.inl (by rw [hidx]; simp))
  have hcoh := (hs.registered hc hlive).epoll
  rw [hl, hfd, if_pos hidx, hs.placed.this c hc] at hcoh
  exact ⟨hl, hlive, hfd, hcoh⟩

/-- A new connection is nothing to the ones before it. -/
theorem newConnection_other (cfg : Config) (hc : c < s.accepted) (hre : s.reactions 0 = []) (fd : ℕ)
    (highWater : Option ℕ) (acts : List UserAct) :
    (s.newConnection cfg fd highWater acts).conn c = s.conn c ∧
      (s.newConnection cfg fd highWater acts).established c = s.established c ∧
      (s.newConnection cfg fd highWater acts).active = s.active ∧
      eventsOf c ((s.newConnection cfg fd highWater acts).reactions 0) = [] := by
  have hconn : (s.createConnection cfg fd highWater).conn c = s.conn c :=
    Function.update_of_ne hc.ne ..
  unfold newConnection
  simp only
  split
  · refine ⟨(onConn_conn_of_ne hc.ne _ 0 _).trans hconn, Function.update_of_ne hc.ne .., rfl, ?_⟩
    have hre' := onConn_reactions (s.createConnection cfg fd highWater) 0 s.accepted
      (Io.connectEstablished acts)
    exact (congrArg (eventsOf c) hre').trans (eventsOf_of_ne hc.ne' _)
  · exact ⟨hconn, rfl, rfl, congrArg (eventsOf c) hre⟩

/-! ### What a step does to a connection -/

/-- The thread of its loop calls the member function `f` of the connection. -/
structure Calls (c : ConnId) (s : TcpServer) (lab : Label) (s' : TcpServer) (f : Io → Io) : Prop where
  conn : s'.conn c = (f (s.io c)).conn
  events : eventsOf c (shown s lab s') = (f (s.io c)).trace
  established : s'.established c = true

/-- The step takes the channel of the connection out of `activeChannels`. -/
def Dispatches (c : ConnId) (s : TcpServer) : Label → Prop
  | .dispatch l _ => (s.active l).head? = some (.conn c)
  | _ => False

/-- The channel of the connection stays where it is. -/
structure Unmoved (c : ConnId) (s : TcpServer) (lab : Label) (s' : TcpServer) : Prop where
  active : .conn c ∈ s'.active (s'.loopOf c) ↔ .conn c ∈ s.active (s.loopOf c)
  label : ¬ s.Dispatches c lab

/-- What one step does to a connection. -/
inductive ConnStep (p : Policy) (c : ConnId) (s : TcpServer) (lab : Label) (s' : TcpServer) : Prop
  | same : s'.conn c = s.conn c → s'.established c = s.established c →
      eventsOf c (shown s lab s') = [] → s.Unmoved c lab s' → ConnStep p c s lab s'
  | poll (reports : List (ℕ × Events)) (x : ℕ × Events) : lab = .poll (s.loopOf c) reports →
      x ∈ reports → x.1 = (s.conn c).channel.fd → (s.conn c).channel.index = .kAdded →
      (s.conn c).channel.events.Reportable x.2 → s.established c = true → s.active (s.loopOf c) = [] →
      s.Calls c lab s' (Conn.report x.2) → .conn c ∈ s'.active (s'.loopOf c) → ConnStep p c s lab s'
  | connectEstablished (acts : List UserAct) : p.up acts → s.established c = false →
      s.Calls c lab s' (Io.connectEstablished acts) → s.Unmoved c lab s' → ConnStep p c s lab s'
  | connectDestroyed (acts : List UserAct) : p.down acts → s.established c = true →
      s.active (s.loopOf c) = [] → s.Calls c lab s' (Io.connectDestroyed acts) → s.Unmoved c lab s' →
      s'.destroyed c = true → ConnStep p c s lab s'
  | user (acts : List UserAct) : (∀ a ∈ acts, p.act a) → s.established c = true →
      s.Calls c lab s' (Io.user acts) → s.Unmoved c lab s' → ConnStep p c s lab s'
  | dispatch (env : DispatchEnv) (rest : List ChannelPtr) : lab = .dispatch (s.loopOf c) env →
      s.active (s.loopOf c) = .conn c :: rest → s'.active (s'.loopOf c) = rest → .conn c ∉ rest →
      p.dispatch (s.conn c) env.callbacks → s.established c = true →
      s.Calls c lab s' (Io.handleEventWithGuard env.callbacks) → ConnStep p c s lab s'

namespace ConnStep

/-- The function of another connection is called. -/
theorem other {lab : Label} (hn : c' ≠ c) (l : LoopId) (f : Io → Io)
    (hconn : s'.conn = (s.onConn l c' f).conn) (hre : s'.reactions = (s.onConn l c' f).reactions)
    (hshown : shown s lab s' = s'.reactions l) (hest : s'.established c = s.established c)
    (hum : s.Unmoved c lab s') : ConnStep p c s lab s' := by
  refine .same ((congrFun hconn c).trans (onConn_conn_of_ne hn.symm ..)) hest ?_ hum
  rw [hshown, hre, onConn_reactions, eventsOf_of_ne hn]

variable (hs : Sound cfg s)

include hs

theorem of_poll {reports : List (ℕ × Events)} (hp : s.phase l = .poll) (hr : Ready (s.poller l) reports)
    (hf : ∀ x ∈ reports, ∀ y ∈ (s.poller l).epoll x.1, y.1.Reportable x.2) :
    ConnStep p c s (.poll l reports) ((s.fillActiveChannels l reports).setPhase l .dispatch) := by
  obtain ⟨hact, hloop, hest⟩ := fillActiveChannels_same s l reports
  have hidle : s.active l = [] := hs.own.active l (by simp [hp])
  by_cases hrep : ∃ x ∈ reports, ((s.poller l).epoll x.1).map Prod.snd = some (.conn c)
  · obtain ⟨x, hm, hx⟩ := hrep
    obtain ⟨rfl, hlive, hfd, he⟩ := hs.reported hx
    have hidx : (s.conn c).channel.index = .kAdded := (hs.placed.entry _ x.1 _ _ he).2.2
    refine .poll reports x rfl hm hfd.symm hidx (hf x hm _ he) hlive.1 hidle ⟨?_, rfl, ?_⟩ ?_
    · exact foldl_setRevents_conn_of_mem (fun y _ hy => (hs.reported hy).2.2.1.symm) hr.1 hm hx
    · exact (congrFun hest c).trans hlive.1
    · show .conn c ∈ (s.fillActiveChannels _ reports).active ((s.fillActiveChannels _ reports).loopOf c)
      rw [hact, hloop, Function.update_self]
      exact List.mem_filterMap.mpr ⟨x, hm, hx⟩
  · have hne : ∀ x ∈ reports, ((s.poller l).epoll x.1).map Prod.snd ≠ some (.conn c) :=
      fun x hm hx => hrep ⟨x, hm, hx⟩
    refine .same (foldl_setRevents_conn_of_ne hne s) (congrFun hest c) rfl ⟨?_, id⟩
    show .conn c ∈ (s.fillActiveChannels l reports).active ((s.fillActiveChannels l reports).loopOf c) ↔ _
    rw [hact, hloop]
    by_cases hl : s.loopOf c = l
    · rw [hl, Function.update_self, hidle]
      refine iff_of_false (fun hm => ?_) List.not_mem_nil
      obtain ⟨x, hm, hx⟩ := List.mem_filterMap.mp hm
      exact hne x hm hx
    · rw [Function.update_of_ne hl]

theorem of_dispatch {env : DispatchEnv} {ptr : ChannelPtr} {rest : List ChannelPtr}
    (hc : c < s.accepted) (hp : s.Follows p (.dispatch l env)) (hre : s.reactions l = [])
    (ha : s.active l = ptr :: rest) (hev : (s.setActive l rest).handleEvent cfg l ptr env = some s')
    (hloop : s'.loopOf c = s.loopOf c) : ConnStep p c s (.dispatch l env) s' := by
  have hrest : ptr ≠ .conn c → (.conn c ∈ (s.setActive l rest).active (s.loopOf c) ↔
      .conn c ∈ s.active (s.loopOf c)) := by
    intro hn
    show .conn c ∈ Function.update s.active l rest (s.loopOf c) ↔ _
    by_cases hl : s.loopOf c = l
    · rw [hl, Function.update_self, ha, List.mem_cons]
      exact ⟨.inr, fun hm => hm.resolve_left fun he => hn he.symm⟩
    · rw [Function.update_of_ne hl]
  have hlab : ptr ≠ .conn c → ¬ s.Dispatches c (.dispatch l env) := by
    intro hn hd
    rw [Dispatches, ha] at hd
    exact hn (Option.some.inj hd)
  have hnil : eventsOf c ((s.setActive l rest).reactions l) = [] := congrArg (eventsOf c) hre
  cases ptr with
  | wakeup l' =>
    obtain rfl := Option.some.inj hev
    exact .same rfl rfl hnil ⟨hrest (by simp), hlab (by simp)⟩
  | accept =>
    have h0 : l = 0 := hs.placed.active l .accept (ha ▸ List.mem_cons_self)
    subst h0
    rcases handleEvent_cases hev with rfl | ⟨-, fd, highWater, -, -, rfl⟩ | ⟨c', -, hptr, -⟩
    · exact .same rfl rfl hnil ⟨hrest (by simp), hlab (by simp)⟩
    · obtain ⟨hconn, hest, hact, hevs⟩ :=
        newConnection_other cfg (s := s.setActive 0 rest) hc hre fd highWater env.acts
      refine .same hconn hest hevs ⟨?_, hlab (by simp)⟩
      rw [hact, hloop]
      exact hrest (by simp)
    · cases hptr
  | conn c' =>
    obtain ⟨hc', rfl, hlive⟩ := hs.reg.active l c' (ha ▸ List.mem_cons_self)
    rw [handleEvent_held (s := s.setActive (s.loopOf c') rest) hc' (hs.own.held hc' hlive.2)] at hev
    obtain rfl := Option.some.inj hev
    have hre' := onConn_reactions (s.setActive (s.loopOf c') rest) (s.loopOf c') c'
      (Io.handleEventWithGuard env.callbacks)
    by_cases hn : c' = c
    · subst hn
      have hcount := hs.tidy.active (s.loopOf c') c'
      rw [ha, List.count_cons_self] at hcount
      refine .dispatch env rest rfl ha (Function.update_self ..) (fun hm => ?_) ?_ hlive.1
        ⟨onConn_conn_self (s.setActive (s.loopOf c') rest) .., ?_, hlive.1⟩
      · have := List.count_pos_iff.mpr hm
        omega
      · rwa [Follows, ha] at hp
      · exact (congrArg (eventsOf c') hre').trans (eventsOf_self ..)
    · have hne : ChannelPtr.conn c' ≠ .conn c := fun he => hn (ChannelPtr.conn.inj he)
      exact .other hn (s.loopOf c') (Io.handleEventWithGuard env.callbacks) rfl rfl rfl rfl
        ⟨hrest hne, hlab hne⟩

theorem of_runFunctor {env : FunctorEnv} {f : Functor} {rest : List Functor}
    (hf : s.Follows p (.runFunctor l env)) (hp : s.phase l = .functors) (hre : s.reactions l = [])
    (hrest : (s.queue l).rest = f :: rest)
    (hs' : s' = ((s.callFunctor l env f).advance l).setPhase l (.running f))
    (hloop : s'.loopOf c = s.loopOf c) : ConnStep p c s (.runFunctor l env) s' := by
  have hu : f ∈ (s.queue l).unrun := TaskQueue.mem_unrun_of_rest hrest
  have hheld := TaskQueue.held_of_unrun hu
  have hl := (hs.own.queued l f hheld).2
  have hum : s.Unmoved c (.runFunctor l env) s' := by
    refine ⟨?_, id⟩
    have hactive : s'.active = s.active := by
      subst hs'
      cases f <;> rfl
    rw [hactive, hloop]
  rw [Follows, hrest] at hf
  cases f with
  | connectEstablished c' =>
    by_cases hn : c' = c
    · subst hn hs'
      obtain rfl : s.loopOf c' = l := hl
      refine .connectEstablished env.acts hf (hs.reg.once.not_established hu) ⟨?_, ?_, ?_⟩ hum
      · exact onConn_conn_self s (s.loopOf c') c' _
      · exact (congrArg (eventsOf c') (onConn_reactions ..)).trans (eventsOf_self ..)
      · exact Function.update_self c' true s.established
    · exact .other hn l _ (by rw [hs']; rfl) (by rw [hs']; rfl) rfl
        (by rw [hs']; exact Function.update_of_ne (fun he => hn he.symm) ..) hum
  | connectDestroyed c' =>
    by_cases hn : c' = c
    · subst hn hs'
      obtain rfl : s.loopOf c' = l := hl
      have hest := hs.reg.destroy c' _ hu
      refine .connectDestroyed env.acts hf hest (hs.own.active _ (by simp [hp])) ⟨?_, ?_, hest⟩ hum ?_
      · exact onConn_conn_self s (s.loopOf c') c' _
      · exact (congrArg (eventsOf c') (onConn_reactions ..)).trans (eventsOf_self ..)
      · exact Function.update_self c' true s.destroyed
    · exact .other hn l _ (by rw [hs']; rfl) (by rw [hs']; rfl) rfl (by rw [hs']; rfl) hum
  | removeConnectionInLoop c' =>
    subst hs'
    exact .same rfl rfl (congrArg (eventsOf c) hre) hum
  | writeComplete c' | highWaterMark c' size =>
    by_cases hn : c' = c
    · subst hn hs'
      obtain rfl : s.loopOf c' = l := hl
      have hest := hs.tidy.queued _ _ hu fun _ => by simp
      refine .user env.acts hf hest ⟨?_, ?_, hest⟩ hum
      · exact onConn_conn_self s (s.loopOf c') c' _
      · exact (congrArg (eventsOf c') (onConn_reactions ..)).trans (eventsOf_self ..)
    · exact .other hn l _ (by rw [hs']; rfl) (by rw [hs']; rfl) rfl (by rw [hs']; rfl) hum
  | sendInLoop c' | shutdownInLoop c' => exact absurd (hs.reg.owns l _ hheld) (by simp [Functor.owns])

theorem of_step {lab : Label} (hc : c < s.accepted) (ho : s.Obeys p lab)
    (hst : TcpServer.step cfg s lab = some s') : ConnStep p c s lab s' := by
  have hloop := (extends_of_step hst).loop c hc
  have hforeign := ho.loopThreads.1
  cases move_of_step hst with
  | poll l reports _ hp hr => exact .of_poll hs hp hr ho.faithful
  | dispatch l env ptr rest s' _ hre ha hev => exact .of_dispatch hs hc ho.follows hre ha hev hloop
  | react l c' e rest hre =>
    refine .same ?_ ?_ rfl ⟨?_, id⟩ <;>
    · cases e <;> try rfl
      simp only [TcpServer.react, removeConnection]
      split <;> rfl
  | runFunctor l env f rest hp hre hrest => exact .of_runFunctor hs ho.follows hp hre hrest rfl hloop
  | userAct l c' a _ _ _ hl he =>
    subst hl
    by_cases hn : c' = c
    · subst hn
      refine .user [a] (fun b hb => List.mem_singleton.mp hb ▸ ho.follows) he ⟨?_, ?_, he⟩ ⟨Iff.rfl, id⟩
      · exact onConn_conn_self ..
      · exact (congrArg (eventsOf c') (onConn_reactions ..)).trans (eventsOf_self ..)
    · exact .other hn _ (fun io => io.act a) rfl rfl rfl rfl ⟨Iff.rfl, id⟩
  | doPendingFunctors | functorReturn | endFunctors | keep | drop => exact .same rfl rfl rfl ⟨Iff.rfl, id⟩
  | workerTake | workerTest | workerStore | workerQueue | workerDrop => cases hforeign

end ConnStep

namespace View

variable (h : View c (s, t) k) (hk : Conn.sys.Reach (Conn.Follows p) k)

include h hk

/-- The member function of a connection that the thread of its loop calls. -/
theorem call (lab : Conn.Label) (f : Io → Io) (hp : k.Follows p lab) (hen : k.Enabled lab)
    (hio : Conn.ioStep k.io lab = f k.io)
    (hf : ∀ t io io', Io.Alike t io io' → Io.Alike t (f io) (f io'))
    (hconn : s'.conn c = (f (s.io c)).conn) {evs : List (ConnId × Event)}
    (hevs : eventsOf c evs = (f (s.io c)).trace) (hest : k.nextEstablished lab = s'.established c)
    (hact : k.nextActive lab = true ↔ .conn c ∈ s'.active (s'.loopOf c)) :
    ∃ k', Conn.sys.Reach (Conn.Follows p) k' ∧ View c (s', t ++ evs) k' :=
  ⟨_, .step hk hp (if_pos hen), h.own hio hf hconn hevs hest hact⟩

/-- The step of the server is some steps of the connection on its own. -/
theorem step {lab : Label} (hst : ConnStep p c s lab s') :
    ∃ k', Conn.sys.Reach (Conn.Follows p) k' ∧ View c (s', t ++ shown s lab s') k' := by
  have hinactive : .conn c ∉ s.active (s.loopOf c) → k.active = false := fun hn =>
    Bool.eq_false_iff.mpr fun ha => hn (h.active.mp ha)
  cases hst with
  | same hconn hest hevs hum => exact ⟨k, hk, h.same hconn hest hum.active hevs⟩
  | poll reports x _ _ _ hidx hrep hest hidle hcall hact =>
    have hen : k.Enabled (.poll x.2) := by
      refine ⟨h.established.trans hest, hinactive (by simp [hidle]), (s.conn c).channel.events, ?_, hrep⟩
      -- the registration of a connection follows from its channel
      have hcoh := (Conn.coherent_of_reach hk).epoll
      rw [h.conn, if_pos hidx] at hcoh
      rw [h.conn]
      exact hcoh
    exact h.call hk (.poll x.2) (Conn.report x.2) trivial hen rfl
      (fun _ _ _ ha => ha.onChannel fun _ _ _ => rfl) hcall.conn hcall.events
      (h.established.trans (hest.trans hcall.established.symm)) (iff_of_true rfl hact)
  | connectEstablished acts hp hest hcall hum =>
    exact h.call hk (.connectEstablished acts) _ hp (h.established.trans hest) rfl
      (fun _ _ _ ha => ha.connectEstablished _) hcall.conn hcall.events hcall.established.symm
      (h.active.trans hum.active.symm)
  | connectDestroyed acts hp hest hidle hcall hum _ =>
    exact h.call hk (.connectDestroyed acts) _ ⟨hp, hinactive (by simp [hidle])⟩
      (h.established.trans hest) rfl
      (fun _ _ _ ha => ha.connectDestroyed _) hcall.conn hcall.events
      (h.established.trans (hest.trans hcall.established.symm)) (h.active.trans hum.active.symm)
  | user acts hp hest hcall hum =>
    refine ⟨_, hk.exec (acts.map .act) (fun k' lab hlab => ?_)
      (Conn.exec_user (h.established.trans hest) acts), h.own rfl
        (fun _ _ _ ha => ha.user acts) hcall.conn hcall.events
        (h.established.trans (hest.trans hcall.established.symm)) (h.active.trans hum.active.symm)⟩
    obtain ⟨a, ha, rfl⟩ := List.mem_map.mp hlab
    exact hp a ha
  | dispatch env rest _ ha ha' hn hp hest hcall =>
    refine h.call hk (.dispatch env.callbacks) _ ?_ ⟨h.established.trans hest, ?_⟩ rfl
      (fun _ _ _ ha => ha.handleEventWithGuard _) hcall.conn hcall.events
      (h.established.trans (hest.trans hcall.established.symm)) ?_
    · show p.dispatch k.io.conn env.callbacks
      rw [h.conn]
      exact hp
    · exact h.active.mpr (by rw [ha]; exact List.mem_cons_self)
    · exact iff_of_false Bool.false_ne_true (ha' ▸ hn)

end View

/-! ### A new connection -/

/-- A connection under construction, in front of a poller of its own. -/
def newborn (cfg : Config) (c : ConnId) (fd : ℕ) (highWater : Option ℕ) : Conn where
  io := ⟨.new (.conn c) fd cfg.writeCompleteCallback highWater, .new, []⟩
  established := false
  active := false

theorem fresh_newborn (cfg : Config) (c : ConnId) (fd : ℕ) (highWater : Option ℕ) :
    (newborn cfg c fd highWater).Fresh :=
  ⟨⟨.conn c, fd, cfg.writeCompleteCallback, highWater, rfl⟩, rfl, rfl, rfl, rfl, rfl, rfl⟩

/-- What a step does that accepts the connection: its `connectEstablished` is queued, or called at once. -/
inductive ConnBorn (cfg : Config) (p : Policy) (c : ConnId) (s : TcpServer) (lab : Label) (s' : TcpServer) : Prop
  | queued (fd : ℕ) (highWater : Option ℕ) : s'.conn c = (newborn cfg c fd highWater).io.conn →
      s'.established c = false → eventsOf c (shown s lab s') = [] →
      .conn c ∉ s'.active (s'.loopOf c) → ¬ s.Dispatches c lab → ConnBorn cfg p c s lab s'
  | established (fd : ℕ) (highWater : Option ℕ) (q : EPollerPoller) (acts : List UserAct) : p.up acts →
      s'.conn c = (Io.connectEstablished acts ⟨(newborn cfg c fd highWater).io.conn, q, []⟩).conn →
      s'.established c = true →
      eventsOf c (shown s lab s') =
        (Io.connectEstablished acts ⟨(newborn cfg c fd highWater).io.conn, q, []⟩).trace →
      .conn c ∉ s'.active (s'.loopOf c) → ¬ s.Dispatches c lab → ConnBorn cfg p c s lab s'

theorem ConnBorn.label {lab : Label} (h : ConnBorn cfg p c s lab s') : ¬ s.Dispatches c lab := by
  cases h with
  | queued _ _ _ _ _ _ hlab => exact hlab
  | established _ _ _ _ _ _ _ _ _ hlab => exact hlab

theorem ConnBorn.of_newConnection (hs : Sound cfg s) {lab : Label} {rest : List ChannelPtr}
    (hrest : ∀ ptr ∈ rest, ptr ∈ s.active 0) (hre : s.reactions 0 = []) (fd : ℕ) (highWater : Option ℕ)
    {acts : List UserAct} (hp : p.up acts) (hlab : ¬ s.Dispatches s.accepted lab)
    (hs' : s' = (s.setActive 0 rest).newConnection cfg fd highWater acts)
    (hshown : shown s lab s' = s'.reactions 0) : ConnBorn cfg p s.accepted s lab s' := by
  have hidle : ∀ l', .conn s.accepted ∉ (s.setActive 0 rest).active l' := by
    intro l' hm
    have hm' : ∃ k, .conn s.accepted ∈ s.active k := by
      by_cases hl : l' = 0
      · rw [hl] at hm
        exact ⟨0, hrest _ ((Function.update_self (0 : LoopId) rest s.active) ▸ hm)⟩
      · exact ⟨l', (Function.update_of_ne hl rest s.active) ▸ hm⟩
    obtain ⟨k, hm'⟩ := hm'
    exact (hs.reg.active k _ hm').1.ne rfl
  have hconn : ((s.setActive 0 rest).createConnection cfg fd highWater).conn s.accepted =
      (newborn cfg s.accepted fd highWater).io.conn := Function.update_self ..
  unfold newConnection at hs'
  simp only at hs'
  split at hs'
  · subst hs'
    let s₁ := (s.setActive 0 rest).createConnection cfg fd highWater
    refine .established fd highWater (s₁.poller (s₁.loopOf s.accepted)) acts hp ?_ ?_ ?_ (hidle _) hlab
    · rw [← hconn]
      exact onConn_conn_self s₁ 0 s.accepted _
    · exact Function.update_self s.accepted true s.established
    · have hre' := onConn_reactions s₁ 0 s.accepted (Io.connectEstablished acts)
      rw [hshown, ← hconn]
      exact (congrArg (eventsOf s.accepted) hre').trans (eventsOf_self ..)
  · subst hs'
    exact .queued fd highWater hconn (hs.own.fresh s.accepted le_rfl).1
      (hshown ▸ congrArg (eventsOf s.accepted) hre) (hidle _) hlab

/-- The only step with a new connection. -/
theorem ConnBorn.of_step (hs : Sound cfg s) {lab : Label} (ho : s.Obeys p lab)
    (hst : TcpServer.step cfg s lab = some s') (hc : ¬ c < s.accepted) (hc' : c < s'.accepted) :
    c = s.accepted ∧ ConnBorn cfg p c s lab s' := by
  have hone := (extends_of_step hst).one
  obtain rfl : c = s.accepted :=
    Nat.le_antisymm (Nat.le_of_lt_succ (hc'.trans_le hone)) (not_lt.mp hc)
  refine ⟨rfl, ?_⟩
  have hsame : s'.accepted = s.accepted → False := fun he => hc (he ▸ hc')
  cases move_of_step hst with
  | poll l reports =>
    obtain ⟨r, hr⟩ := fillActiveChannels_eq s l reports
    refine (hsame ?_).elim
    rw [hr]
    rfl
  | dispatch l env ptr rest s' _ hre ha hev =>
    rcases handleEvent_cases hev with rfl | ⟨rfl, fd, highWater, -, -, rfl⟩ | ⟨c', -, -, -, rfl⟩
    · exact (hsame rfl).elim
    · have h0 : l = 0 := hs.placed.active l .accept (ha ▸ List.mem_cons_self)
      subst h0
      have hp : p.up env.acts := by
        have := ho.follows
        rwa [Follows, ha] at this
      exact .of_newConnection hs (fun ptr hm => ha ▸ List.mem_cons_of_mem _ hm) hre fd highWater hp
        (by simp [Dispatches, ha]) rfl rfl
    · exact (hsame rfl).elim
  | react l c' e rest =>
    refine (hsame ?_).elim
    cases e <;> try rfl
    simp only [TcpServer.react, removeConnection]
    split <;> rfl
  | runFunctor l env f rest =>
    refine (hsame ?_).elim
    cases f <;> rfl
  | _ => exact (hsame rfl).elim

/-- The connection on its own begins. -/
theorem View.of_born {lab : Label} (ht : eventsOf c t = []) (hst : ConnBorn cfg p c s lab s') :
    ∃ k, Conn.sys.Reach (Conn.Follows p) k ∧ View c (s', t ++ shown s lab s') k := by
  cases hst with
  | queued fd highWater hconn hest hevs hact _ =>
    refine ⟨_, .init (fresh_newborn cfg c fd highWater), hconn.symm, ?_, hest.symm,
      iff_of_false Bool.false_ne_true hact⟩
    rw [eventsOf_append, ht, hevs]
    rfl
  | established fd highWater q acts hp hconn hest hevs hact _ =>
    have hf := (Io.Alike.mk rfl rfl : Io.Alike [] ⟨(newborn cfg c fd highWater).io.conn, q, []⟩
      (newborn cfg c fd highWater).io).connectEstablished acts
    have hst : (newborn cfg c fd highWater).step (.connectEstablished acts) =
        some ⟨(newborn cfg c fd highWater).io.connectEstablished acts, true, false⟩ := if_pos rfl
    have hk : Conn.sys.Reach (Conn.Follows p) _ :=
      .step (.init (fresh_newborn cfg c fd highWater)) (l := .connectEstablished acts) hp hst
    refine ⟨_, hk, hf.conn.trans hconn.symm, ?_, hest.symm, iff_of_false Bool.false_ne_true hact⟩
    rw [eventsOf_append, ht, hevs]
    exact hf.trace

/-! ### Whole runs -/

/-- The history names connections that exist. -/
theorem lt_of_shown {C : TcpServer × List (ConnId × Event) → Label → Prop}
    {x : TcpServer × List (ConnId × Event)} (h : ((sys cfg).logged shown).Reach C x) :
    ∀ y ∈ x.2, y.1 < x.1.accepted := by
  refine (h.invariant (I := fun x => Placed cfg (fun _ _ _ => True) x.1 ∧ ∀ y ∈ x.2, y.1 < x.1.accepted)
    (fun x hx => ?_) fun x lab x' hI _ hst => ?_).2
  · obtain ⟨hs, ht⟩ := hx
    refine ⟨?_, by simp [ht]⟩
    rw [show x.1 = TcpServer.start cfg from hs]
    exact .start
  · obtain ⟨s', hst', rfl⟩ := Sys.step_logged.mp hst
    have hp := hI.1.step hst'
    refine ⟨hp, fun y hy => ?_⟩
    rcases List.mem_append.mp hy with hy | hy
    · exact (hI.2 y hy).trans_le (extends_of_step hst').accepted
    · unfold shown at hy
      split at hy
      · exact hp.reaction _ y hy
      · exact hp.reaction _ y hy
      · exact hp.reaction _ y hy
      · exact absurd hy List.not_mem_nil

theorem eventsOf_of_unborn {C : TcpServer × List (ConnId × Event) → Label → Prop}
    {x : TcpServer × List (ConnId × Event)} (h : ((sys cfg).logged shown).Reach C x) :
    eventsOf x.1.accepted x.2 = [] := by
  rw [eventsOf, List.map_eq_nil_iff, List.filter_eq_nil_iff]
  intro y hy
  simpa using (lt_of_shown h y hy).ne

theorem Sound.of_logged {x : TcpServer × List (ConnId × Event)}
    (h : ((sys cfg).logged shown).Reach (fun x => Obeys p x.1) x) : Sound cfg x.1 :=
  .of_reach (fun _ _ hob => hob.loopThreads) (Sys.Reach.of_logged h)

theorem exists_view {x : TcpServer × List (ConnId × Event)}
    (h : ((sys cfg).logged shown).Reach (fun x => Obeys p x.1) x) {c : ConnId} (hc : c < x.1.accepted) :
    ∃ k, Conn.sys.Reach (Conn.Follows p) k ∧ View c x k ∧ Sound cfg x.1 := by
  obtain ⟨k, hk, hview⟩ := h.component (N := Conn.sys) (D := Conn.Follows p)
    (B := fun x => c < x.1.accepted) (R := View c)
    (fun x hx => by
      rw [show x.1 = TcpServer.start cfg from hx.1]
      exact Nat.not_lt_zero c)
    (fun x lab x' hx hob hst hc hc' => by
      obtain ⟨s', hst', rfl⟩ := Sys.step_logged.mp hst
      obtain ⟨rfl, hborn⟩ := ConnBorn.of_step (.of_logged hx) hob hst' hc hc'
      exact View.of_born (eventsOf_of_unborn hx) hborn)
    (fun x lab x' k hx hob hst hc hview hk => by
      obtain ⟨s', hst', rfl⟩ := Sys.step_logged.mp hst
      exact View.step hview hk (.of_step (.of_logged hx) hc hob hst'))
    hc
  exact ⟨k, hk, hview, .of_logged h⟩

/-- **Every connection of a server runs as one connection on its own**: at every moment of every run, the
connection, what it has shown, and what epoll knows of it while it has not been destroyed are those of a
run of `Conn`, with user code that follows the same policy. -/
theorem connection_run {x : TcpServer × List (ConnId × Event)}
    (h : ((sys cfg).logged shown).Reach (fun x => Obeys p x.1) x) {c : ConnId} (hc : c < x.1.accepted) :
    ∃ k, Conn.sys.Reach (Conn.Follows p) k ∧ View c x k ∧
      (x.1.established c = true → x.1.destroyed c = false →
        (x.1.poller (x.1.loopOf c)).epoll (x.1.conn c).channel.fd =
          k.io.poller.epoll k.io.conn.channel.fd) := by
  obtain ⟨k, hk, hview, hs⟩ := exists_view h hc
  refine ⟨k, hk, hview, fun hest hd => ?_⟩
  rw [(hs.registered hc ⟨hest, hd⟩).epoll, (Conn.coherent_of_reach hk).epoll, hview.conn]

/-- A connection that has come up, as its loop and as epoll know it. -/
theorem connection_run_opened :
    ∃ x : TcpServer × List (ConnId × Event), eventsOf 0 x.2 = [.connectionCallback true] ∧
      ∃ k, Conn.sys.Reach (Conn.Follows .any) k ∧ View 0 x k ∧
        k.io.poller.epoll k.io.conn.channel.fd = some (Events.kReadEvent, .conn 0) := by
  obtain ⟨x, hx, hc, hl, hest, hd, hevs, hfd, he⟩ :=
    Sys.Reach.exists_of_execIf (M := (sys config).logged shown) (s := (TcpServer.start config, []))
      (C := fun x => Obeys .any x.1)
      (P := fun x => 0 < x.1.accepted ∧ x.1.loopOf 0 = 1 ∧ x.1.established 0 = true ∧
        x.1.destroyed 0 = false ∧ eventsOf 0 x.2 = [.connectionCallback true] ∧
        (x.1.conn 0).channel.fd = 7 ∧ (x.1.poller 1).epoll 7 = some (Events.kReadEvent, .conn 0))
      (.init ⟨rfl, rfl⟩) (opening 7) (by decide +kernel)
  obtain ⟨k, hk, hview, hep⟩ := connection_run hx hc
  refine ⟨x, hevs, k, hk, hview, (hep hest hd).symm.trans ?_⟩
  rw [hl, hfd, he]

end TcpServer

end Mymuduo
