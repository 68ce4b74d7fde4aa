import Mymuduo.ServerLife

/-!
# Mymuduo.Confinement — one loop per thread

`Resource` is what has no lock: the poller of a loop, the channel and the buffers of a connection, and
`connections`.  `accesses` lists what a step touches, following the calls of the source; what it does not
list is left as it is by the step (`Untouched`), apart from the atomic state of a connection.  In every
run every step is taken by the thread that owns all it touches (`confined`).
-/

namespace Mymuduo

open Lib

inductive Resource
  | poller (l : LoopId)
  | conn (c : ConnId)
  | connections
  deriving DecidableEq, Repr

namespace TcpServer

variable (cfg : Config) (s : TcpServer)

/-- The loop in whose thread a resource may be used. -/
def owner : Resource → LoopId
  | .poller l => l
  | .conn c => s.loopOf c
  | .connections => 0

/-- What a member function of a connection of the loop `l` touches: `Channel::update` goes to the poller
of this loop, whatever thread calls it. -/
def member (l : LoopId) (c : ConnId) : List Resource := [.poller l, .conn c]

/-- `newConnection`: the entry, and the connection itself where it is established at once. -/
def newAccesses : List Resource :=
  .connections :: if (s.getNextLoop cfg).1 = 0 then member 0 s.accepted else []

def functorAccesses : Functor → List Resource
  | .removeConnectionInLoop _ => [.connections]
  | f => member (s.loopOf f.conn) f.conn

/-- What one step of a loop or of another thread touches. -/
def accesses : Label → List Resource
  | .poll l reports =>
    .poller l :: reports.filterMap fun x =>
      match (s.poller l).epoll x.1 with
      | some (_, .conn c) => some (.conn c)
      | _ => none
  | .dispatch l env =>
    match s.active l with
    | .conn c :: _ => member (s.loopOf c) c
    | .accept :: _ => if env.accept.isSome then s.newAccesses cfg else []
    | _ => []
  | .react l =>
    match s.reactions l with
    | (_, .closeCallback) :: _ => if l = 0 then [.connections] else []
    | _ => []
  | .runFunctor l _ =>
    match (s.queue l).rest with
    | f :: _ => s.functorAccesses f
    | [] => []
  | .userAct _ c _ => member (s.loopOf c) c
  | _ => []

/-- The same connection, except that `shutdown()` may have stored the state. -/
def SameConn (conn conn' : TcpConnection) : Prop :=
  conn' = conn ∨ conn' = { conn with state := .kDisconnecting }

/-- What is not among `touched` is left as it is. -/
structure Untouched (touched : List Resource) (s s' : TcpServer) : Prop where
  poller : ∀ l, .poller l ∉ touched → s'.poller l = s.poller l
  conn : ∀ c < s.accepted, .conn c ∉ touched → SameConn (s.conn c) (s'.conn c)
  connections : .connections ∉ touched → s'.connections = s.connections

variable {cfg s} {F : LoopId → ℕ → ChannelPtr → Prop} {s' : TcpServer} {l : LoopId} {c : ConnId}
  {touched : List Resource}

/-! ### What a step leaves alone -/

theorem Untouched.of_eq (hp : s'.poller = s.poller) (hc : s'.conn = s.conn)
    (ht : s'.connections = s.connections) : Untouched touched s s' :=
  ⟨fun l _ => congrFun hp l, fun c _ _ => .inl (congrFun hc c), fun _ => ht⟩

theorem Untouched.onConn (l : LoopId) (c : ConnId) (f : Io → Io) :
    Untouched (member (s.loopOf c) c) s (s.onConn l c f) := by
  refine ⟨fun l' hl => ?_, fun c' _ hc => ?_, fun _ => rfl⟩
  · have hn : l' ≠ s.loopOf c := by
      rintro rfl
      exact hl (by simp [member])
    exact Function.update_of_ne hn ..
  · have hn : c' ≠ c := by
      rintro rfl
      exact hc (by simp [member])
    exact .inl (Function.update_of_ne hn ..)

theorem Untouched.callFunctor (l : LoopId) (env : FunctorEnv) (f : Functor) :
    Untouched (s.functorAccesses f) s (s.callFunctor l env f) := by
  cases f with
  | connectEstablished c => exact { Untouched.onConn (s := s) l c _ with }
  | connectDestroyed c => exact { Untouched.onConn (s := s) l c _ with }
  | removeConnectionInLoop c =>
    exact ⟨fun _ _ => rfl, fun _ _ _ => .inl rfl, fun h => absurd (by simp [functorAccesses]) h⟩
  | _ => exact .onConn l _ _

theorem Untouched.newConnection (fd : ℕ) (highWater : Option ℕ) (acts : List UserAct) :
    Untouched (s.newAccesses cfg) s (s.newConnection cfg fd highWater acts) := by
  have hold : ∀ c < s.accepted, (s.createConnection cfg fd highWater).conn c = s.conn c :=
    fun c hc => Function.update_of_ne hc.ne ..
  unfold TcpServer.newConnection newAccesses
  by_cases h0 : (s.getNextLoop cfg).1 = 0
  · simp only [if_pos h0]
    have h1 := Untouched.onConn (s := s.createConnection cfg fd highWater) 0 s.accepted
      (Io.connectEstablished acts)
    have hl : (s.createConnection cfg fd highWater).loopOf s.accepted = 0 :=
      (Function.update_self ..).trans h0
    rw [hl] at h1
    refine ⟨fun l hl => h1.poller l fun hm => hl (List.mem_cons_of_mem _ hm), fun c hc hn => ?_,
      fun hn => absurd List.mem_cons_self hn⟩
    have h2 := h1.conn c (Nat.lt_succ_of_lt hc) fun hm => hn (List.mem_cons_of_mem _ hm)
    rw [hold c hc] at h2
    exact h2
  · simp only [if_neg h0]
    exact ⟨fun _ _ => rfl, fun c hc _ => .inl (hold c hc),
      fun hn => absurd List.mem_cons_self hn⟩

theorem Untouched.react (l : LoopId) (c : ConnId) (e : Event) :
    Untouched (if e = .closeCallback ∧ l = 0 then [.connections] else []) s (s.react l c e) := by
  cases e with
  | closeCallback =>
    simp only [TcpServer.react, removeConnection, true_and]
    by_cases h0 : l = 0
    · rw [if_pos h0, if_pos h0]
      exact ⟨fun _ _ => rfl, fun _ _ _ => .inl rfl, fun h => absurd (by simp) h⟩
    · rw [if_neg h0, if_neg h0]
      exact .of_eq rfl rfl rfl
  | _ => exact .of_eq rfl rfl rfl

/-- `set_revents` on a connection that is not reported. -/
theorem conn_foldl_setRevents (p : EPollerPoller) (reports : List (ℕ × Events)) (s : TcpServer)
    (h : ∀ x ∈ reports, ∀ m, p.epoll x.1 ≠ some (m, .conn c)) :
    (reports.foldl (setRevents p) s).conn c = s.conn c := by
  induction reports generalizing s with
  | nil => rfl
  | cons x reports ih =>
    rw [List.foldl_cons, ih (setRevents p s x) fun y hy => h y (List.mem_cons_of_mem _ hy)]
    unfold setRevents
    split
    next m c' he =>
      have hn : c ≠ c' := by
        rintro rfl
        exact h x List.mem_cons_self m he
      exact Function.update_of_ne hn ..
    next => rfl

theorem Untouched.poll (l : LoopId) (reports : List (ℕ × Events)) :
    Untouched (s.accesses cfg (.poll l reports)) s (s.fillActiveChannels l reports) := by
  obtain ⟨r, hr⟩ := fillActiveChannels_eq s l reports
  refine ⟨fun l' _ => ?_, fun c _ hc => ?_, fun _ => ?_⟩
  · rw [hr]
    rfl
  · have he := conn_foldl_setRevents (c := c) (s.poller l) reports s fun x hx m he => hc <|
      List.mem_cons_of_mem _ (List.mem_filterMap.mpr ⟨x, hx, by rw [he]⟩)
    exact .inl he
  · rw [hr]
    rfl

/-- **What a step does not touch** it leaves as it is. -/
theorem untouched_of_step {lab : Label} (hst : step cfg s lab = some s') :
    Untouched (s.accesses cfg lab) s s' := by
  cases move_of_step hst with
  | poll l reports => exact { Untouched.poll (s := s) l reports with }
  | dispatch l env ptr rest s' _ _ ha hs =>
    rcases handleEvent_cases hs with rfl | ⟨rfl, fd, highWater, he, -, rfl⟩ | ⟨c, -, rfl, -, rfl⟩
    · exact .of_eq rfl rfl rfl
    · simp only [accesses, ha, he, Option.isSome_some, if_true]
      exact { Untouched.newConnection (s := s.setActive l rest) fd highWater env.acts with }
    · simp only [accesses, ha]
      exact { Untouched.onConn (s := s.setActive l rest) l c _ with }
  | react l c e rest hre =>
    have h1 := Untouched.react (s := s.setReactions l rest) l c e
    have hm : (if e = .closeCallback ∧ l = 0 then [Resource.connections] else []) =
        s.accesses cfg (.react l) := by
      simp only [accesses, hre]
      cases e <;> simp
    exact hm ▸ { h1 with }
  | runFunctor l env f rest _ _ hr =>
    simp only [accesses, hr]
    exact { Untouched.callFunctor (s := s) l env f with }
  | userAct l c a => exact .onConn l c _
  | workerStore t c =>
    refine ⟨fun _ _ => rfl, fun c' _ _ => ?_, fun _ => rfl⟩
    by_cases hn : c' = c
    · subst hn
      exact .inr (Function.update_self ..)
    · exact .inl (Function.update_of_ne hn ..)
  | _ => exact .of_eq rfl rfl rfl

/-! ### Who owns what a step touches -/

theorem owner_member (hl : s'.loopOf c = l) {r : Resource} (hr : r ∈ member l c) :
    s'.owner r = l := by
  simp only [member, List.mem_cons, List.not_mem_nil, or_false] at hr
  rcases hr with rfl | rfl
  · rfl
  · exact hl

theorem owner_newAccesses {fd : ℕ} {highWater : Option ℕ} {acts : List UserAct} {r : Resource}
    (hr : r ∈ s.newAccesses cfg) : (s.newConnection cfg fd highWater acts).owner r = 0 := by
  have hl : (s.newConnection cfg fd highWater acts).loopOf s.accepted = (s.getNextLoop cfg).1 := by
    unfold TcpServer.newConnection
    simp only
    split <;> exact Function.update_self ..
  unfold newAccesses at hr
  rcases List.mem_cons.mp hr with rfl | hr
  · rfl
  · by_cases h0 : (s.getNextLoop cfg).1 = 0
    · rw [if_pos h0] at hr
      exact owner_member (hl.trans h0) hr
    · rw [if_neg h0] at hr
      cases hr

/-- A step of the thread of a loop touches what belongs to this loop; the others touch nothing. -/
theorem Placed.owned (h : Placed cfg F s) {lab : Label}
    (hst : TcpServer.step cfg s lab = some s') {r : Resource} (hr : r ∈ s.accesses cfg lab) :
    lab.loop = some (s'.owner r) := by
  have hext := extends_of_step hst
  cases move_of_step hst with
  | poll l reports =>
    refine congrArg some ?_
    rcases List.mem_cons.mp hr with rfl | hr
    · rfl
    · obtain ⟨x, -, hx⟩ := List.mem_filterMap.mp hr
      split at hx
      next m c he =>
        obtain rfl := Option.some.inj hx
        obtain ⟨hc, hl⟩ := (h.entry l x.1 m _ he).1
        exact (hl.symm.trans (hext.loop c hc).symm)
      next => cases hx
  | dispatch l env ptr rest s' _ _ ha hs =>
    have hhome := h.active l ptr (ha ▸ List.mem_cons_self)
    refine congrArg some ?_
    cases ptr with
    | wakeup l' => simp [accesses, ha] at hr
    | conn c =>
      simp only [accesses, ha] at hr
      rw [hhome.2] at hr
      exact (owner_member ((hext.loop c hhome.1).trans hhome.2) hr).symm
    | accept =>
      obtain rfl : l = 0 := hhome
      simp only [accesses, ha] at hr
      cases he : env.accept with
      | none => simp [he] at hr
      | some x =>
        simp only [he, Option.isSome_some, if_true] at hr
        unfold TcpServer.handleEvent at hs
        rw [he] at hs
        obtain ⟨-, rfl⟩ := of_guard hs
        exact (owner_newAccesses (s := s.setActive 0 rest) hr).symm
  | react l c e rest hre =>
    refine congrArg some ?_
    simp only [accesses, hre] at hr
    cases e <;> try cases hr
    by_cases h0 : l = 0
    · rw [if_pos h0, List.mem_singleton] at hr
      subst hr
      exact h0
    · rw [if_neg h0] at hr
      cases hr
  | runFunctor l env f rest _ _ hrest =>
    obtain ⟨hc, hl⟩ := h.queued l f (TaskQueue.mem_unrun_of_rest hrest)
    refine congrArg some ?_
    simp only [accesses, hrest] at hr
    cases f with
    | removeConnectionInLoop c =>
      obtain rfl := List.mem_singleton.mp hr
      exact hl.symm
    | _ => exact hl.symm.trans (owner_member (hext.loop _ hc) hr).symm
  | userAct l c a _ _ hc hl => exact congrArg some (hl.symm.trans (owner_member rfl hr).symm)
  | _ => cases hr

end TcpServer

/-! ### The server as a whole -/

namespace ServerLife

variable (cfg : Config) (s : ServerLife)

/-- The threads that may take a step. -/
def Executes (τ : Thread) : Label → Prop
  | .start caller => τ = caller
  | .startLoop => τ = .loop (s.threads + 1)
  | .listen => s.stage = .starting τ
  | .endLoop l => τ = .loop l
  | .run lab => ∀ l, lab.loop = some l → τ = .loop l
  | .runListen | .call _ _ | .destroy _ | .closeNext _ | .closed | .join | .finish => τ = .loop 0

/-- What a step touches. -/
def accesses : Label → List Resource
  | .startLoop => [.poller (s.threads + 1)]
  | .listen => if s.stage = .starting (.loop 0) then [.poller 0] else []
  | .runListen => [.poller 0]
  | .run lab => s.server.accesses cfg lab
  | .call c _ => TcpServer.member (s.server.loopOf c) c
  | .endLoop l => [.poller l]
  | .destroy _ => [.connections]
  | .closeNext _ =>
    match s.stage with
    | .closing (c :: _) =>
      .connections :: if s.server.loopOf c = 0 then TcpServer.member 0 c else []
    | _ => []
  | .closed => [.connections]
  | .finish => [.poller 0]
  | .start _ | .join => []

variable {cfg s} {s' : ServerLife}

theorem untouched_setPoller {s : TcpServer} {l : LoopId} {p : EPollerPoller} :
    TcpServer.Untouched [.poller l] s (s.setPoller l p) := by
  refine ⟨fun l' hl => ?_, fun _ _ _ => .inl rfl, fun _ => rfl⟩
  have hn : l' ≠ l := by
    rintro rfl
    exact hl (by simp)
  exact Function.update_of_ne hn ..

theorem untouched_closeConnection {s : TcpServer} {c : ConnId} {acts : List UserAct} :
    TcpServer.Untouched (.connections :: if s.loopOf c = 0 then TcpServer.member 0 c else []) s
      (s.closeConnection c acts) := by
  unfold TcpServer.closeConnection
  by_cases h0 : s.loopOf c = 0
  · simp only [if_pos h0]
    have h1 := TcpServer.Untouched.onConn
      (s := { s with connections := Function.update s.connections (s.nameOf c) none }) 0 c
      (Io.connectDestroyed acts)
    simp only [h0] at h1
    exact ⟨fun l hl => h1.poller l fun hm => hl (List.mem_cons_of_mem _ hm),
      fun c' hc hn => h1.conn c' hc fun hm => hn (List.mem_cons_of_mem _ hm),
      fun hn => absurd List.mem_cons_self hn⟩
  · simp only [if_neg h0]
    exact ⟨fun _ _ => rfl, fun _ _ _ => .inl rfl, fun hn => absurd List.mem_cons_self hn⟩

theorem untouched_of_step {lab : Label} (hst : step cfg s lab = some s') :
    TcpServer.Untouched (s.accesses cfg lab) s.server s'.server := by
  cases move_of_step hst with
  | startLoop => exact untouched_setPoller
  | listen hs =>
    simp only [accesses, hs, if_true]
    exact untouched_setPoller
  | runListen => exact untouched_setPoller
  | run lab server _ _ hs => exact TcpServer.untouched_of_step hs
  | call c a => exact TcpServer.Untouched.onConn (s := s.server) 0 c fun io => io.act a
  | endLoop l => exact { untouched_setPoller (s := s.server) (l := l) (p := .new) with }
  | closeNext c todo acts hs =>
    simp only [accesses, hs]
    exact untouched_closeConnection
  | finish l =>
    exact { untouched_setPoller (s := s.server) (l := 0) (p := s.destroyAcceptor.server.poller 0) with }
  | _ => exact .of_eq rfl rfl rfl

/-- **One loop per thread.**  In every run, whatever threads call `start`, `send` and `shutdown` and
whenever the server is destroyed: what a step touches belongs to the thread that takes the step, and
everything else is left as it is. -/
theorem confined {C : ServerLife → Label → Prop} (h : (sys cfg).Reach C s) {lab : Label}
    (hst : step cfg s lab = some s') :
    (∀ τ, s.Executes τ lab → ∀ r ∈ s.accesses cfg lab, τ = .loop (s'.server.owner r)) ∧
    TcpServer.Untouched (s.accesses cfg lab) s.server s'.server := by
  refine ⟨fun τ hτ r hr => ?_, untouched_of_step hst⟩
  have hi := inv_of_reach h
  cases move_of_step hst with
  | startLoop =>
    obtain rfl := List.mem_singleton.mp hr
    exact hτ
  | listen hs =>
    simp only [accesses, hs, if_true] at hr
    obtain rfl := List.mem_singleton.mp hr
    exact (Stage.starting.inj (hs.symm.trans hτ)).symm
  | queueListen caller hs hc =>
    have hn : s.stage ≠ .starting (.loop 0) := fun he => hc (Stage.starting.inj (hs.symm.trans he))
    simp only [accesses, if_neg hn] at hr
    cases hr
  | runListen =>
    obtain rfl := List.mem_singleton.mp hr
    exact hτ
  | run lab server _ _ hs => exact hτ _ (hi.placed.owned hs hr)
  | call c a _ _ _ _ hl =>
    have howner : (s.server.onConn 0 c fun io => io.act a).owner r = 0 :=
      (TcpServer.owner_member rfl hr).trans hl
    rw [howner]
    exact hτ
  | endLoop l =>
    obtain rfl := List.mem_singleton.mp hr
    exact hτ
  | destroy order =>
    obtain rfl := List.mem_singleton.mp hr
    exact hτ
  | closeNext c todo acts hs =>
    simp only [accesses, hs] at hr
    have hl : (s.server.closeConnection c acts).loopOf = s.server.loopOf := by
      unfold TcpServer.closeConnection
      simp only
      split <;> rfl
    rcases List.mem_cons.mp hr with rfl | hr
    · exact hτ
    · split at hr
      next h0 =>
        have howner : (s.server.closeConnection c acts).owner r = 0 :=
          TcpServer.owner_member ((congrFun hl c).trans h0) hr
        rw [howner]
        exact hτ
      next => cases hr
  | closed =>
    obtain rfl := List.mem_singleton.mp hr
    exact hτ
  | finish l =>
    obtain rfl := List.mem_singleton.mp hr
    exact hτ
  | start caller => cases hr
  | join l => cases hr

/-- Another thread starts the server, and the base loop accepts a connection. -/
def accepting : List Label :=
  [.start (.other 0), .startLoop, .listen, .run (.poll 0 []), .run (.doPendingFunctors 0), .runListen,
    .run (.endFunctors 0), .run (.poll 0 [(3, ⟨true, false, false, false, false⟩)])]

/-- The connection is accepted in the thread of the base loop, which owns `connections`. -/
theorem confined_accepting : ∃ s s', (sys TcpServer.config).Reach (fun _ _ => True) s ∧
    step TcpServer.config s (.run (.dispatch 0 (TcpServer.dispatchEnv 7))) = some s' ∧
    (∀ r ∈ [Resource.connections], Thread.loop 0 = .loop (s'.server.owner r)) ∧
    TcpServer.Untouched [.connections] s.server s'.server := by
  obtain ⟨s, hr, hsome, hacc⟩ := Sys.Reach.exists_of_execIf (M := sys TcpServer.config)
    (s := construct TcpServer.config) (C := fun _ _ => True)
    (P := fun s => (step TcpServer.config s (.run (.dispatch 0 (TcpServer.dispatchEnv 7)))).isSome ∧
      s.accesses TcpServer.config (.run (.dispatch 0 (TcpServer.dispatchEnv 7))) = [.connections])
    (.init rfl) accepting (by decide +kernel)
  obtain ⟨s', hst⟩ := Option.isSome_iff_exists.mp hsome
  obtain ⟨howner, hframe⟩ := confined hr hst
  rw [hacc] at howner hframe
  exact ⟨s, s', hr, hst, howner _ (fun _ he => congrArg Thread.loop (Option.some.inj he)), hframe⟩

end ServerLife

end Mymuduo
