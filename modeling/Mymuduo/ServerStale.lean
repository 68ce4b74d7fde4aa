import Mymuduo.CloseOnce
import Mymuduo.DeferredLife
import Mymuduo.PollerRecords
import Mymuduo.ServerProgress

/-!
# Mymuduo.ServerStale — what uses a server after its destructor

`Stale` are the steps that call `removeConnection` or `removeConnectionInLoop`, or dispatch an event to
a connection that nobody holds any more.  After the destructor the loops of the pool are gone, and such a
step of the base loop comes from what the thread of the base loop has in hand: a `closeCallback` that it has
still to call, a `removeConnectionInLoop` in its batch, a channel in `activeChannels` whose connection is
gone.  `Spared` says that it has none of these in hand.

* `Spares` are the steps after which it still has none (`Spared.step`), and all of these but for the
  dispatch of the acceptor (`spares_or_dispatchesAcceptor`);
* `Clean` are the steps of a run in which the destructor ends so, and every later step is such a step: in
  such a run no step is stale, and every other step uses the destroyed acceptor, or leads to a stale step
  before the base loop comes back to epoll (`not_stale_of_destroyed`).
-/

namespace Mymuduo

open Lib

namespace TcpServer

section Defs

variable (cfg : Config) (s : TcpServer)

/-- Somebody holds the connection, or the thread of the base loop is about to queue a functor that does. -/
def Backed (c : ConnId) : Prop := s.Held cfg c ∨ ∃ x ∈ s.reactions 0, x.1 = c ∧ x.2.Reacts = true

instance (c : ConnId) : Decidable (s.Backed cfg c) := inferInstanceAs (Decidable (_ ∨ _))

/-- The thread of the base loop has nothing in hand that uses a destroyed server. -/
structure Spared : Prop where
  reaction : ∀ x ∈ s.reactions 0, x.2 ≠ .closeCallback
  removal : ∀ f ∈ (s.queue 0).rest, f ≠ .removeConnectionInLoop f.conn
  active : ∀ c < s.accepted, .conn c ∈ s.active 0 → s.Backed cfg c

instance : Decidable (s.Spared cfg) :=
  decidable_of_iff ((∀ x ∈ s.reactions 0, x.2 ≠ .closeCallback) ∧
    (∀ f ∈ (s.queue 0).rest, f ≠ .removeConnectionInLoop f.conn) ∧
    ∀ c < s.accepted, .conn c ∈ s.active 0 → s.Backed cfg c)
    ⟨fun h => ⟨h.1, h.2.1, h.2.2⟩, fun h => ⟨h.reaction, h.removal, h.active⟩⟩

/-- The dispatch of the channel closes no connection, and it is not the channel of the acceptor. -/
def Harmless (env : DispatchEnv) : ChannelPtr → Prop
  | .wakeup _ => True
  | .accept => False
  | .conn c => ¬ (s.conn c).channel.revents.CallsClose (env.callbacks .read).read

instance (env : DispatchEnv) (ptr : ChannelPtr) : Decidable (s.Harmless env ptr) :=
  match ptr with
  | .wakeup _ => .isTrue trivial
  | .accept => .isFalse id
  | .conn _ => inferInstanceAs (Decidable (¬ _))

/-- The step of the base loop, or of another thread, puts nothing of the kind into its hands: epoll reports
no connection that is gone (`close` has taken its descriptor out), no event is dispatched that closes a
connection, and the acceptor is not dispatched; no `removeConnectionInLoop` is among the functors that are
taken; and nobody gives up the last pointer to a connection that is still to be dispatched. -/
def Spares : Label → Prop
  | .poll _ reports => ∀ c < s.accepted, (∃ x ∈ reports, ((s.poller 0).epoll x.1).map Prod.snd = some (.conn c)) →
      s.Held cfg c
  | .dispatch _ env => ∀ ptr ∈ (s.active 0).head?, s.Harmless env ptr
  | .doPendingFunctors _ => ∀ f ∈ (s.queue 0).pending, f ≠ .removeConnectionInLoop f.conn
  | .drop c => ∀ c' < s.accepted, .conn c' ∈ s.active 0 → (s.giveUp (.drop c)).Backed cfg c'
  | .workerDrop t => ∀ c < s.accepted, .conn c ∈ s.active 0 → (s.giveUp (.workerDrop t)).Backed cfg c
  | _ => True

instance (lab : Label) : Decidable (s.Spares cfg lab) :=
  match lab with
  | .poll .. => inferInstanceAs (Decidable (∀ c < s.accepted, _ → _))
  | .dispatch _ env => inferInstanceAs (Decidable (∀ ptr ∈ (s.active 0).head?, s.Harmless env ptr))
  | .doPendingFunctors _ => inferInstanceAs (Decidable (∀ f ∈ (s.queue 0).pending, _))
  | .drop _ | .workerDrop _ => inferInstanceAs (Decidable (∀ c < s.accepted, _ → _))
  | .react _ | .runFunctor .. | .functorReturn _ | .endFunctors _ | .userAct .. | .keep _
  | .workerTake .. | .workerTest .. | .workerStore _ | .workerQueue _ => .isTrue trivial

/-- Channels are active only while they are dispatched. -/
def Focused : Prop := ∀ l, s.phase l ≠ .dispatch → s.active l = []

end Defs

variable {cfg : Config} {F : LoopId → ℕ → ChannelPtr → Prop} {s s' : TcpServer} {l : LoopId}
  {c : ConnId} {lab : Label}

/-! ### Where the loops are -/

theorem Focused.step (h : Focused s) (hst : TcpServer.step cfg s lab = some s') : Focused s' := by
  intro l hp
  by_cases hl : lab.advances l
  · cases move_of_step hst with
    | poll k =>
      obtain rfl : k = l := hl
      exact absurd (phase_setPhase ..) hp
    | dispatch k env ptr rest s' hd _ _ hev =>
      obtain rfl : k = l := hl
      exact absurd ((Stays.handleEvent (l := k) hev).phase.trans hd) hp
    | doPendingFunctors k _ _ ha =>
      obtain rfl : k = l := hl
      exact ha
    | runFunctor k env f rest hf =>
      obtain rfl : k = l := hl
      have hs := Stays.callFunctor (l := k) s k env f
      exact hs.active.trans (h k (by simp [hf]))
    | functorReturn k f hf =>
      obtain rfl : k = l := hl
      exact h k (by simp [hf])
    | endFunctors k hf =>
      obtain rfl : k = l := hl
      exact h k (by simp [hf])
    | _ => exact absurd hl id
  · rcases turn_or_stays (l := l) hst with ⟨ha, -⟩ | ⟨-, hs⟩
    · exact absurd ha hl
    · exact hs.active.trans (h l (hs.phase ▸ hp))

/-! ### Holders -/

theorem Backed.of_held (h : s.Held cfg c) : s.Backed cfg c := .inl h

/-- With nothing left to react to, a holder is a holder now. -/
theorem Backed.held (h : s.Backed cfg c) (hre : s.reactions 0 = []) : s.Held cfg c :=
  h.resolve_right fun ⟨_, hx, _⟩ => List.not_mem_nil (hre ▸ hx)

theorem Backed.mono (h : s.Backed cfg c) (hheld : s.Held cfg c → s'.Held cfg c)
    (hre : s'.reactions 0 = s.reactions 0) : s'.Backed cfg c :=
  h.imp hheld fun ⟨x, hx, hc⟩ => ⟨x, hre ▸ hx, hc⟩

/-- A member function leaves only its own connection to be held by what follows. -/
theorem Backed.held_or_eq {f : Io → Io} {c' : ConnId} (h : (s.onConn 0 c f).Backed cfg c') :
    s.Held cfg c' ∨ c' = c := by
  refine h.imp_right ?_
  rintro ⟨x, hx, rfl, -⟩
  rw [onConn_reactions] at hx
  obtain ⟨e, -, rfl⟩ := List.mem_map.mp hx
  rfl

/-- A functor for the connection is queued, or somebody holds it anyway. -/
theorem held_react (h : s.Held cfg c) {e : Event} (he : e ≠ .closeCallback) (l : LoopId) (c' : ConnId) :
    (s.react l c' e).Held cfg c := by
  cases e with
  | closeCallback => exact absurd rfl he
  | writeComplete => exact h.push _ _
  | highWaterMark size => exact h.push _ _
  | _ => exact h

theorem held_react_self {e : Event} (he : e.Reacts = true) (hne : e ≠ .closeCallback)
    (hl : s.loopOf c ≤ cfg.numThreads) (l : LoopId) : (s.react l c e).Held cfg c := by
  cases e with
  | closeCallback => exact absurd rfl hne
  | writeComplete => exact held_push_self (f := .writeComplete c) hl rfl
  | highWaterMark size => exact held_push_self (f := .highWaterMark c size) hl rfl
  | _ => cases he

/-- What a reaction holds. -/
theorem held_of_react {e : Event} (hne : e ≠ .closeCallback) {l : LoopId} {c' : ConnId}
    (h : (s.react l c' e).Held cfg c) : s.Held cfg c ∨ c' = c ∧ e.Reacts = true := by
  cases e with
  | closeCallback => exact absurd rfl hne
  | writeComplete => exact (held_push h).imp_right fun h => ⟨h.2, rfl⟩
  | highWaterMark size => exact (held_push h).imp_right fun h => ⟨h.2, rfl⟩
  | _ => exact .inl h

theorem accepted_react (s : TcpServer) (c : ConnId) (e : Event) : (s.react 0 c e).accepted = s.accepted := by
  cases e <;> rfl

/-! ### What the thread of the base loop has in hand -/

theorem Spared.of_same (h : s.Spared cfg) (hacc : s'.accepted = s.accepted)
    (hact : s'.active 0 = s.active 0) (hre : s'.reactions 0 = s.reactions 0)
    (hq : (s'.queue 0).rest = (s.queue 0).rest)
    (hheld : ∀ c < s.accepted, .conn c ∈ s.active 0 → s.Backed cfg c → s'.Backed cfg c) : s'.Spared cfg where
  reaction := hre ▸ h.reaction
  removal := hq ▸ h.removal
  active c hc hm := by
    rw [hacc] at hc
    rw [hact] at hm
    exact hheld c hc hm (h.active c hc hm)

/-- A member function that does not call `closeCallback`. -/
theorem Spared.onConn (h : s.Spared cfg) (hre : s.reactions 0 = []) {f : Io → Io}
    (hf : .closeCallback ∉ (f (s.io c)).trace) : (s.onConn 0 c f).Spared cfg where
  reaction x hx := by
    rw [onConn_reactions] at hx
    obtain ⟨e, he, rfl⟩ := List.mem_map.mp hx
    rintro rfl
    exact hf he
  removal := h.removal
  active c' hc' hm := .of_held ((h.active c' hc' hm).held hre)

theorem Spared.user (h : s.Spared cfg) (hre : s.reactions 0 = []) (acts : List UserAct) :
    (s.onConn 0 c (Io.user acts)).Spared cfg :=
  h.onConn hre fun hm => List.not_mem_nil ((Io.closeCallback_mem_user acts _).mp hm)

theorem Spared.callFunctor (h : s.Spared cfg) (hre : s.reactions 0 = []) (env : FunctorEnv) {f : Functor}
    (hf : f ≠ .removeConnectionInLoop f.conn) : (s.callFunctor 0 env f).Spared cfg := by
  cases f with
  | connectEstablished c =>
    have h1 : (s.onConn 0 c (Io.connectEstablished env.acts)).Spared cfg := by
      refine h.onConn hre fun hm => ?_
      simpa [TcpServer.io, Io.tie] using (Io.closeCallback_mem_user env.acts _).mp hm
    exact ⟨h1.reaction, h1.removal, h1.active⟩
  | connectDestroyed c =>
    have h1 : (s.onConn 0 c (Io.connectDestroyed env.acts)).Spared cfg := by
      refine h.onConn hre fun hm => ?_
      obtain ⟨-, -, evs, ht, hevs⟩ := Io.connectDestroyed_spec env.acts (s.io c)
      rw [ht, List.mem_append] at hm
      exact absurd (hevs _ (hm.resolve_left List.not_mem_nil)) (by simp [Event.Reacts])
    exact ⟨h1.reaction, h1.removal, h1.active⟩
  | removeConnectionInLoop c => exact absurd rfl hf
  | writeComplete c => exact h.user hre env.acts
  | highWaterMark c size => exact h.user hre env.acts
  | sendInLoop c =>
    refine h.onConn hre fun hm => List.not_mem_nil (a := Event.closeCallback) ?_
    exact (Io.Frame.of_steps ((Io.Steps.refl (s.io c)).sendInLoop (fun _ h => h) _ _)).closeCallback_mem.mp hm
  | shutdownInLoop c =>
    refine h.onConn hre fun hm => List.not_mem_nil (a := Event.closeCallback) ?_
    exact (Io.Frame.of_steps ((Io.Steps.refl (s.io c)).shutdownInLoop fun _ h => h)).closeCallback_mem.mp hm

/-- A reaction that does not close. -/
theorem Spared.react (h : s.Spared cfg) (hp : Placed cfg F s) {c : ConnId} {e : Event}
    {rest : List (ConnId × Event)} (hre : s.reactions 0 = (c, e) :: rest) :
    ((s.setReactions 0 rest).react 0 c e).Spared cfg := by
  have hne : e ≠ .closeCallback := h.reaction (c, e) (hre ▸ List.mem_cons_self)
  have hrest := reactions_react s 0 rest c e
  have hst := Stays.react (l := 0) (s.setReactions 0 rest) 0 c e
  have hacc := accepted_react (s.setReactions 0 rest) c e
  refine ⟨fun x hx => ?_, ?_, fun c' hc' hm => ?_⟩
  · rw [hrest] at hx
    exact h.reaction x (hre ▸ List.mem_cons_of_mem _ hx)
  · rw [hst.queue.1]
    exact h.removal
  · rw [hacc] at hc'
    rw [hst.active] at hm
    rcases h.active c' hc' hm with hheld | ⟨x, hx, hxc, hr⟩
    · exact .of_held (held_react (s := s.setReactions 0 rest) hheld hne 0 c)
    · rw [hre] at hx
      rcases List.mem_cons.mp hx with rfl | hx
      · obtain rfl : c = c' := hxc
        have hl : s.loopOf c = 0 := (hp.active 0 (.conn c) hm).2
        exact .of_held (held_react_self (s := s.setReactions 0 rest) hr hne (hl.trans_le (Nat.zero_le _)) 0)
      · exact .inr ⟨x, hrest.symm ▸ hx, hxc, hr⟩

theorem setActive_active (s : TcpServer) (l : LoopId) (active : List ChannelPtr) :
    (s.setActive l active).active l = active :=
  Function.update_self ..

/-- **Nothing comes into its hands** by a step that spares the server. -/
theorem Spared.step (h : s.Spared cfg) (hp : Placed cfg F s) (hf : Focused s)
    (hl : ∀ l, lab.loop = some l → l = 0) (hc : s.Spares cfg lab)
    (hst : TcpServer.step cfg s lab = some s') : s'.Spared cfg := by
  cases move_of_step hst with
  | poll l reports =>
    obtain rfl := hl l rfl
    obtain ⟨r, hr⟩ := fillActiveChannels_eq s 0 reports
    rw [hr]
    refine ⟨h.reaction, h.removal, fun c hacc hm => .of_held ?_⟩
    change .conn c ∈ ((s.reported r).setActive 0 _).active 0 at hm
    rw [setActive_active] at hm
    obtain ⟨x, hx, he⟩ := List.mem_filterMap.mp hm
    exact hc c hacc ⟨x, hx, he⟩
  | dispatch l env ptr rest s' _ hre ha hs =>
    obtain rfl := hl l rfl
    have h1 : (s.setActive 0 rest).Spared cfg := by
      refine ⟨h.reaction, h.removal, fun c hacc hm => ?_⟩
      rw [setActive_active] at hm
      exact h.active c hacc (ha ▸ List.mem_cons_of_mem _ hm)
    have hless : s.Harmless env ptr := hc ptr (by simp [ha])
    rcases handleEvent_cases hs with rfl | ⟨rfl, -⟩ | ⟨c, -, rfl, -, rfl⟩
    · exact h1
    · exact hless.elim
    · refine h1.onConn hre fun hm => hless ?_
      exact ((Io.closeCallback_mem_dispatch env.callbacks _).mp hm).resolve_left List.not_mem_nil
  | react l c e rest hre =>
    obtain rfl := hl l rfl
    exact h.react hp hre
  | doPendingFunctors l _ _ ha =>
    obtain rfl := hl l rfl
    refine ⟨h.reaction, fun f hf => hc f ?_, fun c _ hm => ?_⟩
    · have hq : ((s.swapFunctors 0).setPhase 0 .functors).queue 0 = (s.queue 0).swap :=
        queue_setQueue s 0 _
      rwa [hq] at hf
    · rw [show ((s.swapFunctors 0).setPhase 0 .functors).active 0 = [] from ha] at hm
      cases hm
  | runFunctor l env f rest hph hre hr =>
    obtain rfl := hl l rfl
    have h1 := h.callFunctor hre env (h.removal f (hr ▸ List.mem_cons_self))
    have hst := Stays.callFunctor (l := 0) s 0 env f
    have hq : (((s.callFunctor 0 env f).advance 0).setPhase 0 (.running f)).queue 0 =
        ((s.callFunctor 0 env f).queue 0).advance := queue_setQueue (s.callFunctor 0 env f) 0 _
    refine ⟨h1.reaction, fun g hg => ?_, fun c hacc hm => ?_⟩
    · rw [hq] at hg
      exact h1.removal g (List.mem_of_mem_tail hg)
    · have hact : (s.callFunctor 0 env f).active 0 = [] := hst.active.trans (hf 0 (by simp [hph]))
      rw [show (((s.callFunctor 0 env f).advance 0).setPhase 0 (.running f)).active 0 = [] from hact] at hm
      cases hm
  | functorReturn l => exact ⟨h.reaction, h.removal, h.active⟩
  | endFunctors l hph =>
    obtain rfl := hl l rfl
    have hq : ((s.finish 0).setPhase 0 .poll).queue 0 = (s.queue 0).finish := queue_setQueue s 0 _
    refine ⟨h.reaction, fun f hm => ?_, fun c _ hm => ?_⟩
    · rw [hq] at hm
      cases hm
    · rw [show ((s.finish 0).setPhase 0 .poll).active 0 = [] from hf 0 (by simp [hph])] at hm
      cases hm
  | userAct l c a _ hre =>
    obtain rfl := hl l rfl
    exact h.user hre [a]
  | keep c =>
    exact h.of_same rfl rfl rfl rfl fun c' _ _ hb => hb.mono (fun hh => hh.setRefs (Nat.succ_pos _)) rfl
  | drop c => exact ⟨h.reaction, h.removal, hc⟩
  | workerTake t c _ hw =>
    refine h.of_same rfl rfl rfl rfl fun c' _ _ hb => hb.mono (fun hh => hh.setWorker fun c hc => ?_) rfl
    rw [hw] at hc
    cases hc
  | workerTest t call c hw =>
    refine h.of_same rfl rfl rfl rfl fun c' _ _ hb => hb.mono (fun hh => hh.setWorker fun c hc => ?_) rfl
    rw [hw] at hc
    exact (tested_conn ..).trans hc
  | workerStore t c hw =>
    refine h.of_same rfl rfl rfl rfl fun c' _ _ hb => hb.mono (fun hh => ?_) rfl
    refine Held.setWorker (s := s.setState c .kDisconnecting) hh fun c hc => ?_
    rw [show (s.setState _ .kDisconnecting).worker t = _ from hw] at hc
    exact hc
  | workerQueue t c call hw =>
    have hst := Stays.push (l := 0) s (s.loopOf c) (call.functor c)
    refine h.of_same rfl hst.active rfl hst.queue.1 fun c' _ _ hb => hb.mono (fun hh => ?_) rfl
    refine Held.setWorker (hh.push (s.loopOf c) (call.functor c)) fun c hc => ?_
    rw [show (s.push _ _).worker t = _ from hw] at hc
    exact hc
  | workerDrop t c => exact ⟨h.reaction, h.removal, hc⟩

/-- The channel of the acceptor is dispatched. -/
def DispatchesAcceptor (s : TcpServer) : Label → Prop
  | .dispatch l _ => (s.active l).head? = some .accept
  | _ => False

/-- Any other step puts something into its hands, or dispatches the acceptor. -/
theorem spares_or_dispatchesAcceptor (h : s.Spared cfg) (hp : Placed cfg F s)
    (hl : ∀ l, lab.loop = some l → l = 0) (hidle : ∀ l reports, lab = .poll l reports → s.reactions l = [])
    (hst : TcpServer.step cfg s lab = some s') (h' : s'.Spared cfg) :
    s.Spares cfg lab ∨ s.DispatchesAcceptor lab := by
  cases move_of_step hst with
  | poll l reports =>
    obtain rfl := hl l rfl
    refine .inl fun c hc ⟨x, hx, he⟩ => ?_
    obtain ⟨r, hr⟩ := fillActiveChannels_eq s 0 reports
    rw [hr] at h'
    have hm : .conn c ∈ ((s.reported r).setActive 0
        (reports.filterMap fun x => ((s.poller 0).epoll x.1).map Prod.snd)).active 0 := by
      rw [setActive_active]
      exact List.mem_filterMap.mpr ⟨x, hx, he⟩
    exact (h'.active c hc hm).held (hidle 0 reports rfl)
  | dispatch l env ptr rest s' _ hre ha hs =>
    obtain rfl := hl l rfl
    cases ptr with
    | wakeup l => exact .inl fun ptr hm => by simp [ha] at hm; subst hm; trivial
    | accept => exact .inr (by simp [DispatchesAcceptor, ha])
    | conn c =>
      refine .inl fun ptr hm => ?_
      obtain rfl : .conn c = ptr := by simpa [ha] using hm
      intro hclose
      have hmem : .conn c ∈ s.active 0 := ha ▸ List.mem_cons_self
      have hc : c < s.accepted := (hp.active 0 _ hmem).1
      have hheld : (s.setActive 0 rest).Held cfg c := (h.active c hc hmem).held hre
      have hs' : s' = (s.setActive 0 rest).onConn 0 c (Io.handleEventWithGuard env.callbacks) := by
        exact Option.some.inj (hs.symm.trans (handleEvent_held (s := s.setActive 0 rest) hc hheld env))
      subst hs'
      refine h'.reaction (c, .closeCallback) ?_ rfl
      rw [onConn_reactions]
      exact List.mem_map.mpr ⟨_, (Io.closeCallback_mem_dispatch env.callbacks _).mpr (.inr hclose), rfl⟩
  | doPendingFunctors l =>
    obtain rfl := hl l rfl
    have hq : ((s.swapFunctors 0).setPhase 0 .functors).queue 0 = (s.queue 0).swap := queue_setQueue s 0 _
    refine .inl fun f hf => h'.removal f ?_
    rw [hq]
    exact hf
  | drop c => exact .inl h'.active
  | workerDrop t c => exact .inl h'.active
  | _ => exact .inl trivial

end TcpServer

/-! ### The destructor -/

namespace ServerLife

section Defs

variable (cfg : Config) (s : ServerLife)

/-- The step calls `removeConnection` or `removeConnectionInLoop`, or dispatches an event to a
connection that has been destroyed. -/
def Stale : Label → Prop
  | .run (.react l) => ∃ c rest, s.server.reactions l = (c, .closeCallback) :: rest
  | .run (.runFunctor l _) => ∃ c rest, (s.server.queue l).rest = .removeConnectionInLoop c :: rest
  | .run (.dispatch l _) => ∃ c rest, s.server.active l = .conn c :: rest ∧ ¬ s.server.Held cfg c
  | _ => False

/-- The step calls `Acceptor::listen`, or `Acceptor::handleRead`, of the destroyed server. -/
def UsesAcceptor : Label → Prop
  | .runListen => s.stage = .destroyed
  | .run lab => s.stage = .destroyed ∧ s.server.DispatchesAcceptor lab
  | _ => False

/-- The destructor ends when the thread of the base loop has nothing in hand that uses the server, and no
later step gives it any such thing, or uses the acceptor. -/
def Clean : Label → Prop
  | .finish => (s.server.setReactions 0 s.after).Spared cfg
  | .runListen => s.stage ≠ .destroyed
  | .run lab => s.stage = .destroyed → s.server.Spares cfg lab
  | _ => True

instance (lab : Label) : Decidable (s.Clean cfg lab) :=
  match lab with
  | .finish => inferInstanceAs (Decidable ((s.server.setReactions 0 s.after).Spared cfg))
  | .runListen => inferInstanceAs (Decidable (s.stage ≠ .destroyed))
  | .run lab => inferInstanceAs (Decidable (s.stage = .destroyed → s.server.Spares cfg lab))
  | .start _ | .startLoop | .listen | .call .. | .endLoop _ | .destroy _ | .closeNext _ | .closed | .join =>
    .isTrue trivial

/-- The loops of the pool end before the destructor does, and the server is in order. -/
structure Ordered : Prop where
  between : s.server.Between
  focused : s.server.Focused
  joining : ∀ l, s.stage = .joining l → 0 < l ∧ ∀ l', 0 < l' → l' < l → s.ended l' = true
  destroyed : s.stage = .destroyed → ∀ l, 0 < l → l ≤ s.threads → s.ended l = true

end Defs

/-- The thread of the base loop goes on with the round of `loop()` that it is in. -/
def Label.goesOn : Label → Prop
  | .run (.react l) | .run (.dispatch l _) | .run (.runFunctor l _) | .run (.functorReturn l) => l = 0
  | _ => False

variable {cfg : Config} {s s' : ServerLife} {lab : Label}

/-- The thread of the base loop can come to a stale step before it calls `epoll_wait` again. -/
abbrev CanStale (cfg : Config) (s : ServerLife) : Prop :=
  (sys cfg).Leads Label.goesOn (fun s => ∃ lab s', step cfg s lab = some s' ∧ s.Stale cfg lab) s

/-! ### Every run -/

theorem stays_closeConnection (s : TcpServer) (c : ConnId) (acts : List UserAct) (l : LoopId) :
    TcpServer.Stays l s (s.closeConnection c acts) := by
  unfold TcpServer.closeConnection
  simp only
  split
  · exact .of_same rfl rfl rfl
  · have h := TcpServer.Stays.push (l := l) s (s.loopOf c) (.connectDestroyed c)
    exact ⟨h.phase, h.active, h.queue⟩

theorem between_of_stays {s s' : TcpServer} (h : s.Between) (hs : ∀ l, TcpServer.Stays l s s') :
    s'.Between := fun l hp => (hs l).queue.1.trans (h l ((hs l).phase ▸ hp))

theorem focused_of_stays {s s' : TcpServer} (h : s.Focused) (hs : ∀ l, TcpServer.Stays l s s') :
    s'.Focused := fun l hp => (hs l).active.trans (h l ((hs l).phase ▸ hp))

theorem Ordered.step (h : s.Ordered) (hst : step cfg s lab = some s') : s'.Ordered := by
  obtain ⟨hb, hf, hj, hd⟩ := h
  cases move_of_step hst with
  | start caller => exact ⟨hb, hf, by simp, by simp⟩
  | startLoop caller hs =>
    have hs' : (s.startLoop cfg).stage = .starting caller := hs
    exact ⟨hb, hf, by simp [hs'], by simp [hs']⟩
  | listen => exact ⟨hb, hf, by simp, by simp⟩
  | queueListen caller => exact ⟨hb, hf, by simp, by simp⟩
  | runListen => exact ⟨hb, hf, hj, hd⟩
  | run lab server _ _ hs => exact ⟨hb.step hs, hf.step hs, hj, hd⟩
  | call c a => exact ⟨hb, hf, hj, hd⟩
  | endLoop l h0 hl he =>
    have hrest := TcpServer.forall_setQueue (s := s.server.setPoller l .new) (l := l) (q := .empty)
      (P := fun l q => s.server.phase l = .poll ∨ s.server.phase l = .dispatch → q.rest = [])
      (fun _ => rfl) hb
    refine ⟨hrest, hf, fun l' hs => ⟨(hj l' hs).1, fun k hk hk' => ?_⟩, fun hs k hk hk' => ?_⟩ <;>
    · show Function.update s.ended l true k = true
      by_cases hn : k = l
      · rw [hn, Function.update_self]
      · rw [Function.update_of_ne hn]
        first | exact (hj l' hs).2 k hk hk' | exact hd hs k hk hk'
  | destroy order => exact ⟨hb, hf, by simp, by simp⟩
  | closeNext c todo acts =>
    have hs := stays_closeConnection s.server c acts
    exact ⟨between_of_stays hb hs, focused_of_stays hf hs, by simp, by simp⟩
  | closed =>
    refine ⟨hb, hf, fun l hl => ?_, by simp⟩
    obtain rfl := Stage.joining.inj hl
    exact ⟨Nat.one_pos, fun l' h0 hl' => absurd hl' (Nat.not_lt.mpr h0)⟩
  | join l hs _ he =>
    refine ⟨hb, hf, fun k hk => ?_, by simp⟩
    obtain rfl := Stage.joining.inj hk
    refine ⟨Nat.succ_pos l, fun l' h0 hl' => ?_⟩
    rcases Nat.lt_or_eq_of_le (Nat.le_of_lt_succ hl') with hl' | rfl
    · exact (hj l hs).2 l' h0 hl'
    · exact he
  | finish l hs hl =>
    exact ⟨hb, hf, by simp, fun _ l' h0 hl' => (hj l hs).2 l' h0 (hl'.trans_lt hl)⟩

theorem ordered_of_reach {C : ServerLife → Label → Prop} (h : (sys cfg).Reach C s) : s.Ordered := by
  refine h.invariant (fun _ hs => ?_) fun _ _ _ hi _ hst => hi.step hst
  subst hs
  exact ⟨fun _ _ => rfl, fun _ _ => rfl, by simp [construct], by simp [construct]⟩

/-- When the loops of the pool are gone, only the base loop takes steps. -/
theorem Runs.base {lab : TcpServer.Label} (hr : s.Runs lab)
    (hend : ∀ l, 0 < l → l ≤ s.threads → s.ended l = true) : ∀ l, lab.loop = some l → l = 0 := by
  intro l hl
  unfold Runs at hr
  rw [hl] at hr
  cases l with
  | zero => rfl
  | succ l =>
    have he := hend (l + 1) (Nat.succ_pos l) hr.1
    rw [hr.2] at he
    cases he

/-! ### After a clean destructor -/

/-- What a clean step keeps from the end of the destructor on. -/
theorem spared_step (h : s.stage = .destroyed → s.server.Spared cfg) (hi : s.Inv cfg) (ho : s.Ordered)
    (hc : s.Clean cfg lab) (hst : step cfg s lab = some s') : s'.stage = .destroyed → s'.server.Spared cfg := by
  intro hd
  cases move_of_step hst with
  | run lab server hr _ hs =>
    exact (h hd).step hi.placed ho.focused (hr.base (ho.destroyed hd)) (hc hd) hs
  | call c a _ _ hre => exact (h hd).user hre [a]
  | startLoop caller hs => exact absurd (hs.symm.trans hd) (by simp)
  | runListen => exact absurd hd hc
  | endLoop l h0 hl he => exact absurd (he.symm.trans (ho.destroyed hd l h0 hl)) (by simp)
  | finish => exact ⟨hc.reaction, hc.removal, hc.active⟩
  | start | listen | queueListen | destroy | closeNext | closed | join => cases hd

theorem spared_of_reach (h : (sys cfg).Reach (Clean cfg) s) : s.stage = .destroyed → s.server.Spared cfg := by
  induction h with
  | init hs =>
    subst hs
    exact fun hd => by cases hd
  | step hr hc hst ih => exact spared_step ih (inv_of_reach hr) (ordered_of_reach hr) hc hst

/-! ### What the thread of the base loop comes to -/

/-- The base loop is free after the destructor. -/
theorem step_goesOn (hs : s.stage = .destroyed) {lab : TcpServer.Label} (hgo : Label.goesOn (.run lab))
    {server : TcpServer} (hst : TcpServer.step cfg s.server lab = some server) :
    (sys cfg).step s (.run lab) = some (s.setServer server) := by
  have hg : s.Runs lab ∧ s.Idle lab := by
    cases lab with
    | react l | dispatch l _ | runFunctor l _ | functorReturn l =>
      obtain rfl : l = 0 := hgo
      exact ⟨.inl (by simp [BaseFree, hs]), trivial⟩
    | _ => exact hgo.elim
  show (if s.Runs lab ∧ s.Idle lab then _ else none) = _
  rw [if_pos hg, hst]
  rfl

/-- A stale step that is possible. -/
theorem CanStale.here (hs : s.stage = .destroyed) (lab : TcpServer.Label) (hgo : Label.goesOn (.run lab))
    {server : TcpServer} (hst : TcpServer.step cfg s.server lab = some server)
    (hstale : s.Stale cfg (.run lab)) : s.CanStale cfg :=
  Sys.Leads.here ⟨.run lab, _, step_goesOn hs hgo hst, hstale⟩

/-- A step of the thread of the base loop. -/
theorem CanStale.next (hs : s.stage = .destroyed) (lab : TcpServer.Label) (hgo : Label.goesOn (.run lab))
    {server : TcpServer} (hst : TcpServer.step cfg s.server lab = some server)
    (h : (s.setServer server).CanStale cfg) : s.CanStale cfg :=
  Sys.Leads.step hgo (step_goesOn hs hgo hst) h

section Drain

variable {K : TcpServer → Prop}

/-- The thread first does what it has still to do for a member function; `K` stays meanwhile. -/
theorem canStale_drain
    (hK : ∀ (server : TcpServer) c e rest, K server → server.reactions 0 = (c, e) :: rest → e ≠ .closeCallback →
      K ((server.setReactions 0 rest).react 0 c e))
    (hgo : ∀ s : ServerLife, s.stage = .destroyed → K s.server → s.server.reactions 0 = [] → s.CanStale cfg)
    (hs : s.stage = .destroyed) (h : K s.server) : s.CanStale cfg := by
  -- by induction on what it has to do
  generalize hre : s.server.reactions 0 = todo
  induction todo generalizing s with
  | nil => exact hgo s hs h hre
  | cons x todo ih =>
    obtain ⟨c, e⟩ := x
    have hst : TcpServer.step cfg s.server (.react 0) =
        some ((s.server.setReactions 0 todo).react 0 c e) := by
      simp [TcpServer.step, hre]
    by_cases he : e = .closeCallback
    · subst he
      exact .here hs (.react 0) rfl hst ⟨c, todo, hre⟩
    · refine .next hs (.react 0) rfl hst (ih hs (hK _ c e todo h hre he) ?_)
      exact TcpServer.reactions_react s.server 0 todo c e

end Drain

theorem canStale_of_closeCallback (hs : s.stage = .destroyed) {x : ConnId × Event}
    (hx : x ∈ s.server.reactions 0) (he : x.2 = .closeCallback) : s.CanStale cfg := by
  refine canStale_drain (K := fun server => ∃ x ∈ server.reactions 0, x.2 = .closeCallback)
    (fun server c e rest ⟨x, hx, hxe⟩ hre hne => ⟨x, ?_, hxe⟩) (fun s _ ⟨x, hx, _⟩ hre => ?_) hs ⟨x, hx, he⟩
  · rw [TcpServer.reactions_react]
    rw [hre] at hx
    exact (List.mem_cons.mp hx).resolve_left fun hxc => hne (by rw [hxc] at hxe; exact hxe)
  · exact absurd (hre ▸ hx) List.not_mem_nil

/-- The batch is run up to the removal. -/
theorem canStale_of_removal (hs : s.stage = .destroyed)
    (hp : s.server.phase 0 = .functors ∨ ∃ f, s.server.phase 0 = .running f) {c : ConnId}
    (hm : .removeConnectionInLoop c ∈ (s.server.queue 0).rest) : s.CanStale cfg := by
  generalize hr : (s.server.queue 0).rest = todo at hm
  induction todo generalizing s with
  | nil => cases hm
  | cons f todo ih =>
    have hrun : ∀ s : ServerLife, s.stage = .destroyed → s.server.phase 0 = .functors →
        (s.server.queue 0).rest = f :: todo → s.server.reactions 0 = [] → s.CanStale cfg := by
      intro s hs hp hr hre
      have hst : TcpServer.step cfg s.server (.runFunctor 0 TcpServer.quiet) =
          some (((s.server.callFunctor 0 TcpServer.quiet f).advance 0).setPhase 0 (.running f)) := by
        simp [TcpServer.step, hp, hr, hre]
      rcases List.mem_cons.mp hm with rfl | hm
      · exact .here hs (.runFunctor 0 TcpServer.quiet) rfl hst ⟨c, todo, hr⟩
      · refine .next hs (.runFunctor 0 TcpServer.quiet) rfl hst
          (ih hs (.inr ⟨f, TcpServer.phase_setPhase ..⟩) ?_ hm)
        have hq := (TcpServer.Stays.callFunctor (l := 0) s.server 0 TcpServer.quiet f).queue.1
        show ((((s.server.callFunctor 0 TcpServer.quiet f).advance 0).setPhase 0 (.running f)).queue 0).rest = _
        rw [show (((s.server.callFunctor 0 TcpServer.quiet f).advance 0).setPhase 0 (.running f)).queue 0 =
          ((s.server.callFunctor 0 TcpServer.quiet f).queue 0).advance from
            TcpServer.queue_setQueue (s.server.callFunctor 0 TcpServer.quiet f) 0 _]
        rw [TaskQueue.advance_rest, hq, hr]
        rfl
    refine canStale_drain (K := fun server => (server.phase 0 = .functors ∨ ∃ f, server.phase 0 = .running f) ∧
      (server.queue 0).rest = f :: todo) (fun server c e rest hk _ _ => ?_)
      (fun s hs hk hre => ?_) hs ⟨hp, hr⟩
    · obtain ⟨hp, hr⟩ := hk
      have hst := TcpServer.Stays.react (l := 0) (server.setReactions 0 rest) 0 c e
      rw [hst.phase, hst.queue.1]
      exact ⟨hp, hr⟩
    · obtain ⟨hp | ⟨g, hp⟩, hr⟩ := hk
      · exact hrun s hs hp hr hre
      · have hst : TcpServer.step cfg s.server (.functorReturn 0) = some (s.server.setPhase 0 .functors) := by
          simp [TcpServer.step, hp, hre]
        refine .next hs (.functorReturn 0) rfl hst (hrun _ hs (TcpServer.phase_setPhase ..) hr hre)

/-- A dispatch in which nothing is accepted and every read fails. -/
def idleEnv : TcpServer.DispatchEnv := ⟨none, [], fun _ => ⟨.err EWOULDBLOCK, .ok 0, []⟩⟩

/-- The dispatch of another channel holds no connection that is gone. -/
theorem exists_handleEvent (cfg : Config) {s : TcpServer} (hre : s.reactions 0 = []) {ptr : ChannelPtr}
    (hacc : ∀ c, ptr = .conn c → c < s.accepted) (todo : List ChannelPtr) :
    ∃ s', (s.setActive 0 todo).handleEvent cfg 0 ptr idleEnv = some s' ∧ s'.phase 0 = s.phase 0 ∧
      s'.active 0 = todo ∧ s'.accepted = s.accepted ∧
      ∀ c, ptr ≠ .conn c → s'.Backed cfg c → s.Held cfg c := by
  have hself := TcpServer.setActive_active s 0 todo
  have hsame : ∀ c, (s.setActive 0 todo).Backed cfg c → s.Held cfg c := fun c hb => hb.held hre
  cases ptr with
  | wakeup l => exact ⟨_, rfl, rfl, hself, rfl, fun c _ hb => hsame c hb⟩
  | accept => exact ⟨_, rfl, rfl, hself, rfl, fun c _ hb => hsame c hb⟩
  | conn c =>
    simp only [TcpServer.handleEvent]
    rw [if_neg (not_not.mpr (show c < (s.setActive 0 todo).accepted from hacc c rfl))]
    split
    · exact ⟨_, rfl, rfl, hself, rfl, fun c' _ hb => hsame c' hb⟩
    · refine ⟨_, rfl, rfl, hself, rfl, fun c' hn hb => hb.held_or_eq.resolve_right ?_⟩
      rintro rfl
      exact hn rfl

/-- The channels are dispatched up to the one whose connection is gone. -/
theorem canStale_of_active (hs : s.stage = .destroyed) (hp : s.server.phase 0 = .dispatch)
    (hacc : ∀ c, .conn c ∈ s.server.active 0 → c < s.server.accepted) {c : ConnId}
    (hm : .conn c ∈ s.server.active 0) (hb : ¬ s.server.Backed cfg c) : s.CanStale cfg := by
  generalize hr : s.server.active 0 = todo at hm hacc
  induction todo generalizing s with
  | nil => cases hm
  | cons ptr todo ih =>
    refine canStale_drain (K := fun server => server.phase 0 = .dispatch ∧ server.active 0 = ptr :: todo ∧
      (∀ c, .conn c ∈ ptr :: todo → c < server.accepted) ∧ ¬ server.Backed cfg c)
      (fun server c' e rest ⟨hp, hr, hacc, hb⟩ hre hne => ?_)
      (fun s hs ⟨hp, hr, hacc, hb⟩ hre => ?_) hs ⟨hp, hr, hacc, hb⟩
    · have hst := TcpServer.Stays.react (l := 0) (server.setReactions 0 rest) 0 c' e
      have hrest := TcpServer.reactions_react server 0 rest c' e
      rw [hst.phase, hst.active]
      refine ⟨hp, hr, fun c hm => ?_, ?_⟩
      · rw [TcpServer.accepted_react]
        exact hacc c hm
      · rintro (hheld | ⟨x, hx, hxc⟩)
        · refine hb ?_
          rcases TcpServer.held_of_react hne hheld with hheld | ⟨rfl, hR⟩
          · exact .inl hheld
          · exact .inr ⟨(c', e), hre ▸ List.mem_cons_self, rfl, hR⟩
        · rw [hrest] at hx
          exact hb (.inr ⟨x, hre ▸ List.mem_cons_of_mem _ hx, hxc⟩)
    · have hheld : ¬ s.server.Held cfg c := fun hh => hb (.inl hh)
      obtain ⟨server, hev, hphase, hactive, haccepted, hback⟩ := exists_handleEvent cfg hre
        (fun c hc => hacc c (hc ▸ List.mem_cons_self)) todo
      have hst : TcpServer.step cfg s.server (.dispatch 0 idleEnv) = some server := by
        simp [TcpServer.step, hp, hre, hr, hev]
      by_cases hn : ptr = .conn c
      · exact .here hs (.dispatch 0 idleEnv) rfl hst ⟨c, todo, hn ▸ hr, hheld⟩
      · refine .next hs (.dispatch 0 idleEnv) rfl hst
          (ih hs (hphase.trans hp) (fun hb => hheld (hback c hn hb)) hactive ?_ fun c' hm => ?_)
        · exact (List.mem_cons.mp hm).resolve_left (Ne.symm hn)
        · exact (hacc c' (List.mem_cons_of_mem _ hm)).trans_eq haccepted.symm

/-- What a step finds in hand is not stale. -/
theorem not_stale_of_spared (h : s.server.Spared cfg) (hi : s.Inv cfg)
    (hend : ∀ l, 0 < l → l ≤ s.threads → s.ended l = true) (hst : step cfg s lab = some s') :
    ¬ s.Stale cfg lab := by
  cases move_of_step hst with
  | run lab server hr _ hs =>
    have hl := hr.base hend
    cases TcpServer.move_of_step hs with
    | react l =>
      obtain rfl := hl l rfl
      rintro ⟨c, rest, hre⟩
      exact h.reaction (c, .closeCallback) (hre ▸ List.mem_cons_self) rfl
    | runFunctor l =>
      obtain rfl := hl l rfl
      rintro ⟨c, rest, hrest⟩
      exact h.removal (.removeConnectionInLoop c) (hrest ▸ List.mem_cons_self) rfl
    | dispatch l env ptr rest _ _ hre =>
      obtain rfl := hl l rfl
      rintro ⟨c, rest, hact, hn⟩
      have hm : .conn c ∈ s.server.active 0 := hact ▸ List.mem_cons_self
      exact hn ((h.active c (hi.placed.active 0 _ hm).1 hm).held hre)
    | _ => exact id
  | _ => exact id

/-- What the thread of the base loop has in hand that uses the server, it cannot get rid of without. -/
theorem canStale_of_not_spared (hs : s.stage = .destroyed) (hi : s.Inv cfg) (ho : s.Ordered)
    (hn : ¬ s.server.Spared cfg) : s.CanStale cfg := by
  by_contra hno
  refine hn ⟨fun x hx he => hno (canStale_of_closeCallback hs hx he), fun f hf he => ?_, fun c hc hm => ?_⟩
  · rw [he] at hf
    refine hno (canStale_of_removal hs ?_ hf)
    cases hp : s.server.phase 0 with
    | poll | dispatch =>
      rw [ho.between 0 (by simp [hp])] at hf
      cases hf
    | functors => exact .inl rfl
    | running f => exact .inr ⟨f, rfl⟩
  · by_contra hb
    refine hno (canStale_of_active hs ?_ (fun c hm => (hi.placed.active 0 _ hm).1) hm hb)
    by_contra hp
    rw [ho.focused 0 hp] at hm
    cases hm

/-- With nothing in hand. -/
theorem spared_of_nil {s : TcpServer} (hre : s.reactions 0 = []) (hrest : (s.queue 0).rest = [])
    (hact : s.active 0 = []) : s.Spared cfg :=
  ⟨fun _ hx => absurd (hre ▸ hx) List.not_mem_nil, fun _ hf => absurd (hrest ▸ hf) List.not_mem_nil,
    fun _ _ hm => absurd (hact ▸ hm) List.not_mem_nil⟩

/-- `epoll_wait` is called with nothing in hand. -/
theorem spared_of_poll (ho : s.Ordered) {reports : List (ℕ × Events)}
    (hst : step cfg s (.run (.poll 0 reports)) = some s') : s.server.Spared cfg := by
  cases move_of_step hst with
  | run lab server _ hidle hs =>
    cases TcpServer.move_of_step hs with
    | poll l _ _ hp => exact spared_of_nil hidle (ho.between 0 (.inl hp)) (ho.focused 0 (by simp [hp]))

/-- A pointer that is given up, or goes from one place to another. -/
theorem spared_of_same {s s' : TcpServer} (h : s'.Spared cfg) (hacc : s'.accepted = s.accepted)
    (hact : s'.active 0 = s.active 0) (hre : s'.reactions 0 = s.reactions 0)
    (hq : (s'.queue 0).rest = (s.queue 0).rest)
    (hheld : ∀ c, s'.Held cfg c → s.Held cfg c) : s.Spared cfg :=
  h.of_same hacc.symm hact.symm hre.symm hq.symm fun c _ _ hb => hb.mono (hheld c) hre.symm

/-- A step of the base loop or of another thread that is not stale gets rid of nothing. -/
theorem spared_of_run (ho : s.Ordered) {lab : TcpServer.Label} (hl : ∀ l, lab.loop = some l → l = 0)
    (hidle : s.Idle lab) (hacc : ¬ s.server.DispatchesAcceptor lab) (hstale : ¬ s.Stale cfg (.run lab))
    {server : TcpServer} (hst : TcpServer.step cfg s.server lab = some server) (h : server.Spared cfg) :
    s.server.Spared cfg := by
  have hworker : ∀ {t c}, (s.server.worker t).conn = some c → t < cfg.workers → s.server.Held cfg c :=
    fun hw ht => .inr (.inr (.inr ⟨_, ht, hw⟩))
  cases TcpServer.move_of_step hst with
  | poll l _ _ hp =>
    obtain rfl := hl l rfl
    exact spared_of_nil hidle (ho.between 0 (.inl hp)) (ho.focused 0 (by simp [hp]))
  | dispatch l env ptr rest _ hp hre ha hev =>
    obtain rfl := hl l rfl
    refine ⟨fun _ hx => absurd (hre ▸ hx) List.not_mem_nil, ?_, fun c hc hm => .inl ?_⟩
    · rw [ho.between 0 (.inr hp)]
      exact fun _ hf => absurd hf List.not_mem_nil
    have hself := TcpServer.setActive_active s.server 0 rest
    rw [ha] at hm
    rcases List.mem_cons.mp hm with rfl | hrest
    · by_contra hn
      exact hstale ⟨c, rest, ha, hn⟩
    · rcases TcpServer.handleEvent_cases hev with rfl | ⟨rfl, -⟩ | ⟨c', -, rfl, -, rfl⟩
      · exact (h.active c hc (hself.symm ▸ hrest)).held hre
      · exact absurd (by simp [TcpServer.DispatchesAcceptor, ha]) hacc
      · rcases (h.active c hc (hself.symm ▸ hrest)).held_or_eq with hheld | rfl
        · exact hheld
        · by_contra hn
          exact hstale ⟨c, rest, ha, hn⟩
  | react l c e rest hre =>
    obtain rfl := hl l rfl
    have hne : e ≠ .closeCallback := by
      rintro rfl
      exact hstale ⟨c, rest, hre⟩
    have hrest := TcpServer.reactions_react s.server 0 rest c e
    have hs := TcpServer.Stays.react (l := 0) (s.server.setReactions 0 rest) 0 c e
    have haccepted := TcpServer.accepted_react (s.server.setReactions 0 rest) c e
    refine ⟨fun x hx => ?_, hs.queue.1 ▸ h.removal, fun c' hc hm => ?_⟩
    · rw [hre] at hx
      rcases List.mem_cons.mp hx with rfl | hx
      · exact hne
      · exact h.reaction x (hrest.symm ▸ hx)
    · rcases h.active c' (haccepted.symm ▸ hc) (hs.active.symm ▸ hm) with hheld | ⟨x, hx, hxc⟩
      · rcases TcpServer.held_of_react hne hheld with hheld | ⟨rfl, hR⟩
        · exact .inl hheld
        · exact .inr ⟨(c, e), hre ▸ List.mem_cons_self, rfl, hR⟩
      · rw [hrest] at hx
        exact .inr ⟨x, hre ▸ List.mem_cons_of_mem _ hx, hxc⟩
  | doPendingFunctors l hp hre ha =>
    obtain rfl := hl l rfl
    exact spared_of_nil hre (ho.between 0 (.inr hp)) ha
  | runFunctor l env f rest hp hre hr =>
    obtain rfl := hl l rfl
    have hf : f ≠ .removeConnectionInLoop f.conn := by
      intro hf
      exact hstale ⟨f.conn, rest, hf ▸ hr⟩
    have hq := (TcpServer.Stays.callFunctor (l := 0) s.server 0 env f).queue.1
    have hq' : (((s.server.callFunctor 0 env f).advance 0).setPhase 0 (.running f)).queue 0 =
        ((s.server.callFunctor 0 env f).queue 0).advance :=
      TcpServer.queue_setQueue (s.server.callFunctor 0 env f) 0 _
    refine ⟨fun _ hx => absurd (hre ▸ hx) List.not_mem_nil, fun g hg => ?_, fun c _ hm => ?_⟩
    · rw [hr] at hg
      rcases List.mem_cons.mp hg with rfl | hg
      · exact hf
      · refine h.removal g ?_
        rw [hq', TaskQueue.advance_rest, hq, hr]
        exact hg
    · rw [ho.focused 0 (by simp [hp])] at hm
      cases hm
  | functorReturn l => exact ⟨h.reaction, h.removal, h.active⟩
  | endFunctors l hp hre hr =>
    obtain rfl := hl l rfl
    exact spared_of_nil hre hr (ho.focused 0 (by simp [hp]))
  | userAct l c a _ hre _ _ _ hheld =>
    obtain rfl := hl l rfl
    refine ⟨fun _ hx => absurd (hre ▸ hx) List.not_mem_nil, h.removal, fun c' hc hm => .inl ?_⟩
    rcases (h.active c' hc hm).held_or_eq with hh | rfl
    · exact hh
    · exact hheld
  | keep c _ hheld => exact spared_of_same h rfl rfl rfl rfl fun c' => TcpServer.held_setRefs fun _ => hheld
  | drop c hpos =>
    exact spared_of_same h rfl rfl rfl rfl fun c' => TcpServer.held_setRefs fun _ => .inr (.inr (.inl hpos))
  | workerTake t c _ _ _ _ hheld =>
    refine spared_of_same h rfl rfl rfl rfl fun c' => TcpServer.held_setWorker fun _ c hc => ?_
    obtain rfl := Option.some.inj hc
    exact hheld
  | workerTest t call c hw =>
    refine spared_of_same h rfl rfl rfl rfl fun c' => TcpServer.held_setWorker fun ht c'' hc => ?_
    rw [TcpServer.tested_conn] at hc
    exact hworker (hw ▸ hc) ht
  | workerStore t c hw =>
    refine spared_of_same h rfl rfl rfl rfl fun c' hh => ?_
    exact TcpServer.held_setWorker (s := s.server.setState c .kDisconnecting)
      (fun ht c'' hc => hworker (hw ▸ hc) ht) hh
  | workerQueue t c call hw =>
    have hs := TcpServer.Stays.push (l := 0) s.server (s.server.loopOf c) (call.functor c)
    refine spared_of_same h rfl hs.active rfl hs.queue.1 fun c' hh => ?_
    refine (TcpServer.held_push (TcpServer.held_setWorker (fun ht c'' hc => ?_) hh)).resolve_right fun hf => ?_
    · exact (hworker (t := t) (hw ▸ hc) ht).push _ _
    · cases call <;> cases hf.1
  | workerDrop t c =>
    exact spared_of_same h rfl rfl rfl rfl fun c' => TcpServer.held_setWorker fun _ c hc => by cases hc

/-- No step of anybody gets rid of what the thread of the base loop has in hand. -/
theorem not_spared_of_step (hd : s.stage = .destroyed) (ho : s.Ordered) (hn : ¬ s.server.Spared cfg)
    (hstale : ¬ s.Stale cfg lab) (hacc : ¬ s.UsesAcceptor lab) (hst : step cfg s lab = some s') :
    s'.stage = .destroyed ∧ ¬ s'.server.Spared cfg := by
  cases move_of_step hst with
  | run lab server hr hidle hs =>
    refine ⟨hd, fun h => hn ?_⟩
    exact spared_of_run ho (hr.base (ho.destroyed hd)) hidle (fun h => hacc ⟨hd, h⟩) hstale hs h
  | call c a _ hp hre =>
    exact absurd (spared_of_nil hre (ho.between 0 (.inl hp)) (ho.focused 0 (by simp [hp]))) hn
  | endLoop l h0 hl he => exact absurd (he.symm.trans (ho.destroyed hd l h0 hl)) (by simp)
  | runListen => exact absurd hd hacc
  | destroy order hs => simp [hd] at hs
  | start _ hs | startLoop _ hs | listen hs | queueListen _ hs | closeNext _ _ _ hs | closed hs | join _ hs
  | finish _ hs =>
    rw [hd] at hs
    cases hs

/-- The thread of the base loop can come to a stale step before it calls `epoll_wait` again, and it does not
come to `epoll_wait` without one, or without using the acceptor. -/
def Doomed (cfg : Config) (s : ServerLife) : Prop :=
  s.CanStale cfg ∧ ∀ labs reports r, (sys cfg).exec s (labs ++ [.run (.poll 0 reports)]) = some r →
    ¬ (sys cfg).Along (fun s lab _ => ¬ s.Stale cfg lab ∧ ¬ s.UsesAcceptor lab) s labs

theorem doomed_of_not_spared (hs : s.stage = .destroyed) (hi : s.Inv cfg) (ho : s.Ordered)
    (hn : ¬ s.server.Spared cfg) : s.Doomed cfg := by
  refine ⟨canStale_of_not_spared hs hi ho hn, fun labs reports r hr hal => ?_⟩
  induction labs generalizing s with
  | nil =>
    obtain ⟨s', hst, -⟩ := Sys.exec_cons_eq_some.mp hr
    exact hn (spared_of_poll ho hst)
  | cons lab labs ih =>
    obtain ⟨s', hst, hr⟩ := Sys.exec_cons_eq_some.mp hr
    obtain ⟨⟨hstale, hacc⟩, hal⟩ := hal s' hst
    obtain ⟨hs', hn'⟩ := not_spared_of_step hs ho hn hstale hacc hst
    exact ih hs' (hi.step hst) (ho.step hst) hn' hr hal

/-- **Nothing uses the destroyed server** in a run whose steps are clean: after the destructor no step calls
`removeConnection` or `removeConnectionInLoop`, or dispatches an event to a connection that has been
destroyed.  A step that is not clean uses the destroyed acceptor, or leaves the base loop no way back to
`epoll_wait` but over a stale step. -/
theorem not_stale_of_destroyed (h : (sys cfg).Reach (Clean cfg) s) (hst : step cfg s lab = some s') :
    (s.stage = .destroyed → ¬ s.Stale cfg lab) ∧
      (¬ s.Clean cfg lab → s.UsesAcceptor lab ∨ s'.Doomed cfg) := by
  have hi := inv_of_reach h
  have ho := ordered_of_reach h
  have hspared := spared_of_reach h
  refine ⟨fun hd => not_stale_of_spared (hspared hd) hi (ho.destroyed hd) hst, fun hn => ?_⟩
  have hdoomed : s'.stage = .destroyed → ¬ s'.server.Spared cfg → s'.Doomed cfg := fun hd hn =>
    doomed_of_not_spared hd (hi.step hst) (ho.step hst) hn
  cases move_of_step hst with
  | run lab server hr hidle hs =>
    have hd : s.stage = .destroyed := by
      by_contra hd
      exact hn fun hd' => absurd hd' hd
    have hns : ¬ s.server.Spares cfg lab := fun hsp => hn fun _ => hsp
    by_cases hacc : s.server.DispatchesAcceptor lab
    · exact .inl ⟨hd, hacc⟩
    · refine .inr (hdoomed hd fun h' => hacc ?_)
      refine (TcpServer.spares_or_dispatchesAcceptor (hspared hd) hi.placed (hr.base (ho.destroyed hd)) ?_ hs
        h').resolve_left hns
      rintro l reports rfl
      exact hidle
  | runListen => exact .inl (not_not.mp hn)
  | finish l hs hl => exact .inr (hdoomed rfl fun h' => hn ⟨h'.reaction, h'.removal, h'.active⟩)
  | _ => exact absurd trivial hn

/-! ### Two runs -/

/-- A server without sub loops. -/
def single : Config := { TcpServer.config with numThreads := 0 }

/-- A dispatch that reads one byte. -/
def dataEnv : TcpServer.DispatchEnv := ⟨none, [], fun _ => ⟨.ok [5], .ok 0, []⟩⟩

/-- Two connections are accepted in the base loop, the user keeps a pointer to the second one, and there is data
on both: the callback of the first one destroys the server. -/
def destroyedInCallback : List Label :=
  [.start (.loop 0), .listen] ++
    ([.poll 0 [(3, ⟨true, false, false, false, false⟩)], .dispatch 0 (TcpServer.dispatchEnv 7), .react 0,
      .doPendingFunctors 0, .endFunctors 0,
      .poll 0 [(3, ⟨true, false, false, false, false⟩)], .dispatch 0 (TcpServer.dispatchEnv 8), .react 0,
      .doPendingFunctors 0, .endFunctors 0, .keep 1,
      .poll 0 [(7, ⟨true, false, false, false, false⟩), (8, ⟨true, false, false, false, false⟩)],
      .dispatch 0 dataEnv, .react 0] : List TcpServer.Label).map .run ++
    [.destroy [0, 1], .closeNext [], .run (.react 0), .closeNext [], .run (.react 0), .closed, .finish]

/-- The data of the second connection is read after the destructor, by a connection that is held. -/
theorem not_stale_destroyedInCallback : ∃ s, (sys single).Reach (Clean single) s ∧ s.stage = .destroyed ∧
    s.server.active 0 = [.conn 1] ∧ (step single s (.run (.dispatch 0 dataEnv))).isSome = true ∧
    ¬ s.Stale single (.run (.dispatch 0 dataEnv)) := by
  obtain ⟨s, hr, hs, ha, hst⟩ := Sys.Reach.exists_of_execIf (M := sys single)
    (s := construct single) (C := Clean single)
    (P := fun s => s.stage = .destroyed ∧ s.server.active 0 = [.conn 1] ∧
      (step single s (.run (.dispatch 0 dataEnv))).isSome = true)
    (.init rfl) destroyedInCallback (by decide +kernel)
  obtain ⟨s', hst'⟩ := Option.isSome_iff_exists.mp hst
  exact ⟨s, hr, hs, ha, hst, (not_stale_of_destroyed hr hst').1 hs⟩

/-- The destructor of a server with one connection, in the thread of the base loop. -/
def destroying : List Label :=
  [.destroy [0], .closeNext [], .closed, .endLoop 1, .join, .finish]

/-- The peer has closed the connection, and `removeConnectionInLoop` waits in the base loop when the
server is destroyed: the base loop calls it on the destroyed server. -/
theorem stale_removeConnectionInLoop : ∃ s, (sys TcpServer.config).Reach (fun _ _ => True) s ∧
    s.stage = .destroyed ∧
    (step TcpServer.config s (.run (.runFunctor 0 TcpServer.quiet))).isSome = true ∧
    s.Stale TcpServer.config (.run (.runFunctor 0 TcpServer.quiet)) := by
  obtain ⟨s, hr, hs, hst, hrest⟩ := Sys.Reach.exists_of_execIf (M := sys TcpServer.config)
    (s := construct TcpServer.config) (C := fun _ _ => True)
    (P := fun s => s.stage = .destroyed ∧
      (step TcpServer.config s (.run (.runFunctor 0 TcpServer.quiet))).isSome = true ∧
      (s.server.queue 0).rest = [.removeConnectionInLoop 0])
    (.init rfl)
    (opened ++ ((TcpServer.closing 7).take 6).map .run ++ destroying ++
      (TcpServer.taking 0).map .run) (by decide +kernel)
  exact ⟨s, hr, hs, hst, 0, [], hrest⟩

end ServerLife

end Mymuduo
