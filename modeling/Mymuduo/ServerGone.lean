import Mymuduo.CloseOnce
import Mymuduo.ServerReport

/-!
# Mymuduo.ServerGone — what becomes of a connection that is closed (`TcpConnection.cc`, `TcpServer.cc`)

* A connection that is closed is on its way out: its `closeCallback` is to be called, or its removal or its
  destruction is queued or done (`leaving_of_reach`).
* In an infinite run in which the thread of each loop comes on again and again it is in the end out of
  `connections`, destroyed, and unknown to epoll (`leadsTo_gone`).
* So is every connection whose peer hangs up (`hung_up_gone`).
-/

namespace Mymuduo

open Lib Events

/-! ### A dispatch that closes -/

namespace Io

variable {io : Io}

theorem closeCallback_mem_handleClose (acts : List UserAct) (io : Io) :
    .closeCallback ∈ (io.handleClose acts).trace := by
  simp [handleClose_trace]

/-- A dispatch that closes the connection calls `closeCallback`. -/
theorem closeCallback_of_closed (hs : io.conn.state ≠ .kDisconnected) {env : Callback → CallbackEnv}
    (hd : (io.handleEventWithGuard env).conn.state = .kDisconnected) :
    .closeCallback ∈ (io.handleEventWithGuard env).trace := by
  refine dispatch_keeps (P := fun io => io.conn.state = .kDisconnected → .closeCallback ∈ io.trace)
    (fun io cb hio hd => ?_) (fun h => absurd h hs) hd
  cases cb with
  | close => exact closeCallback_mem_handleClose ..
  | error => exact hio hd
  | read =>
    simp only [callback] at hd ⊢
    cases hread : (env .read).read with
    | err e =>
      rw [hread] at hd
      exact hio hd
    | ok data =>
      rw [hread] at hd
      simp only [handleRead] at hd ⊢
      split
      · exact closeCallback_mem_handleClose ..
      next hne =>
        rw [if_neg hne] at hd
        have hold := disconnected_of_user hd
        have hmem := List.mem_append_left [.messageCallback] (hio hold)
        exact ((Steps.refl _).user any_event (env .read).acts).prefix_trace.subset hmem
  | write =>
    have hmem := hio ((handleWrite_state _ io).symm.trans hd)
    exact ((Steps.refl io).handleWrite any_event _).prefix_trace.subset hmem

end Io

namespace TcpServer

variable {cfg : Config} {p : Policy} {s s' : TcpServer} {c : ConnId} {lab : Label}
  {x : TcpServer × List (ConnId × Event)}

/-! ### On its way out -/

/-- `closeCallback` is to be called, or the removal is queued, or the connection has been removed and is to be
destroyed. -/
def Leaving (c : ConnId) (s : TcpServer) : Prop :=
  Closes c s ∨ .removeConnectionInLoop c ∈ (s.queue 0).unrun ∨
    s.connections (s.nameOf c) ≠ some c ∧
      (.connectDestroyed c ∈ (s.queue (s.loopOf c)).unrun ∨ s.destroyed c = true)

theorem Leaving.of_ran (h : s.Ran (.removeConnectionInLoop c)) : Leaving c s :=
  .inr (.inr ⟨h.1, .inl h.2⟩)

theorem Leaving.step {F : LoopId → ℕ → ChannelPtr → Prop} (h : Leaving c s) (hp : Placed cfg F s)
    (hr : Rested s) (hb : Between s) (hc : c < s.accepted) (hst : TcpServer.step cfg s lab = some s') :
    Leaving c s' := by
  have hloop := (loopOf_of_step hc hst).2
  rcases h with h | h | ⟨he, h⟩
  · rcases reaction_step hp hr hst h with ⟨rest, rfl⟩ | ⟨hre, -⟩
    · rcases removed_or_queued (s.setReactions (s.loopOf c) rest) (s.loopOf c) c with hran | hq
      · exact .of_ran hran
      · exact .inr (.inl hq)
    · refine .inl ?_
      rw [Closes, hloop]
      exact hre
  · rcases waits_or_ran hb hst h with hq | ⟨-, hran⟩
    · exact .inr (.inl hq)
    · exact .of_ran hran
  · refine .inr (.inr ⟨entry_of_step hc he hst, ?_⟩)
    rw [hloop]
    rcases h with hq | hd
    · exact (waits_or_ran hb hst hq).imp_right fun hran => hran.2
    · exact .inr ((done_of_step hst).2 hd)

/-- The step that closes a connection calls its `closeCallback`. -/
theorem closes_of_step (h : ((sys cfg).logged shown).Reach (fun x => Obeys p x.1) x) (hc : c < x.1.accepted)
    (hs : (x.1.conn c).state ≠ .kDisconnected) (hob : x.1.Obeys p lab)
    (hst : TcpServer.step cfg x.1 lab = some s') (hd : (s'.conn c).state = .kDisconnected) : Closes c s' := by
  cases ConnStep.of_step (.of_logged h) hc hob hst with
  | same hconn =>
    rw [hconn] at hd
    exact absurd hd hs
  | poll _ y _ _ _ _ _ _ _ hcall =>
    rw [hcall.conn] at hd
    exact absurd hd hs
  | connectEstablished acts _ _ hcall =>
    rw [hcall.conn] at hd
    exact absurd hd (Io.connectEstablished_ne _ _)
  | connectDestroyed acts _ _ _ hcall _ hdest =>
    -- it has called `closeCallback` before
    have hx' := h.step (l := lab) hob (Sys.step_logged.mpr ⟨s', hst, rfl⟩)
    have hm := mem_eventsOf.mpr ((Announced.of_reach hx').2.past c hdest)
    rw [eventsOf_append, hcall.events] at hm
    obtain ⟨-, -, evs, ht, hevs⟩ := Io.connectDestroyed_spec acts (x.1.io c)
    rcases List.mem_append.mp hm with hm | hm
    · obtain ⟨k, hk, hview, -⟩ := exists_view h hc
      rw [← hview.trace] at hm
      rw [← hview.conn] at hs
      exact absurd ((Conn.disconnected_of_reach hk).2 hm) hs
    · rw [ht] at hm
      exact absurd (hevs _ hm) (by simp [Event.Reacts])
  | user acts _ _ hcall =>
    rw [hcall.conn] at hd
    exact absurd (Io.disconnected_of_user hd) hs
  | dispatch env _ hlab _ _ _ _ _ hcall =>
    rw [hcall.conn] at hd
    have hm := Io.closeCallback_of_closed hs hd
    rw [← hcall.events, hlab] at hm
    rw [Closes, (loopOf_of_step hc hst).2]
    exact mem_eventsOf.mp hm

/-- **No close is forgotten.**  A connection that is closed is on its way out. -/
theorem leaving_of_reach (h : ((sys cfg).logged shown).Reach (fun x => Obeys p x.1) x) (hc : c < x.1.accepted)
    (hd : (x.1.conn c).state = .kDisconnected) : Leaving c x.1 := by
  induction h with
  | init hx =>
    rw [show _ = TcpServer.start cfg from hx.1] at hc
    exact absurd hc (Nat.not_lt_zero c)
  | @step x y lab hx hob hst ih =>
    obtain ⟨s', hst', rfl⟩ := Sys.step_logged.mp hst
    have hreach := Sys.Reach.of_logged hx
    by_cases hc' : c < x.1.accepted
    · by_cases hs : (x.1.conn c).state = .kDisconnected
      · exact (ih hc' hs).step (.of_reach hreach) (.of_reach hreach) (.of_reach hreach) hc' hst'
      · exact .inl (closes_of_step hx hc' hs hob hst' hd)
    · obtain ⟨rfl, hborn⟩ := ConnBorn.of_step (.of_logged hx) hob hst' hc' hc
      exfalso
      cases hborn with
      | queued _ _ hconn =>
        rw [hconn] at hd
        cases hd
      | established _ _ _ acts _ hconn =>
        rw [hconn] at hd
        exact absurd hd (Io.connectEstablished_ne _ _)

/-! ### Gone -/

/-- The connection is out of the table, `connectDestroyed` has been called, and no epoll knows its channel. -/
structure Gone (c : ConnId) (s : TcpServer) : Prop where
  removed : s.connections (s.nameOf c) ≠ some c
  destroyed : s.destroyed c = true
  unknown : ∀ l fd m, (s.poller l).epoll fd ≠ some (m, .conn c)

theorem Gone.of_destroyed (hs : Sound cfg s) (he : s.connections (s.nameOf c) ≠ some c)
    (hd : s.destroyed c = true) : Gone c s := by
  refine ⟨he, hd, fun l fd m hm => ?_⟩
  obtain ⟨⟨hc, -⟩, -, hidx⟩ := hs.placed.entry l fd m _ hm
  have hlive := hs.reg.live c hc (.inl (by rw [hidx]; simp))
  rw [hlive.2] at hd
  cases hd

section Runs

variable {r : ((sys cfg).logged shown).Run fun x => Obeys p x.1}
  (hfair : ∀ l ≤ cfg.numThreads, r.Often (Label.advances l))
include hfair

/-- What is on its way out gets there. -/
theorem leadsTo_gone (c : ConnId) :
    r.LeadsTo (fun x => c < x.1.accepted ∧ Leaving c x.1) fun x => Gone c x.1 := by
  intro n hn
  obtain ⟨hc, h⟩ := hn
  have hremoved : ∀ {m}, n ≤ m → (r.state m).1.Ran (.removeConnectionInLoop c) →
      ∃ k, n ≤ k ∧ Gone c (r.state k).1 := by
    intro m hm hran
    obtain ⟨k, hk, he, hd⟩ := removed_destroyed (r := r.ofLogged) hfair (lt_accepted hm hc) hran
    exact ⟨k, hm.trans hk, .of_destroyed (.of_logged (r.reach k)) he hd⟩
  rcases h with h | h | ⟨he, hq | hd⟩
  · obtain ⟨m, hm, hran⟩ := closes_removed (r := r.ofLogged) hfair hc h
    exact hremoved hm hran
  · obtain ⟨m, hm, -, hran⟩ := leadsTo_ran (r := r.ofLogged) (hfair 0 (Nat.zero_le _)) _ n h
    exact hremoved hm hran
  · have hloop := loopOf_le (Sys.Reach.of_logged (r.reach n)) hc
    obtain ⟨m, hm, -, hd⟩ := leadsTo_ran (r := r.ofLogged) (hfair _ hloop) _ n hq
    have he' := removed_kept (r := r.ofLogged) hm hc he
    exact ⟨m, hm, .of_destroyed (.of_logged (r.reach m)) he' hd⟩
  · exact ⟨n, le_rfl, .of_destroyed (.of_logged (r.reach n)) he hd⟩

end Runs

/-! ### The peer hangs up -/

/-- The read of a dispatch finds the end of the stream, if epoll has reported that there is something to
read. -/
def ReadEnds (c : ConnId) (s : TcpServer) : Label → Prop
  | .dispatch l env => (s.active l).head? = some (.conn c) →
    (s.conn c).channel.revents.epollin = true → (env.callbacks .read).read = .ok []
  | _ => True

/-- epoll reports the connection again and again, and from some moment on its reads find the end of the
stream. -/
structure HangsUp (c : ConnId) (r : ((sys cfg).logged shown).Run fun x => Obeys p x.1) : Prop where
  reported : KeepsReporting Events.epollin c r
  ended : ∃ k, ∀ n, k ≤ n → ReadEnds c (r.state n).1 (r.label n)

/-- An established connection that is not closed is watched for reading. -/
theorem registeredFor_of_open (h : ((sys cfg).logged shown).Reach (fun x => Obeys p x.1) x)
    (hc : c < x.1.accepted) (hest : x.1.established c = true) (hs : (x.1.conn c).state ≠ .kDisconnected) :
    x.1.RegisteredFor Events.epollin c := by
  have hr := (Watching.of_reach h c hc hest (not_destroyed h hc hs)).resolve_left hs
  exact ⟨((x.1.conn c).channel.events, .conn c), registered_of_open h hc hest hs, rfl, hr.epollin⟩

/-- A dispatch for reading that finds the end of the stream closes the connection. -/
theorem closes_of_dispatched {env : DispatchEnv} (hc : c < s.accepted)
    (hd : Dispatched Events.epollin c env s lab s') (hends : ReadEnds c s lab)
    (hst : TcpServer.step cfg s lab = some s') : Closes c s' := by
  obtain ⟨rfl, hact, hin, hcall⟩ := hd
  have hmem : .closeCallback ∈ ((s.io c).handleEventWithGuard env.callbacks).trace :=
    (Io.closeCallback_mem_dispatch env.callbacks _).mpr (.inr (.inr ⟨.inl hin, hends hact hin⟩))
  rw [← hcall.events] at hmem
  rw [Closes, (loopOf_of_step hc hst).2]
  exact mem_eventsOf.mp hmem

/-- **A connection whose peer hangs up is in the end gone**: in every infinite run in which the threads of the
loops come on again and again, it is taken out of `connections`, destroyed, and unknown to epoll. -/
theorem hung_up_gone (r : ((sys cfg).logged shown).Run fun x => Obeys p x.1)
    (hfair : ∀ l ≤ cfg.numThreads, r.Often (Label.advances l)) (hu : HangsUp c r) :
    r.LeadsTo (fun x => c < x.1.accepted ∧ x.1.established c = true) fun x => Gone c x.1 := by
  intro n hn
  obtain ⟨k, hk⟩ := hu.ended
  have hstay : ∀ m, n ≤ m → c < (r.state m).1.accepted ∧ (r.state m).1.established c = true := fun m hm =>
    ⟨lt_accepted hm hn.1, Sys.Run.stable (r := r.ofLogged) (P := fun s => s.established c = true)
      (fun j hj => (done_of_step (r.ofLogged.next j)).1 hj) hn.2 hm⟩
  obtain ⟨m, hm, hleave⟩ : ∃ m, n ≤ m ∧ Leaving c (r.state m).1 := by
    by_contra hno
    have hreg : ∀ m, n ≤ m → (r.state m).1.RegisteredFor Events.epollin c := by
      intro m hm
      obtain ⟨hc, hest⟩ := hstay m hm
      exact registeredFor_of_open (r.reach m) hc hest fun hd =>
        hno ⟨m, hm, leaving_of_reach (r.reach m) hc hd⟩
    have hmax := le_max_left n k
    obtain ⟨m, hm, hout | ⟨env, s', hd, he⟩⟩ :=
      hu.reported.exists_dispatched hfair (hstay _ hmax).1 (hreg _ hmax)
    · exact hout (hreg m (hmax.trans hm))
    · refine hno ⟨m + 1, Nat.le_succ_of_le (hmax.trans hm), .inl ?_⟩
      have hst := r.ofLogged.next m
      rw [show (r.ofLogged.state (m + 1)) = s' from congrArg Prod.fst he] at hst
      rw [he]
      exact closes_of_dispatched (hstay m (hmax.trans hm)).1 hd (hk m ((le_max_right n k).trans hm)) hst
  obtain ⟨j, hj, hgone⟩ := leadsTo_gone hfair c m ⟨(hstay m hm).1, hleave⟩
  exact ⟨j, hm.trans hj, hgone⟩

/-- The connection has just been established. -/
theorem hung_up_gone_opened : ∃ r : ((sys config).logged shown).Run fun x => Obeys .any x.1,
    (r.state 0).1.established 0 = true ∧
      r.LeadsTo (fun x => 0 < x.1.accepted ∧ x.1.established 0 = true) fun x => Gone 0 x.1 := by
  obtain ⟨x, hx, hest⟩ := Sys.Reach.exists_of_execIf (M := (sys config).logged shown)
    (s := (TcpServer.start config, [])) (C := fun x => Obeys .any x.1)
    (P := fun x => x.1.established 0 = true) (.init ⟨rfl, rfl⟩) (opening 7) (by decide +kernel)
  obtain ⟨r, rfl, hfair, hrep, hcb⟩ := exists_reporting_run (e := Events.epollin)
    (m := ⟨true, false, false, false, false⟩) (fun y hy => by simp [Reportable, kNoneEvent, hy])
    (show Policy.Quiet .any (dispatchEnv 7).callbacks from .any) hx 0 rfl
  refine ⟨r, hest, hung_up_gone r hfair ⟨hrep, 0, fun n _ => ?_⟩⟩
  unfold ReadEnds
  split
  next l env he =>
    rw [hcb n l env he]
    exact fun _ _ => rfl
  next => trivial

end TcpServer

end Mymuduo
