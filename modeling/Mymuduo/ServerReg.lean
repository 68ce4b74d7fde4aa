import Mymuduo.PollerRecords

/-!
# Mymuduo.ServerReg — who is registered with the pollers

In the runs in which only the loop threads call the functions of a connection, the channels in the
records of the pollers and in `activeChannels` are those of connections that are `Live`: established and
not destroyed.  What `Own` says of such connections then makes the plain pointers valid.

* `Alive`: a connection is registered, active or kConnected only while it is live;
* `Once`: `connectEstablished` is queued at most once and runs at most once;
* `Reg.step`: together with `Registered` they are an invariant of the steps of the loops.
-/

namespace Mymuduo

open Lib

/-! ### Events the thread of a loop reacts to -/

def Event.Reacts : Event → Bool
  | .closeCallback | .writeComplete | .highWaterMark _ => true
  | _ => false

/-- `connectDestroyed` leaves the channel unregistered, and nothing to react to. -/
theorem Io.connectDestroyed_spec (acts : List UserAct) (io : Io) :
    (io.connectDestroyed acts).conn.channel.index = .kNew ∧
    (io.connectDestroyed acts).conn.state ≠ .kConnected ∧
    ∃ evs, (io.connectDestroyed acts).trace = io.trace ++ evs ∧ ∀ e ∈ evs, e.Reacts = false := by
  obtain ⟨b, hb⟩ := connectDestroyed_eq acts io
  rw [hb]
  refine ⟨rfl, ?_, ?_⟩
  · by_cases h : io.conn.state = .kConnected
    · simp [h, closed]
    · simp [h]
  · by_cases h : io.conn.state = .kConnected
    · exact ⟨[.connectionCallback false], by simp [h, closed], by simp [Event.Reacts]⟩
    · exact ⟨[], by simp [h], by simp⟩

namespace TcpServer

/-! ### The invariant -/

section Defs

variable (cfg : Config) (s : TcpServer)

/-- `connectEstablished` has run and `connectDestroyed` has not. -/
def Live (c : ConnId) : Prop := s.established c = true ∧ s.destroyed c = false

structure Alive : Prop where
  live : ∀ c < s.accepted, (s.conn c).channel.index ≠ .kNew ∨ (s.conn c).state = .kConnected →
    s.Live c
  active : ∀ l c, .conn c ∈ s.active l → c < s.accepted ∧ s.loopOf c = l ∧ s.Live c
  reaction : ∀ l, ∀ x ∈ s.reactions l, s.loopOf x.1 = l ∧ (x.2.Reacts = true → s.Live x.1)
  removal : ∀ c l, .removeConnectionInLoop c ∈ (s.queue l).unrun → s.established c = true
  destroy : ∀ c l, .connectDestroyed c ∈ (s.queue l).unrun → s.established c = true
  past : ∀ c, s.destroyed c = true → s.established c = true
  owns : ∀ l, ∀ f ∈ (s.queue l).held, f.owns = true

def Once : Prop :=
  ∀ c l, (s.queue l).unrun.count (.connectEstablished c) + (s.established c).toNat ≤ 1

structure Reg : Prop extends Registered cfg s, Alive s where
  once : s.Once

end Defs

variable {cfg : Config} {s s' : TcpServer} {l : LoopId} {c : ConnId}

/-- Nothing is recorded for a free descriptor. -/
theorem Reg.no_entry (h : Reg cfg s) (ho : Own cfg s) {fd : ℕ} (hf : s.FreeFd cfg fd) (l : LoopId)
    (ptr : ChannelPtr) : ¬ (s.poller l).Entry fd ptr := by
  intro he
  rcases h.entry l fd ptr he with ⟨hr, -⟩ | ⟨c, hc, -, -, hfd, hi⟩
  · exact hf.1 hr
  · exact hf.2 c hc (ho.held hc (h.live c hc (.inl hi)).2) hfd

/-! ### Between `connectEstablished` and `connectDestroyed` -/

theorem Alive.push (h : Alive s) {f : Functor} (ho : f.owns = true)
    (hr : ∀ c, f = .removeConnectionInLoop c → s.established c = true)
    (hd : ∀ c, f = .connectDestroyed c → s.established c = true) : Alive (s.push l f) where
  live := h.live
  active := h.active
  reaction := h.reaction
  removal c l' hm := (mem_unrun_push hm).elim (h.removal c l') fun he => hr c he.symm
  destroy c l' hm := (mem_unrun_push hm).elim (h.destroy c l') fun he => hd c he.symm
  past := h.past
  owns l' g hm := (mem_held_push hm).elim (h.owns l' g) fun he => he ▸ ho

/-- A queue with fewer tasks. -/
theorem Alive.setQueue (h : Alive s) {q : TaskQueue Functor}
    (hu : ∀ f ∈ q.unrun, f ∈ (s.queue l).unrun) (hh : ∀ f ∈ q.held, f ∈ (s.queue l).held) :
    Alive (s.setQueue l q) := by
  have hunrun := forall_setQueue (P := fun l' q => ∀ f ∈ q.unrun, f ∈ (s.queue l').unrun) hu
    fun _ _ hf => hf
  have hheld := forall_setQueue (P := fun l' q => ∀ f ∈ q.held, f ∈ (s.queue l').held) hh
    fun _ _ hf => hf
  exact { h with
    removal := fun c l' hm => h.removal c l' (hunrun l' _ hm)
    destroy := fun c l' hm => h.destroy c l' (hunrun l' _ hm)
    owns := fun l' f hm => h.owns l' f (hheld l' f hm) }

theorem Alive.setActive (h : Alive s) (active : List ChannelPtr)
    (ha : ∀ c, .conn c ∈ active → c < s.accepted ∧ s.loopOf c = l ∧ s.Live c) :
    Alive (s.setActive l active) := by
  have hactive : ∀ l' c, .conn c ∈ (s.setActive l active).active l' →
      c < s.accepted ∧ s.loopOf c = l' ∧ s.Live c :=
    forall_update (P := fun l' (active : List ChannelPtr) => ∀ c, .conn c ∈ active →
      c < s.accepted ∧ s.loopOf c = l' ∧ s.Live c) ha h.active
  exact { h with active := hactive }

theorem Alive.setReactions (h : Alive s) (todo : List (ConnId × Event))
    (hx : ∀ x ∈ todo, s.loopOf x.1 = l ∧ (x.2.Reacts = true → s.Live x.1)) :
    Alive (s.setReactions l todo) := by
  have hre : ∀ l', ∀ x ∈ (s.setReactions l todo).reactions l',
      s.loopOf x.1 = l' ∧ (x.2.Reacts = true → s.Live x.1) :=
    forall_update (P := fun l' (todo : List (ConnId × Event)) => ∀ x ∈ todo,
      s.loopOf x.1 = l' ∧ (x.2.Reacts = true → s.Live x.1)) hx h.reaction
  exact { h with reaction := hre }

/-- A member function that registers the channel, connects it or leaves something to react to is
called between `connectEstablished` and `connectDestroyed`. -/
theorem Alive.onConn (h : Alive s) (hl : s.loopOf c = l) {f : Io → Io}
    (hi : (f (s.io c)).conn.channel.index ≠ .kNew ∨ (f (s.io c)).conn.state = .kConnected →
      s.Live c)
    (he : ∀ e ∈ (f (s.io c)).trace, e.Reacts = true → s.Live c) : Alive (s.onConn l c f) := by
  have h1 : Alive (s.setIo c (f (s.io c))) := { h with
    live := forall_update (P := fun c' (conn : TcpConnection) => c' < s.accepted →
      conn.channel.index ≠ .kNew ∨ conn.state = .kConnected → s.Live c') (fun _ => hi) h.live }
  refine h1.setReactions _ fun x hx => ?_
  obtain ⟨e, hm, rfl⟩ := List.mem_map.mp hx
  exact ⟨hl, he e hm⟩

theorem Alive.setEstablished (h : Alive s) (c : ConnId) :
    Alive { s with established := Function.update s.established c true } := by
  have hmono : ∀ c', s.established c' = true →
      Function.update s.established c true c' = true := by
    intro c' he
    by_cases hn : c' = c
    · simp [hn]
    · simpa [hn] using he
  exact {
    live := fun c' hc' hi => (h.live c' hc' hi).imp_left (hmono c')
    active := fun l' c' hm =>
      ⟨(h.active l' c' hm).1, (h.active l' c' hm).2.1, (h.active l' c' hm).2.2.imp_left (hmono c')⟩
    reaction := fun l' x hx =>
      ⟨(h.reaction l' x hx).1, fun hr => ((h.reaction l' x hx).2 hr).imp_left (hmono _)⟩
    removal := fun c' l' hm => hmono c' (h.removal c' l' hm)
    destroy := fun c' l' hm => hmono c' (h.destroy c' l' hm)
    past := fun c' hd => hmono c' (h.past c' hd)
    owns := h.owns }

/-- Nothing of a connection is live after `connectDestroyed`. -/
theorem Alive.setDestroyed (h : Alive s) (hest : s.established c = true)
    (hidx : (s.conn c).channel.index = .kNew) (hst : (s.conn c).state ≠ .kConnected)
    (hact : ∀ l, .conn c ∉ s.active l)
    (hre : ∀ l, ∀ x ∈ s.reactions l, x.1 = c → x.2.Reacts = false) :
    Alive { s with destroyed := Function.update s.destroyed c true } := by
  have hkeep : ∀ c' ≠ c, s.Live c' →
      s.established c' = true ∧ Function.update s.destroyed c true c' = false := fun c' hn hl =>
    ⟨hl.1, (Function.update_of_ne hn ..).trans hl.2⟩
  refine { h with
    live := fun c' hc' hi => hkeep c' ?_ (h.live c' hc' hi)
    active := fun l' c' hm => ⟨(h.active l' c' hm).1, (h.active l' c' hm).2.1,
      hkeep c' ?_ (h.active l' c' hm).2.2⟩
    reaction := fun l' x hx => ⟨(h.reaction l' x hx).1, fun hr => hkeep x.1 ?_
      ((h.reaction l' x hx).2 hr)⟩
    past := fun c' hd => ?_ }
  · rintro rfl
    exact hi.elim (fun hi => hi hidx) hst
  · rintro rfl
    exact hact l' hm
  · rintro rfl
    simp [hre l' x hx rfl] at hr
  · by_cases hn : c' = c
    · exact hn ▸ hest
    · exact h.past c' ((Function.update_of_ne hn ..).symm.trans hd)

theorem Alive.createConnection (h : Alive s) (ho : Own cfg s) (fd : ℕ) (highWater : Option ℕ) :
    Alive (s.createConnection cfg fd highWater) := by
  have hloop : ∀ c < s.accepted, (s.createConnection cfg fd highWater).loopOf c = s.loopOf c :=
    fun c hc => Function.update_of_ne hc.ne ..
  refine { h with
    live := fun c hc hi => ?_
    active := fun l c hm => ?_
    reaction := fun l x hx => ⟨(hloop _ (ho.reaction l x hx)).trans (h.reaction l x hx).1,
      (h.reaction l x hx).2⟩ }
  · change (Function.update s.conn s.accepted _ c).channel.index ≠ .kNew ∨
      (Function.update s.conn s.accepted _ c).state = .kConnected at hi
    rcases Nat.lt_or_eq_of_le (Nat.le_of_lt_succ hc) with hc | rfl
    · rw [Function.update_of_ne hc.ne] at hi
      exact h.live c hc hi
    · simp [TcpConnection.new, Channel.new] at hi
  · obtain ⟨hc, hl, hlive⟩ := h.active l c hm
    exact ⟨Nat.lt_succ_of_lt hc, (hloop c hc).trans hl, hlive⟩

/-! ### Established once -/

/-- `connectEstablished` is queued no more often than before. -/
theorem Once.setQueue (h : s.Once) {q : TaskQueue Functor}
    (hq : ∀ c, q.unrun.count (.connectEstablished c) ≤
      (s.queue l).unrun.count (.connectEstablished c)) : (s.setQueue l q).Once := by
  have hcount := forall_setQueue (P := fun l' q => ∀ c, q.unrun.count (.connectEstablished c) ≤
    (s.queue l').unrun.count (.connectEstablished c)) hq fun _ _ => le_rfl
  intro c l'
  exact (Nat.add_le_add_right (hcount l' c) _).trans (h c l')

theorem Once.push (h : s.Once) {f : Functor} (hf : ∀ c, f ≠ .connectEstablished c) :
    (s.push l f).Once := by
  refine h.setQueue fun c => ?_
  simp [TaskQueue.unrun, List.count_append, hf c]

/-- A connection whose `connectEstablished` is still to run. -/
theorem Once.not_established (h : s.Once) (hu : .connectEstablished c ∈ (s.queue l).unrun) :
    s.established c = false := by
  have h1 := h c l
  have h2 : 0 < (s.queue l).unrun.count (.connectEstablished c) := List.count_pos_iff.mpr hu
  cases he : s.established c with
  | false => rfl
  | true =>
    rw [he, Bool.toNat_true] at h1
    omega

theorem Once.push_established (h : s.Once) (hn : ∀ l, .connectEstablished c ∉ (s.queue l).unrun)
    (he : s.established c = false) : (s.push l (.connectEstablished c)).Once := by
  intro c' l'
  by_cases hl : l' = l
  · subst hl
    rw [TcpServer.push, queue_setQueue]
    have h1 := h c' l'
    have h2 := List.count_eq_zero_of_not_mem (hn l')
    show _ + (s.established c').toNat ≤ 1
    by_cases hc : c' = c
    · subst hc
      simp only [TaskQueue.unrun, TaskQueue.push_rest, TaskQueue.push_pending, List.count_append,
        List.count_singleton_self] at h2 ⊢
      rw [he, Bool.toNat_false]
      omega
    · have hne : Functor.connectEstablished c ≠ .connectEstablished c' := fun hf =>
        hc (Functor.connectEstablished.inj hf).symm
      simpa [TaskQueue.unrun, List.count_append, List.count_singleton, hne] using h1
  · rw [TcpServer.push, queue_setQueue_of_ne s _ hl]
    exact h c' l'

theorem Once.setEstablished (h : s.Once)
    (hn : ∀ l, .connectEstablished c ∉ (s.queue l).unrun) :
    Once { s with established := Function.update s.established c true } := by
  intro c' l
  by_cases hc : c' = c
  · subst hc
    rw [List.count_eq_zero_of_not_mem (hn l)]
    exact (Nat.zero_add _).trans_le (Bool.toNat_le _)
  · change _ + (Function.update s.established c true c').toNat ≤ 1
    rw [Function.update_of_ne hc]
    exact h c' l

/-- The functor `f` is taken out of the rest, and called. -/
theorem Once.runFunctor (h : s.Once) (ho : Own cfg s) {f : Functor} {rest : List Functor}
    (hr : (s.queue l).rest = f :: rest) (env : FunctorEnv) :
    ((s.callFunctor l env f).advance l).Once := by
  have hadv : ∀ {s : TcpServer}, s.Once → (s.advance l).Once := fun h =>
    h.setQueue fun c => ((List.tail_sublist _).append_right _).count_le _
  cases f with
  | connectEstablished c =>
    refine (hadv h).setEstablished (c := c) fun l' hm => ?_
    by_cases hl : l' = l
    · -- the functor was there only once
      subst hl
      have h1 := h c l'
      rw [TaskQueue.unrun_eq_cons hr, List.count_cons_self] at h1
      rw [TcpServer.advance, queue_setQueue, ← List.count_pos_iff] at hm
      omega
    · have hf : .connectEstablished c ∈ (s.queue l).held :=
        TaskQueue.held_of_unrun (TaskQueue.mem_unrun_of_rest hr)
      have hm' : .connectEstablished c ∈ (s.queue l').unrun := queue_setQueue_of_ne s _ hl ▸ hm
      exact hl ((ho.queued l' _ (TaskQueue.held_of_unrun hm')).2.symm.trans (ho.queued l _ hf).2)
  | removeConnectionInLoop c =>
    have h1 : (s.removeConnectionInLoop c).Once :=
      Once.push (s := { s with connections := Function.update s.connections (s.nameOf c) none }) h
        (by simp)
    exact hadv h1
  | _ => exact hadv h

theorem Once.newConnection (h : s.Once) (ho : Own cfg s) (fd : ℕ) (highWater : Option ℕ)
    (acts : List UserAct) : (s.newConnection cfg fd highWater acts).Once := by
  have hn : ∀ l, .connectEstablished s.accepted ∉ (s.queue l).unrun := fun l hm =>
    (ho.queued l _ (TaskQueue.held_of_unrun hm)).1.ne rfl
  have h1 : (s.createConnection cfg fd highWater).Once := h
  unfold TcpServer.newConnection
  simp only
  split
  · exact Once.setEstablished (s := s.createConnection cfg fd highWater) h1 hn
  · exact h1.push_established hn (ho.fresh _ le_rfl).1

/-! ### The steps -/

theorem Reg.onConn (h : Reg cfg s) (hc : c < s.accepted) (hl : s.loopOf c = l) (hh : s.Held cfg c)
    {f : Io → Io} (hf : Io.Frame (fun _ => True) (s.io c) (f (s.io c)))
    (hi : (f (s.io c)).conn.channel.index ≠ .kNew ∨ (f (s.io c)).conn.state = .kConnected →
      s.Live c)
    (he : ∀ e ∈ (f (s.io c)).trace, e.Reacts = true → s.Live c) : Reg cfg (s.onConn l c f) where
  toRegistered := (h.toRegistered.setIo hc hh hf).mono rfl rfl rfl rfl fun _ _ hh => hh
  toAlive := h.toAlive.onConn hl hi he
  once := h.once

/-- User code does nothing to a connection that is not connected. -/
theorem Reg.user (h : Reg cfg s) (hc : c < s.accepted) (hl : s.loopOf c = l) (hh : s.Held cfg c)
    (acts : List UserAct) : Reg cfg (s.onConn l c (Io.user acts)) := by
  have hf := Io.Frame.of_steps ((Io.Steps.refl (K := fun _ => True) (s.io c)).user any_event acts)
  by_cases hst : (s.conn c).state = .kConnected
  · exact h.onConn hc hl hh hf (fun _ => h.live c hc (.inr hst)) fun _ _ _ => h.live c hc (.inr hst)
  · obtain ⟨b, hb⟩ := Io.user_of_ne (s.io c) acts hst
    refine h.onConn hc hl hh hf (fun hi => ?_) fun e he _ => ?_
    · rw [hb] at hi
      exact h.live c hc hi
    · rw [hb] at he
      cases he

theorem Reg.dispatchConn (h : Reg cfg s) (ho : Own cfg s) (hc : c < s.accepted)
    (hl : s.loopOf c = l) (hlive : s.Live c) (env : Io.Callback → Io.CallbackEnv) :
    Reg cfg (s.onConn l c (Io.handleEventWithGuard env)) :=
  h.onConn hc hl (ho.held hc hlive.2) (.of_steps ((Io.Steps.refl _).handleEventWithGuard env))
    (fun _ => hlive) fun _ _ _ => hlive

theorem Alive.connectEstablished (h : Alive s) (hl : s.loopOf c = l) (hd : s.destroyed c = false)
    (acts : List UserAct) : Alive (s.connectEstablished l c acts) := by
  have hlive : Live { s with established := Function.update s.established c true } c :=
    ⟨Function.update_self .., hd⟩
  exact (h.setEstablished c).onConn (l := l) (f := Io.connectEstablished acts) hl
    (fun _ => hlive) fun _ _ _ => hlive

theorem Reg.connectDestroyed (h : Reg cfg s) (hc : c < s.accepted) (hl : s.loopOf c = l)
    (hh : s.Held cfg c) (hest : s.established c = true) (ha : s.active l = [])
    (hr : s.reactions l = []) (acts : List UserAct) : Reg cfg (s.connectDestroyed l c acts) := by
  obtain ⟨hidx, hst, evs, ht, hq⟩ := Io.connectDestroyed_spec acts (s.io c)
  have h1 := h.onConn hc hl hh (.of_steps ((Io.Steps.refl _).connectDestroyed acts))
    (fun hi => (hi.elim (fun hi => hi hidx) hst).elim) fun e he hre => by
      rw [ht] at he
      simp [hq e he] at hre
  have hconn : (s.onConn l c (Io.connectDestroyed acts)).conn c =
      (Io.connectDestroyed acts (s.io c)).conn := Function.update_self ..
  refine ⟨h1.toRegistered.mono rfl rfl rfl rfl fun _ _ hh => hh, ?_, h.once⟩
  refine h1.toAlive.setDestroyed hest (hconn ▸ hidx) (hconn ▸ hst) (fun l' hm => ?_)
    fun l' x hx hxc => ?_
  · obtain ⟨-, hl', -⟩ := h.active l' c hm
    rw [← hl', hl] at hm
    exact absurd (ha ▸ hm) List.not_mem_nil
  · have hl' : l' = l := by
      rw [← (h1.reaction l' x hx).1, hxc]
      exact hl
    subst hl'
    change x ∈ Function.update s.reactions l' _ l' at hx
    rw [Function.update_self] at hx
    obtain ⟨e, hm, rfl⟩ := List.mem_map.mp hx
    rw [ht] at hm
    exact hq e hm

theorem Reg.push (h : Reg cfg s) {f : Functor} (hh : s.Held cfg f.conn) (ho : f.owns = true)
    (he : ∀ c, f ≠ .connectEstablished c)
    (hr : ∀ c, f = .removeConnectionInLoop c → s.established c = true)
    (hd : ∀ c, f = .connectDestroyed c → s.established c = true) : Reg cfg (s.push l f) where
  toRegistered := h.toRegistered.mono rfl rfl rfl rfl fun _ _ hc =>
    (held_push hc).elim id fun hf => hf.2 ▸ hh
  toAlive := h.toAlive.push ho hr hd
  once := h.once.push he

theorem Reg.removeConnectionInLoop (h : Reg cfg s) (hh : s.Held cfg c)
    (hest : s.established c = true) : Reg cfg (s.removeConnectionInLoop c) where
  toRegistered := h.toRegistered.mono rfl rfl rfl rfl fun c' _ hc =>
    (held_removeConnectionInLoop hc).elim id fun he => he ▸ hh
  toAlive := Alive.push (s := { s with connections := Function.update s.connections (s.nameOf c) none })
    { h.toAlive with } rfl (by simp) (by simpa using hest)
  once := Once.push (s := { s with connections := Function.update s.connections (s.nameOf c) none })
    h.once (by simp)

/-- The thread of a loop reacts only for live connections. -/
theorem Reg.react (h : Reg cfg s) (ho : Own cfg s) (hc : c < s.accepted) {e : Event}
    (hlive : e.Reacts = true → s.Live c) : Reg cfg (s.react l c e) := by
  have hh : s.Live c → s.Held cfg c := fun hl => ho.held hc hl.2
  cases e with
  | closeCallback =>
    have hlive := hlive rfl
    simp only [TcpServer.react, removeConnection]
    split
    · exact h.removeConnectionInLoop (hh hlive) hlive.1
    · exact h.push (f := .removeConnectionInLoop c) (hh hlive) rfl (by simp)
        (by simpa using hlive.1) (by simp)
  | writeComplete =>
    exact h.push (f := .writeComplete c) (hh (hlive rfl)) rfl (by simp) (by simp) (by simp)
  | highWaterMark size =>
    exact h.push (f := .highWaterMark c size) (hh (hlive rfl)) rfl (by simp) (by simp) (by simp)
  | _ => exact h

theorem Reg.newConnection (h : Reg cfg s) (ho : Own cfg s) (hb : s.accepted + 1 < 2 ^ 31) {fd : ℕ}
    (hf : s.FreeFd cfg fd) (highWater : Option ℕ) (acts : List UserAct) :
    Reg cfg (s.newConnection cfg fd highWater acts) := by
  have ho1 := ho.createConnection hb fd highWater
  have hr1 := h.toRegistered.createConnection hf (h.no_entry ho hf) highWater
  have ha1 := h.toAlive.createConnection ho fd highWater
  have honce := h.once.newConnection ho fd highWater acts
  have hc : s.accepted < (s.createConnection cfg fd highWater).accepted := Nat.lt_succ_self _
  have hd : (s.createConnection cfg fd highWater).destroyed s.accepted = false :=
    (ho.fresh _ le_rfl).2.2
  have hh := ho1.held hc hd
  have hl : (s.createConnection cfg fd highWater).loopOf s.accepted = (s.getNextLoop cfg).1 :=
    Function.update_self ..
  unfold TcpServer.newConnection at honce ⊢
  simp only at honce ⊢
  split at honce
  next h0 =>
    rw [if_pos h0]
    exact ⟨hr1.connectEstablished hc hh acts,
      ha1.connectEstablished (hl.trans h0) hd acts, honce⟩
  next h0 =>
    rw [if_neg h0]
    exact ⟨hr1.mono rfl rfl rfl rfl fun _ _ hc => (held_push hc).elim id fun hf => hf.2 ▸ hh,
      ha1.push rfl (by simp) (by simp), honce⟩

theorem Reg.start : Reg cfg (start cfg) := by
  refine ⟨⟨?_, ?_, ?_, ?_, fun l fd ptr he => .inl ?_⟩, ⟨?_, ?_, ?_, ?_, ?_, ?_, ?_⟩, ?_⟩
  case refine_5 =>
    change (if l ≤ cfg.numThreads then startPoller cfg l else .new).Entry fd ptr at he
    split at he
    next hl => exact entry_startPoller hl he
    next => rcases he with he | ⟨m, he⟩ <;> cases he
  all_goals
    simp [TcpServer.start, TaskQueue.held, TaskQueue.unrun, TaskQueue.empty, Once]

theorem Reg.poll (h : Reg cfg s) (l : LoopId) (reports : List (ℕ × Events)) :
    Reg cfg ((s.fillActiveChannels l reports).setPhase l .dispatch) := by
  obtain ⟨r, he⟩ := fillActiveChannels_eq s l reports
  rw [he]
  have ha : Alive (s.reported r) := { h.toAlive with }
  have ha' := ha.setActive (l := l)
    (reports.filterMap fun x => ((s.poller l).epoll x.1).map Prod.snd) fun c hm => by
      obtain ⟨x, -, hx⟩ := List.mem_filterMap.mp hm
      obtain ⟨y, hy, hyc⟩ := Option.map_eq_some_iff.mp hx
      have hent : (s.poller l).Entry x.1 (.conn c) := .inr ⟨y.1, by rw [hy, ← hyc]⟩
      rcases h.entry l x.1 _ hent with ⟨-, hn⟩ | ⟨c', hc', hp, hl, -, hi⟩
      · exact absurd rfl (hn c)
      · obtain rfl := ChannelPtr.conn.inj hp
        exact ⟨hc', hl, h.live c hc' (.inl hi)⟩
  exact ⟨(h.toRegistered.reported r).mono rfl rfl rfl rfl fun _ _ hh => hh, { ha' with }, h.once⟩

theorem Reg.handleEvent (h : Reg cfg s) (ho : Own cfg s) {ptr : ChannelPtr} {env : DispatchEnv}
    (hb : env.accept.isSome → s.accepted + 1 < 2 ^ 31)
    (ha : ∀ c, ptr = .conn c → s.loopOf c = l ∧ s.Live c)
    (hs : s.handleEvent cfg l ptr env = some s') : Reg cfg s' := by
  rcases handleEvent_cases hs with rfl | ⟨-, fd, highWater, he, hf, rfl⟩ | ⟨c, hc, hptr, -, rfl⟩
  · exact h
  · exact h.newConnection ho (hb (by simp [he])) hf highWater env.acts
  · obtain ⟨hl, hlive⟩ := ha c hptr
    exact h.dispatchConn ho hc hl hlive _

/-- The functor that stands first in the rest is called and leaves the rest. -/
theorem Reg.runFunctor (h : Reg cfg s) (ho : Own cfg s) {f : Functor} {rest : List Functor}
    (hp : s.phase l = .functors) (hre : s.reactions l = []) (hr : (s.queue l).rest = f :: rest)
    (env : FunctorEnv) :
    Reg cfg (((s.callFunctor l env f).advance l).setPhase l (.running f)) := by
  have hu : f ∈ (s.queue l).unrun := TaskQueue.mem_unrun_of_rest hr
  have hf := TaskQueue.held_of_unrun hu
  obtain ⟨hc, hhome⟩ := ho.queued l f hf
  have hh := ho.held_of_queued hf (h.owns l f hf)
  have hact : s.active l = [] := ho.active l (by simp [hp])
  suffices hcall : Registered cfg (s.callFunctor l env f) ∧ Alive (s.callFunctor l env f) by
    obtain ⟨hreg, halive⟩ := hcall
    have hq := halive.setQueue (l := l) (q := ((s.callFunctor l env f).queue l).advance)
      (fun g hg => ((List.tail_sublist _).append_right _).subset hg) fun g hg => hg
    have hheld : ∀ c, ((s.callFunctor l env f).advance l).Held cfg c →
        (s.callFunctor l env f).Held cfg c := fun c hh =>
      held_setQueue (l := l) (q := ((s.callFunctor l env f).queue l).advance) (fun g hg => hg) hh
    exact ⟨hreg.mono rfl rfl rfl rfl fun c _ hh => hheld c hh, { hq with },
      h.once.runFunctor ho hr env⟩
  cases f with
  | connectEstablished c =>
    have hest := h.once.not_established hu
    have hd : s.destroyed c = false := Bool.eq_false_iff.mpr fun hd =>
      Bool.false_ne_true (hest.symm.trans (h.past c hd))
    exact ⟨h.toRegistered.connectEstablished hc hh env.acts,
      h.toAlive.connectEstablished hhome hd env.acts⟩
  | connectDestroyed c =>
    have h1 := h.connectDestroyed hc hhome hh (h.destroy c l hu) hact hre env.acts
    exact ⟨h1.toRegistered, h1.toAlive⟩
  | removeConnectionInLoop c =>
    have h1 := h.removeConnectionInLoop hh (h.removal c l hu)
    exact ⟨h1.toRegistered, h1.toAlive⟩
  | writeComplete c =>
    have h1 := h.user hc hhome hh env.acts
    exact ⟨h1.toRegistered, h1.toAlive⟩
  | highWaterMark c size =>
    have h1 := h.user hc hhome hh env.acts
    exact ⟨h1.toRegistered, h1.toAlive⟩
  | sendInLoop c => exact absurd (h.owns l _ hf) (by simp [Functor.owns])
  | shutdownInLoop c => exact absurd (h.owns l _ hf) (by simp [Functor.owns])

/-- A queue in which less is waiting. -/
theorem Reg.setQueue (h : Reg cfg s) {q : TaskQueue Functor} (hu : q.unrun = (s.queue l).unrun)
    (hh : ∀ f ∈ q.held, f ∈ (s.queue l).held) : Reg cfg (s.setQueue l q) where
  toRegistered := h.toRegistered.mono rfl rfl rfl rfl fun _ _ hc => held_setQueue hh hc
  toAlive := h.toAlive.setQueue (fun _ hf => hu ▸ hf) hh
  once := h.once.setQueue fun c => by rw [hu]

/-- What the invariant does not speak about. -/
theorem Reg.of_same (h : Reg cfg s) (p : LoopId → Phase) (d : ConnId → Bool) :
    Reg cfg { s with phase := p, destroying := d } where
  toRegistered := h.toRegistered.mono rfl rfl rfl rfl fun _ _ hc => hc
  toAlive := { h.toAlive with }
  once := h.once

theorem Reg.doPendingFunctors (h : Reg cfg s) (ho : Own cfg s) (hp : s.phase l = .dispatch) :
    Reg cfg ((s.swapFunctors l).setPhase l .functors) :=
  (h.setQueue (TaskQueue.unrun_swap (ho.rest (.inr hp))) fun _ hf =>
    TaskQueue.mem_held.mpr (.inr (TaskQueue.mem_held_swap.mp hf))).of_same _ _

theorem Reg.endFunctors (h : Reg cfg s) (hr : (s.queue l).rest = []) :
    Reg cfg ((s.finish l).setPhase l .poll) :=
  (h.setQueue (TaskQueue.unrun_finish hr) fun _ hf =>
    TaskQueue.mem_held.mpr (.inr (TaskQueue.mem_held_finish.mp hf))).of_same _ _

theorem Reg.setRefs (h : Reg cfg s) {n : ℕ} (hn : 0 < n → s.Held cfg c) :
    Reg cfg (s.setRefs c n) :=
  ⟨h.toRegistered.mono rfl rfl rfl rfl fun _ _ => held_setRefs hn, { h.toAlive with }, h.once⟩

/-- A call by another thread than those of the loops. -/
def Label.foreign : Label → Bool
  | .workerTake .. | .workerTest .. | .workerStore _ | .workerQueue _ | .workerDrop _ => true
  | _ => false

/-- **Registration is an invariant** of every step of the loops and of the user's pointers. -/
theorem Reg.step (h : Reg cfg s) (ho : Own cfg s) {lab : Label} (hb : s.Numbered lab)
    (hf : lab.foreign = false) (hst : step cfg s lab = some s') : Reg cfg s' := by
  cases move_of_step hst with
  | poll l reports => exact h.poll l reports
  | dispatch l env ptr rest s' hp _ hact hs =>
    have ha : ∀ c, .conn c ∈ rest → c < s.accepted ∧ s.loopOf c = l ∧ s.Live c := fun c hm =>
      h.active l c (hact ▸ List.mem_cons_of_mem _ hm)
    have h1 : Reg cfg (s.setActive l rest) :=
      ⟨h.toRegistered.mono rfl rfl rfl rfl fun _ _ hh => hh, h.toAlive.setActive rest ha, h.once⟩
    refine h1.handleEvent (ho.setActive hp rest) hb (fun c hc => ?_) hs
    exact (h.active l c (hact ▸ hc ▸ List.mem_cons_self)).2
  | react l c e rest hre =>
    have ho1 := ho.setReactions (l := l) rest fun y hy =>
      ho.reaction l y (hre ▸ List.mem_cons_of_mem _ hy)
    have ha1 := h.toAlive.setReactions (l := l) rest fun y hy =>
      h.reaction l y (hre ▸ List.mem_cons_of_mem _ hy)
    have h1 : Reg cfg (s.setReactions l rest) :=
      ⟨h.toRegistered.mono rfl rfl rfl rfl fun _ _ hh => hh, ha1, h.once⟩
    exact h1.react ho1 (ho.reaction l (c, e) (hre ▸ List.mem_cons_self))
      (h.reaction l (c, e) (hre ▸ List.mem_cons_self)).2
  | doPendingFunctors l hp => exact h.doPendingFunctors ho hp
  | runFunctor l env f rest hp hre hr => exact h.runFunctor ho hp hre hr env
  | functorReturn l => exact h.of_same _ _
  | endFunctors l _ _ hr => exact h.endFunctors hr
  | userAct l c a _ _ hc hl _ hh => exact h.user hc hl hh [a]
  | keep c _ hh => exact h.setRefs fun _ => hh
  | drop c hpos => exact h.setRefs fun _ => .inr (.inr (.inl hpos))
  | workerTake => cases hf
  | workerTest => cases hf
  | workerStore => cases hf
  | workerQueue => cases hf
  | workerDrop => cases hf

end TcpServer

end Mymuduo
