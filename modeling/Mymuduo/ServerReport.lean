import Mymuduo.ServerLiveness
import Mymuduo.ServerWatch

/-!
# Mymuduo.ServerReport — what epoll reports is dispatched (`EPollPoller.cc`, `EventLoop.cc`)

Infinite runs of a server, with the history of its connections, in which the thread of each loop comes on
again and again.  epoll is level-triggered: as long as a connection is registered for an event that is
pending, it is reported (`KeepsReporting`).  What is reported for a connection is dispatched
(`exists_dispatched`).
-/

namespace Mymuduo

open Lib Events

/-- The member functions leave what epoll has reported. -/
theorem Io.Steps.revents {io io' : Io} {K : Event → Prop} (h : Steps K io io') :
    io'.conn.channel.revents = io.conn.channel.revents := by
  induction h with
  | refl => rfl
  | tail _ hp ih =>
    refine Eq.trans ?_ ih
    cases hp with
    | update g => exact Channel.updateChannel_revents _ _
    | _ => rfl

namespace TcpServer

variable {cfg : Config} {p : Policy} {s s' : TcpServer} {c : ConnId} {lab : Label} {e : Events → Bool}
  {callbacks : Io.Callback → Io.CallbackEnv}

/-! ### One report -/

/-- epoll watches the connection for the event. -/
def RegisteredFor (e : Events → Bool) (c : ConnId) (s : TcpServer) : Prop :=
  ∃ y ∈ (s.poller (s.loopOf c)).epoll (s.conn c).channel.fd, y.2 = .conn c ∧ e y.1 = true

instance (e : Events → Bool) (c : ConnId) (s : TcpServer) : Decidable (s.RegisteredFor e c) :=
  inferInstanceAs (Decidable (∃ y ∈ (s.poller (s.loopOf c)).epoll (s.conn c).channel.fd, _ ∧ _))

/-- epoll reports the event for the connection. -/
def Reports (e : Events → Bool) (c : ConnId) (s : TcpServer) : Label → Prop
  | .poll l reports => l = s.loopOf c ∧ ∃ x ∈ reports, x.1 = (s.conn c).channel.fd ∧ e x.2 = true
  | _ => False

/-- The channel of the connection is active, with the event at least. -/
def Reported (e : Events → Bool) (c : ConnId) (s : TcpServer) : Prop :=
  .conn c ∈ s.active (s.loopOf c) ∧ e (s.conn c).channel.revents = true

theorem reported_of_poll (hs : Sound cfg s) (hw : s.RegisteredFor e c) (hr : s.Reports e c lab)
    (hst : TcpServer.step cfg s lab = some s') : s'.Reported e c := by
  cases move_of_step hst with
  | poll l reports _ _ hready =>
    obtain ⟨rfl, x, hm, hx, hout⟩ := hr
    obtain ⟨⟨m, ptr⟩, he, hptr, -⟩ := hw
    obtain rfl : ptr = .conn c := hptr
    have hentry : ((s.poller (s.loopOf c)).epoll x.1).map Prod.snd = some (.conn c) := by
      rw [hx, Option.mem_def.mp he]
      rfl
    obtain ⟨hact, hloop, -⟩ := fillActiveChannels_same s (s.loopOf c) reports
    refine ⟨?_, ?_⟩
    · show .conn c ∈ (s.fillActiveChannels _ reports).active ((s.fillActiveChannels _ reports).loopOf c)
      rw [hact, hloop, Function.update_self]
      exact List.mem_filterMap.mpr ⟨x, hm, hentry⟩
    · show e ((s.fillActiveChannels _ reports).conn c).channel.revents = true
      have hconn : (s.fillActiveChannels (s.loopOf c) reports).conn c =
          { s.conn c with channel := { (s.conn c).channel with revents := x.2 } } :=
        foldl_setRevents_conn_of_mem (fun y _ hy => (hs.reported hy).2.2.1.symm) hready.1 hm hentry
      rw [hconn]
      exact hout
  | _ => exact hr.elim

/-- The step dispatches the connection, for which epoll has reported the event. -/
structure Dispatched (e : Events → Bool) (c : ConnId) (env : DispatchEnv) (s : TcpServer) (lab : Label)
    (s' : TcpServer) : Prop where
  label : lab = .dispatch (s.loopOf c) env
  active : (s.active (s.loopOf c)).head? = some (.conn c)
  revents : e (s.conn c).channel.revents = true
  calls : s.Calls c lab s' (Io.handleEventWithGuard env.callbacks)

/-- A channel that is active stays so until it is dispatched. -/
theorem reported_step (hs : Sound cfg s) (hc : c < s.accepted) (hob : s.Obeys p lab) (h : s.Reported e c)
    (hst : TcpServer.step cfg s lab = some s') :
    (∃ env, Dispatched e c env s lab s') ∨ s'.Reported e c := by
  obtain ⟨hact, hout⟩ := h
  have hne : s.active (s.loopOf c) ≠ [] := List.ne_nil_of_mem hact
  cases ConnStep.of_step hs hc hob hst with
  | same hconn _ _ hum => exact .inr ⟨hum.active.mpr hact, hconn ▸ hout⟩
  | poll _ _ _ _ _ _ _ _ hidle => exact absurd hidle hne
  | connectEstablished _ _ hest =>
    rw [(hs.reg.active _ c hact).2.2.1] at hest
    cases hest
  | connectDestroyed _ _ _ hidle => exact absurd hidle hne
  | user acts _ _ hcall hum =>
    refine .inr ⟨hum.active.mpr hact, ?_⟩
    rw [hcall.conn, ((Io.Steps.refl _).user any_event acts).revents]
    exact hout
  | dispatch env rest hlab ha _ _ _ _ hcall => exact .inl ⟨env, hlab, by rw [ha]; rfl, hout, hcall⟩

/-- The loop of a connection that is active dispatches. -/
theorem turn_of_active {l : LoopId} (hs : Sound cfg s) (ha : s.active l ≠ [])
    (hst : TcpServer.step cfg s lab = some s') :
    (s'.active l).length ≤ (s.active l).length ∧
      (lab.advances l → (s'.active l).length < (s.active l).length) := by
  have hp : s.phase l = .dispatch := by
    by_contra hn
    exact ha (hs.own.active l hn)
  rcases turn_or_stays (l := l) hst with ⟨-, ht⟩ | ⟨hn, hstay⟩
  · have hlt : (s'.active l).length < (s.active l).length := by
      cases ht with
      | dispatch ptr _ hact =>
        rw [hact]
        exact Nat.lt_succ_self _
      | swap _ _ _ hnil => exact absurd hnil ha
      | poll hp' | run _ _ hp' | functorReturn _ hp' | finish hp' =>
        rw [hp'] at hp
        cases hp
    exact ⟨hlt.le, fun _ => hlt⟩
  · rw [hstay.active]
    exact ⟨le_rfl, fun h => absurd h hn⟩

/-! ### Runs -/

section Runs

variable {r : ((sys cfg).logged shown).Run fun x => Obeys p x.1}

theorem accepted_mono {n m : ℕ} (h : n ≤ m) :
    Mymuduo.accepted (eventsOf c (r.state n).2) <+: Mymuduo.accepted (eventsOf c (r.state m).2) :=
  (((r.prefix_history h).filter _).map _).flatMap _

theorem submitted_mono {n m : ℕ} (h : n ≤ m) :
    submitted (eventsOf c (r.state n).2) <+: submitted (eventsOf c (r.state m).2) :=
  (((r.prefix_history h).filter _).map _).flatMap _

theorem lt_accepted {n m : ℕ} (h : n ≤ m) (hc : c < (r.state n).1.accepted) :
    c < (r.state m).1.accepted :=
  (loopOf_kept (r := r.ofLogged) h hc).1

/-- As long as the connection is watched for the event, epoll reports it again and again. -/
def KeepsReporting (e : Events → Bool) (c : ConnId) (r : ((sys cfg).logged shown).Run fun x => Obeys p x.1) :
    Prop :=
  ∀ n, (r.state n).1.RegisteredFor e c →
    ∃ m, n ≤ m ∧ (¬ (r.state m).1.RegisteredFor e c ∨ Reports e c (r.state m).1 (r.label m))

variable (hfair : ∀ l ≤ cfg.numThreads, r.Often (Label.advances l))
include hfair

/-- **What has been reported is dispatched.** -/
theorem exists_dispatched {n : ℕ} (hc : c < (r.state n).1.accepted) (h : (r.state n).1.Reported e c) :
    ∃ m, n ≤ m ∧ ∃ env s', Dispatched e c env (r.state m).1 (r.label m) s' ∧
      r.state (m + 1) = (s', (r.state m).2 ++ shown (r.state m).1 (r.label m) s') := by
  have hloop := loopOf_le (Sys.Reach.of_logged (r.reach n)) hc
  obtain ⟨m, hm, -, hd⟩ := Sys.Run.exists_of_rank (r := r)
    (P := fun x => c < x.1.accepted ∧ x.1.loopOf c = (r.state n).1.loopOf c ∧ x.1.Reported e c)
    (E := fun k => ∃ env s', Dispatched e c env (r.state k).1 (r.label k) s' ∧
      r.state (k + 1) = (s', (r.state k).2 ++ shown (r.state k).1 (r.label k) s'))
    (fun x => (x.1.active ((r.state n).1.loopOf c)).length) (hfair _ hloop) (fun k hk => by
      obtain ⟨hc', hl, hrep⟩ := hk
      obtain ⟨s', hst, he⟩ := r.next_logged k
      have hs := Sound.of_logged (r.reach k)
      rcases reported_step hs hc' (r.met k) hrep hst with ⟨env, hd⟩ | hrep'
      · exact .inl ⟨env, s', hd, he⟩
      · rw [he, ← hl]
        obtain ⟨h1, h2⟩ := loopOf_of_step hc' hst
        exact .inr ⟨⟨h1, h2, hrep'⟩, turn_of_active hs (List.ne_nil_of_mem hrep.1) hst⟩) ⟨hc, rfl, h⟩
  exact ⟨m, hm, hd⟩

/-- A connection that is watched for an event is dispatched for it, or watched no more. -/
theorem KeepsReporting.exists_dispatched (hk : KeepsReporting e c r) {n : ℕ}
    (hc : c < (r.state n).1.accepted) (h : (r.state n).1.RegisteredFor e c) :
    ∃ m, n ≤ m ∧ (¬ (r.state m).1.RegisteredFor e c ∨
      ∃ env s', Dispatched e c env (r.state m).1 (r.label m) s' ∧
        r.state (m + 1) = (s', (r.state m).2 ++ shown (r.state m).1 (r.label m) s')) := by
  obtain ⟨m, hm, hout | hrep⟩ := hk n h
  · exact ⟨m, hm, .inl hout⟩
  by_cases hreg : (r.state m).1.RegisteredFor e c
  · -- the report makes the channel active
    obtain ⟨s', hst, he⟩ := r.next_logged m
    have hrep' := reported_of_poll (.of_logged (r.reach m)) hreg hrep hst
    have hm' : n ≤ m + 1 := Nat.le_succ_of_le hm
    obtain ⟨k, hk, hd⟩ := TcpServer.exists_dispatched hfair (n := m + 1) (lt_accepted hm' hc) (by rwa [he])
    exact ⟨k, hm'.trans hk, .inr hd⟩
  · exact ⟨m, hm, .inl hreg⟩

end Runs

/-! ### Runs in which epoll keeps reporting -/

/-- epoll reports the connection `c` with `m` whenever it is watched for the event. -/
def reporting (e : Events → Bool) (m : Events) (callbacks : Io.Callback → Io.CallbackEnv) (c : ConnId) :
    Meets where
  reports l s := if l = s.loopOf c ∧ s.RegisteredFor e c then [((s.conn c).channel.fd, m)] else []
  env := ⟨none, [], callbacks⟩
  calls
    | .connectDestroyed _ => { quiet with acts := [.shutdown] }
    | _ => quiet
  ready l s := by
    split
    next h =>
      obtain ⟨rfl, y, hy, -⟩ := h
      refine ⟨List.nodup_singleton _, fun x hx => ?_⟩
      rw [List.mem_singleton.mp hx]
      exact Option.isSome_iff_exists.mpr ⟨y, hy⟩
    next => exact ⟨List.nodup_nil, List.forall_mem_nil _⟩
  accept := rfl

/-- User code may do what it does in such a run. -/
structure Policy.Quiet (p : Policy) (callbacks : Io.Callback → Io.CallbackEnv) : Prop where
  up : p.up []
  down : p.down [.shutdown]
  dispatch : ∀ conn, p.dispatch conn callbacks

theorem Policy.Quiet.any : Policy.Quiet .any callbacks := ⟨trivial, trivial, fun _ => trivial⟩

theorem worker_outside {C : TcpServer → Label → Prop} (hC : ∀ s lab, C s lab → lab.foreign = false)
    (h : (sys cfg).Reach C s) (t : ℕ) : s.worker t = .outside := by
  refine h.invariant (I := fun s => s.worker t = .outside) (fun s hi => ?_) fun s lab s' hI hc hst => ?_
  · rw [show s = TcpServer.start cfg from hi]
    rfl
  · have hf := hC s lab hc
    have hl : ¬ lab.ofWorker t := by
      intro hl
      cases lab <;> first | exact hl | cases hf
    rw [worker_of_step hl hst]
    exact hI

section Reporting

variable {m : Events} (hm : ∀ y, e y = true → y.Reportable m) (hp : Policy.Quiet p callbacks)
include hm hp

theorem obeys_nextOfLoop (c : ConnId) (l : LoopId) (s : TcpServer) :
    s.Obeys p (nextOfLoop (reporting e m callbacks c) l s) := by
  unfold nextOfLoop
  split
  · exact ⟨⟨rfl, trivial⟩, trivial, trivial⟩
  · cases s.phase l with
    | poll =>
      refine ⟨⟨rfl, trivial⟩, fun x hx y hy => ?_, trivial⟩
      simp only [reporting] at hx
      split at hx
      next hw =>
        obtain ⟨rfl, z, hz, -, hout⟩ := hw
        obtain rfl := List.mem_singleton.mp hx
        obtain rfl : z = y := Option.some.inj (hz.symm.trans hy)
        exact hm z.1 hout
      next => exact absurd hx List.not_mem_nil
    | dispatch =>
      simp only
      split
      · exact ⟨⟨rfl, trivial⟩, trivial, trivial⟩
      · refine ⟨⟨rfl, fun h => by cases h⟩, trivial, ?_⟩
        unfold Follows
        simp only
        split
        · exact hp.dispatch _
        · exact hp.up
    | functors =>
      simp only
      split
      · exact ⟨⟨rfl, trivial⟩, trivial, trivial⟩
      next f rest hr =>
        refine ⟨⟨rfl, trivial⟩, trivial, ?_⟩
        simp only [Follows, hr]
        cases f with
        | connectEstablished c' => exact hp.up
        | connectDestroyed c' => exact hp.down
        | _ => exact fun a ha => absurd ha List.not_mem_nil
    | running f => exact ⟨⟨rfl, trivial⟩, trivial, trivial⟩

theorem obeys_inTurn (c : ConnId) (n : ℕ) (hw : ∀ t, s.worker t = .outside) :
    s.Obeys p (inTurn cfg (reporting e m callbacks c) n s) := by
  unfold inTurn nextOfWorker
  split
  · exact obeys_nextOfLoop hm hp c _ s
  · rw [hw]
    exact obeys_nextOfLoop hm hp c 0 s

/-- **From every reached state a run goes on in which epoll keeps reporting a connection.** -/
theorem exists_reporting_run {x : TcpServer × List (ConnId × Event)}
    (h : ((sys cfg).logged shown).Reach (fun x => Obeys p x.1) x) (c : ConnId) (hem : e m = true) :
    ∃ r : ((sys cfg).logged shown).Run fun x => Obeys p x.1, r.state 0 = x ∧
      (∀ l ≤ cfg.numThreads, r.Often (Label.advances l)) ∧ KeepsReporting e c r ∧
      ∀ n l env, r.label n = .dispatch l env → env.callbacks = callbacks := by
  obtain ⟨r, h0, hlab, hfair, -⟩ :=
    exists_fair_run (reporting e m callbacks c) (.of_logged h) fun n s hs =>
      obeys_inTurn hm hp c n (worker_outside (fun _ _ hob => hob.loopThreads.1) hs)
  obtain ⟨s, t⟩ := x
  obtain rfl : r.state 0 = s := h0
  refine ⟨r.logged shown t h, rfl, hfair, fun n hreg => ?_, fun n l env he => ?_⟩
  · have hs : ∀ k, Sound cfg (r.state k) := fun k => .of_reach (fun _ _ hob => hob.loopThreads) (r.reach k)
    have hc : c < (r.state n).accepted := by
      obtain ⟨⟨m, ptr⟩, he, hptr, -⟩ := hreg
      obtain rfl : ptr = .conn c := hptr
      exact ((hs n).placed.entry _ _ m _ he).1.1
    obtain ⟨k, hk, reports, hpoll⟩ := often_poll (hfair _ (loopOf_le (r.reach n) hc)) n
    have hloop := loopOf_kept hk hc
    refine ⟨k, hk, ?_⟩
    by_cases hw : (r.state k).RegisteredFor e c
    · have hreports := reports_of_inTurn ((hlab k).symm.trans hpoll)
      rw [← hloop.2] at hpoll hreports
      refine .inr ?_
      show Reports e c (r.state k) (r.label k)
      rw [hpoll, hreports]
      refine ⟨rfl, (((r.state k).conn c).channel.fd, m), ?_, rfl, hem⟩
      simp [reporting, hw]
    · exact .inl hw
  · rw [env_of_inTurn ((hlab n).symm.trans he)]
    rfl

end Reporting

end TcpServer

end Mymuduo
