import Mymuduo.ServerFair

/-!
# Mymuduo.ServerLiveness — what becomes of a connection in the end

In an infinite run of a server in which the thread of every loop comes on again and again

* every connection that is accepted is established;
* every connection whose `closeCallback` is to be called is taken out of `connections` and destroyed.
-/

namespace Mymuduo

open Lib

namespace TcpServer

variable {cfg : Config} {s s' : TcpServer} {l : LoopId} {c : ConnId} {lab : Label}
  {C : TcpServer → Label → Prop} {r : (sys cfg).Run C}

/-! ### What stays -/

theorem loopOf_of_step (hc : c < s.accepted) (hst : step cfg s lab = some s') :
    c < s'.accepted ∧ s'.loopOf c = s.loopOf c :=
  ⟨hc.trans_le (extends_of_step hst).accepted, (extends_of_step hst).loop c hc⟩

/-- No connection is entered twice. -/
theorem entry_of_step (hc : c < s.accepted) (he : s.connections (s.nameOf c) ≠ some c)
    (hst : step cfg s lab = some s') : s'.connections (s'.nameOf c) ≠ some c := by
  rcases keeps_or_accepts hst with hk | ha
  · rw [hk.nameOf]
    exact fun h => he (hk.entry _ _ h)
  · rw [ha.nameOf, ha.connections, Function.update_of_ne hc.ne]
    by_cases hn : s.nameOf c = cfg.connName s.nextConnId
    · rw [hn, Function.update_self]
      exact fun h => hc.ne (Option.some.inj h).symm
    · rwa [Function.update_of_ne hn]

theorem loopOf_le (h : (sys cfg).Reach C s) (hc : c < s.accepted) : s.loopOf c ≤ cfg.numThreads :=
  (InTurn.of_reach h).loop c hc ▸ ioLoop_le c

/-! ### A connection is established -/

/-- A connection that has not been established is about to be. -/
def Entering (s : TcpServer) : Prop :=
  ∀ c < s.accepted, s.established c = true ∨
    .connectEstablished c ∈ (s.queue (s.loopOf c)).unrun

theorem Entering.step (h : Entering s) (hb : Between s) (hst : TcpServer.step cfg s lab = some s') :
    Entering s' := by
  have hold : ∀ c < s.accepted, s'.established c = true ∨
      .connectEstablished c ∈ (s'.queue (s'.loopOf c)).unrun := by
    intro c hc
    rw [(loopOf_of_step hc hst).2]
    rcases h c hc with he | hq
    · exact .inl ((done_of_step hst).1 he)
    · exact (waits_or_ran hb hst hq).symm.imp_left And.right
  rcases keeps_or_accepts hst with hk | ha
  · exact fun c hc => hold c (hk.accepted ▸ hc)
  · intro c hc
    by_cases hc' : c = s.accepted
    · exact hc' ▸ ha.establishing
    · rw [ha.accepted] at hc
      exact hold c (Nat.lt_of_le_of_ne (Nat.le_of_lt_succ hc) hc')

theorem Entering.of_reach (h : (sys cfg).Reach C s) : Entering s := by
  have h1 : Entering s ∧ Between s :=
    h.invariant (I := fun s => Entering s ∧ Between s)
      (fun _ hs => hs ▸ ⟨fun c hc => absurd hc (Nat.not_lt_zero c), fun _ _ => rfl⟩)
      fun s lab _ hi _ hst => ⟨hi.1.step hi.2 hst, hi.2.step hst⟩
  exact h1.1

/-- **Every connection that is accepted is established**, in any infinite run in which the thread of each
loop comes on again and again. -/
theorem accepted_established (r : (sys cfg).Run C)
    (hfair : ∀ l ≤ cfg.numThreads, r.Often (Label.advances l)) (c : ConnId) :
    r.LeadsTo (fun s => c < s.accepted) fun s => s.established c = true := by
  intro n hc
  rcases Entering.of_reach (r.reach n) c hc with he | hq
  · exact ⟨n, le_rfl, he⟩
  · obtain ⟨m, hm, -, he⟩ := leadsTo_ran (hfair _ (loopOf_le (r.reach n) hc)) _ n hq
    exact ⟨m, hm, he⟩

/-- The base loop has accepted a connection for the sub loop. -/
theorem accepted_established_sub : ∃ r : (sys config).Run fun _ _ => True,
    0 < (r.state 0).accepted ∧ (r.state 0).established 0 = false ∧
    r.LeadsTo (fun s => 0 < s.accepted) fun s => s.established 0 = true := by
  obtain ⟨s, hr, hs⟩ := Sys.Reach.exists_of_execIf (M := sys config) (s := start config)
    (C := fun _ _ => True) (P := fun s => 0 < s.accepted ∧ s.established 0 = false) (.init rfl)
    ((opening 7).take 2) (by decide +kernel)
  obtain ⟨r, rfl, -, hfair, -⟩ := exists_fair_run .nothing hr fun _ _ _ => trivial
  exact ⟨r, hs.1, hs.2, accepted_established r hfair 0⟩

/-! ### A connection is destroyed -/

/-- `closeCallback` is to be called. -/
def Closes (c : ConnId) (s : TcpServer) : Prop := (c, .closeCallback) ∈ s.reactions (s.loopOf c)

/-- What is to be done for a callback waits, or is the next to be done and is. -/
theorem reaction_step {F : LoopId → ℕ → ChannelPtr → Prop} (hp : Placed cfg F s) (hr : Rested s)
    (hst : step cfg s lab = some s') {x : ConnId × Event} (hx : x ∈ s.reactions l) :
    (∃ rest, s' = (s.setReactions l rest).react l x.1 x.2) ∨
      x ∈ s'.reactions l ∧ ¬ lab.advances l := by
  have hadv : ¬ lab.advances l := fun ha => List.ne_nil_of_mem hx (hr.reactions ha hst)
  by_cases hl : lab.loop = some l
  · cases move_of_step hst with
    | react k c e rest hre =>
      obtain rfl : k = l := Option.some.inj hl
      rw [hre] at hx
      rcases List.mem_cons.mp hx with rfl | hx
      · exact .inl ⟨rest, rfl⟩
      · refine .inr ⟨?_, hadv⟩
        rw [reactions_react]
        exact hx
    | userAct k c a _ hre =>
      obtain rfl : k = l := Option.some.inj hl
      exact absurd hre (List.ne_nil_of_mem hx)
    | keep | drop | workerTake | workerTest | workerStore | workerQueue | workerDrop => cases hl
    | _ => exact absurd (Option.some.inj hl) hadv
  · exact .inr ⟨reactions_of_ne hp hl hst ▸ hx, hadv⟩

/-- The thread of the base loop calls `removeConnectionInLoop`, another one queues it. -/
theorem removed_or_queued (s : TcpServer) (l : LoopId) (c : ConnId) :
    (s.react l c .closeCallback).Ran (.removeConnectionInLoop c) ∨
      .removeConnectionInLoop c ∈ ((s.react l c .closeCallback).queue 0).unrun := by
  simp only [react, removeConnection]
  split
  · refine .inl ⟨?_, TaskQueue.mem_unrun.mpr (.inr (mem_pending_removeConnectionInLoop s c))⟩
    show Function.update s.connections (s.nameOf c) none (s.nameOf c) ≠ some c
    rw [Function.update_self]
    exact (Option.some_ne_none c).symm
  · rw [push, queue_setQueue]
    exact .inr (TaskQueue.mem_unrun_push.mpr (.inr rfl))

/-- A connection stays in its loop. -/
theorem loopOf_kept {n m : ℕ} (h : n ≤ m) (hc : c < (r.state n).accepted) :
    c < (r.state m).accepted ∧ (r.state m).loopOf c = (r.state n).loopOf c :=
  Sys.Run.stable (r := r) (P := fun s => c < s.accepted ∧ s.loopOf c = (r.state n).loopOf c)
    (fun k hk => (loopOf_of_step hk.1 (r.next k)).imp_right fun he => he.trans hk.2) ⟨hc, rfl⟩ h

/-- What has been taken out of `connections` stays out. -/
theorem removed_kept {n m : ℕ} (h : n ≤ m) (hc : c < (r.state n).accepted)
    (he : (r.state n).connections ((r.state n).nameOf c) ≠ some c) :
    (r.state m).connections ((r.state m).nameOf c) ≠ some c :=
  (Sys.Run.stable (r := r) (P := fun s => c < s.accepted ∧ s.connections (s.nameOf c) ≠ some c)
    (fun k hk => ⟨(loopOf_of_step hk.1 (r.next k)).1, entry_of_step hk.1 hk.2 (r.next k)⟩) ⟨hc, he⟩ h).2

section Fair

variable (hfair : ∀ l ≤ cfg.numThreads, r.Often (Label.advances l))
include hfair

theorem closes_removed {n : ℕ} (hc : c < (r.state n).accepted) (h : (r.state n).Closes c) :
    ∃ m, n ≤ m ∧ (r.state m).Ran (.removeConnectionInLoop c) := by
  have hloop := loopOf_le (r.reach n) hc
  -- the thread of the loop cannot come on before it has called `closeCallback`
  have hcalled : r.LeadsTo (fun s => (c, .closeCallback) ∈ s.reactions ((r.state n).loopOf c))
      fun s => s.Ran (.removeConnectionInLoop c) ∨
        .removeConnectionInLoop c ∈ (s.queue 0).unrun := by
    refine Sys.Run.leadsTo_of_blocked (hfair _ hloop) fun k hk => ?_
    rcases reaction_step (.of_reach (r.reach k)) (.of_reach (r.reach k)) (r.next k) hk with
      ⟨rest, hs⟩ | hwait
    · rw [hs]
      exact .inl (removed_or_queued ..)
    · exact .inr hwait
  obtain ⟨m, hm, hran | hq⟩ := hcalled n h
  · exact ⟨m, hm, hran⟩
  · obtain ⟨k, hk, -, hran⟩ := leadsTo_ran (hfair 0 (Nat.zero_le _)) _ m hq
    exact ⟨k, hm.trans hk, hran⟩

theorem removed_destroyed {n : ℕ} (hc : c < (r.state n).accepted)
    (h : (r.state n).Ran (.removeConnectionInLoop c)) :
    ∃ m, n ≤ m ∧ (r.state m).connections ((r.state m).nameOf c) ≠ some c ∧
      (r.state m).destroyed c = true := by
  have hloop := loopOf_le (r.reach n) hc
  obtain ⟨m, hm, -, hd⟩ := leadsTo_ran (hfair _ hloop) _ n h.2
  exact ⟨m, hm, removed_kept hm hc h.1, hd⟩

end Fair

/-- **Every connection that is closed is destroyed**: when its `closeCallback` is to be called, it is in the
end taken out of `connections`, and `connectDestroyed` is called. -/
theorem closed_destroyed (r : (sys cfg).Run C)
    (hfair : ∀ l ≤ cfg.numThreads, r.Often (Label.advances l)) (c : ConnId) :
    r.LeadsTo (fun s => s.Closes c) fun s =>
      s.connections (s.nameOf c) ≠ some c ∧ s.destroyed c = true := by
  intro n h
  have hc : c < (r.state n).accepted := (Placed.of_reach (r.reach n)).reaction _ _ h
  obtain ⟨m, hm, hran⟩ := closes_removed hfair hc h
  obtain ⟨k, hk, hd⟩ := removed_destroyed hfair (loopOf_kept hm hc).1 hran
  exact ⟨k, hm.trans hk, hd⟩

/-- The sub loop has found the end of the stream. -/
theorem closed_destroyed_peer : ∃ r : (sys config).Run fun _ _ => True,
    (r.state 0).Closes 0 ∧ r.LeadsTo (Closes 0) fun s =>
      s.connections (s.nameOf 0) ≠ some 0 ∧ s.destroyed 0 = true := by
  obtain ⟨s, hr, hs⟩ := Sys.Reach.exists_of_execIf (M := sys config) (s := start config)
    (C := fun _ _ => True) (P := fun s => (0, .closeCallback) ∈ s.reactions (s.loopOf 0)) (.init rfl)
    (opening 7 ++ (closing 7).take 2) (by decide +kernel)
  obtain ⟨r, rfl, -, hfair, -⟩ := exists_fair_run .nothing hr fun _ _ _ => trivial
  exact ⟨r, hs, closed_destroyed r hfair 0⟩

end TcpServer

end Mymuduo
