import Mymuduo.ServerReg

/-!
# Mymuduo.Lifetime — the lifetime of a connection and its registration

In the runs in which `send` and `shutdown` are called by the loop threads only, `Own` and `Reg` are
invariants together.  So no plain pointer outlives its connection, neither in the records of a poller
nor in `activeChannels`; and a descriptor has no records when a new connection takes it over.
-/

namespace Mymuduo

open Lib

namespace TcpServer

variable {cfg : Config} {s s' : TcpServer} {l : LoopId} {c : ConnId}

/-! ### Whole runs -/

/-- The functions of a connection are called by the loop threads only, and fewer than `2 ^ 31`
connections are accepted. -/
def LoopThreads (s : TcpServer) (lab : Label) : Prop := lab.foreign = false ∧ s.Numbered lab

instance (s : TcpServer) (lab : Label) : Decidable (s.LoopThreads lab) :=
  inferInstanceAs (Decidable (_ ∧ _))

theorem invariant_of_loopThreads (h : (sys cfg).Reach LoopThreads s) : Own cfg s ∧ Reg cfg s :=
  h.invariant (I := fun s => Own cfg s ∧ Reg cfg s) (fun _ hs => hs ▸ ⟨.start, .start⟩)
    fun _ _ _ hi hc hst => ⟨hi.1.step hc.2 hst, hi.2.step hi.1 hc.2 hc.1 hst⟩

/-- The next step of the loop `l` registers a new connection with the descriptor `fd`: it runs
`connectEstablished`, as a functor or, in the base loop, when it accepts the connection. -/
def Registers (cfg : Config) (s : TcpServer) (l : LoopId) (fd : ℕ) : Prop :=
  (s.phase l = .functors ∧ ∃ c rest, (s.queue l).rest = .connectEstablished c :: rest ∧
    (s.conn c).channel.fd = fd) ∨
  (l = 0 ∧ s.phase 0 = .dispatch ∧ (∃ rest, s.active 0 = .accept :: rest) ∧
    (s.getNextLoop cfg).1 = 0 ∧ s.FreeFd cfg fd)

/-- **No pointer outlives its connection.**  At every moment of every run:

* the channel of a connection that has been established and is held no longer is neither in `channels`
  nor in the epoll set of any loop;
* the connection of every channel that is still to be dispatched is held;
* when a loop registers a connection, its poller has no records of the descriptor. -/
theorem lifetime (h : (sys cfg).Reach LoopThreads s) :
    (∀ c, s.established c = true → ¬ s.Held cfg c → ∀ l fd, ¬ (s.poller l).Entry fd (.conn c)) ∧
    (∀ l c, .conn c ∈ s.active l → s.Held cfg c) ∧
    ∀ l fd, s.Registers cfg l fd → (s.poller l).channels fd = none ∧ (s.poller l).epoll fd = none := by
  obtain ⟨ho, hr⟩ := invariant_of_loopThreads h
  refine ⟨fun c _ hn l fd he => ?_, fun l c hm => ?_, fun l fd hreg => ?_⟩
  · rcases hr.entry l fd _ he with ⟨-, hp⟩ | ⟨c', hc, hp, -, -, hi⟩
    · exact hp c rfl
    · obtain rfl := ChannelPtr.conn.inj hp
      exact hn (ho.held hc (hr.live c hc (.inl hi)).2)
  · obtain ⟨hc, -, hlive⟩ := hr.active l c hm
    exact ho.held hc hlive.2
  · rcases hreg with ⟨-, c, rest, hrest, rfl⟩ | ⟨-, -, -, -, hf⟩
    · have hu : .connectEstablished c ∈ (s.queue l).unrun := TaskQueue.mem_unrun_of_rest hrest
      have hq := TaskQueue.held_of_unrun hu
      obtain ⟨hc, hl⟩ := ho.queued l _ hq
      have hcoh := hr.coherent c hc (ho.held_of_queued hq rfl)
      have hidx : (s.conn c).channel.index = .kNew := by
        by_contra hi
        exact Bool.false_ne_true ((hr.once.not_established hu).symm.trans (hr.live c hc (.inl hi)).1)
      rw [show s.loopOf c = l from hl] at hcoh
      exact ⟨hcoh.channels.trans (if_pos hidx), hcoh.epoll.trans (if_neg (by simp [hidx]))⟩
    · have hn := coherent_new (hr.no_entry ho hf l) (.conn 0)
      exact ⟨hn.channels, hn.epoll⟩

/-- A connection has gone, and the next one with its descriptor is about to be registered. -/
theorem lifetime_reused :
    ∃ s, (sys config).Reach LoopThreads s ∧ (s.established 0 = true ∧ ¬ s.Held config 0 ∧
      ∀ l fd, ¬ (s.poller l).Entry fd (.conn 0)) ∧
      (s.Registers config 1 7 ∧ (s.poller 1).channels 7 = none) := by
  obtain ⟨s, hr, hest, hheld, hp, hrest, hfd⟩ := Sys.Reach.exists_of_execIf (M := sys config)
    (s := start config) (C := LoopThreads)
    (P := fun s => s.established 0 = true ∧ ¬ s.Held config 0 ∧ s.phase 1 = .functors ∧
      (s.queue 1).rest = [.connectEstablished 1] ∧ (s.conn 1).channel.fd = 7)
    (.init rfl)
    (opening 7 ++ closing 7 ++ taking 1 ++ running 1 ++ [.endFunctors 1] ++ (opening 7).take 6)
    (by decide +kernel)
  have hreg : s.Registers config 1 7 := .inl ⟨hp, 1, [], hrest, hfd⟩
  obtain ⟨ha, -, hc⟩ := lifetime hr
  exact ⟨s, hr, ⟨hest, hheld, ha 0 hest hheld⟩, hreg, (hc 1 7 hreg).1⟩

end TcpServer

end Mymuduo
