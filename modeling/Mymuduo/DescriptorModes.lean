import Mymuduo.SendSpec
import Mymuduo.ServerLife

/-!
# Mymuduo.DescriptorModes — which calls may block

`kernelWrite` is `write` on a stream socket whose peer does not read: with `O_NONBLOCK` it takes what
fits the send buffer, without it waits until all bytes fit.  `sendInLoopOn` and `handleWriteOn` are the
two functions that write, on a descriptor in either mode; `none` is a call that does not return.

`Modes` says which descriptors have the flag: those that the program creates, and none that `accept`
returns.  So a call on an accepted connection returns exactly if it writes nothing or all that it
offers fits (`modes_of_reach`).
-/

namespace Mymuduo

open Lib

/-- `write` while the peer does not read and `free` bytes fit the send buffer. -/
def kernelWrite (nonblocking : Bool) (free : ℕ) (offered : List UInt8) : Option IoRet :=
  if nonblocking then
    some (if free = 0 ∧ offered ≠ [] then .err EWOULDBLOCK else .ok (min free offered.length))
  else if offered.length ≤ free then some (.ok offered.length)
  else none

def Event.isWrite : Event → Bool
  | .directWrite .. | .write .. => true
  | _ => false

namespace Io

/-- `sendInLoop` writes to the descriptor. -/
def WritesDirect (io : Io) : Prop :=
  io.conn.state ≠ .kDisconnected ∧ io.conn.channel.isWriting = false ∧
    io.conn.outputBuffer.readable = []

instance (io : Io) : Decidable io.WritesDirect := inferInstanceAs (Decidable (_ ∧ _ ∧ _))

def sendInLoopOn (nonblocking : Bool) (free : ℕ) (message : List UInt8) (logErrno : Errno) (io : Io) :
    Option Io :=
  if io.WritesDirect then
    (kernelWrite nonblocking free message).map fun ret => io.sendInLoop message ⟨ret, logErrno⟩
  else some (io.sendInLoop message ⟨.ok 0, logErrno⟩)

def handleWriteOn (nonblocking : Bool) (free : ℕ) (io : Io) : Option Io :=
  if io.conn.channel.isWriting then
    (kernelWrite nonblocking free io.conn.outputBuffer.readable).map fun ret => io.handleWrite ret
  else some (io.handleWrite (.ok 0))

/-- At most one write, which takes at most `free` bytes; the rest stays in `outputBuffer`. -/
def Prompt (free : ℕ) (message : List UInt8) (io io' : Io) : Prop :=
  ∃ evs, io'.trace = io.trace ++ evs ∧ evs.countP Event.isWrite ≤ 1 ∧
    (accepted evs).length ≤ free ∧
    io.conn.outputBuffer.readable ++ message = accepted evs ++ io'.conn.outputBuffer.readable

variable {nonblocking : Bool} {free : ℕ} {message : List UInt8} {logErrno : Errno} {io : Io}

/-! ### What the kernel answers -/

theorem kernelWrite_cases {offered : List UInt8} {ret : IoRet}
    (h : kernelWrite nonblocking free offered = some ret) :
    ret = .err EWOULDBLOCK ∨ ∃ n ≤ free, n ≤ offered.length ∧ ret = .ok n := by
  unfold kernelWrite at h
  split at h
  · split at h
    · exact .inl (Option.some.inj h).symm
    · exact .inr ⟨_, Nat.min_le_left _ _, Nat.min_le_right _ _, (Option.some.inj h).symm⟩
  · split at h
    next hle => exact .inr ⟨_, hle, le_rfl, (Option.some.inj h).symm⟩
    next => cases h

theorem kernelWrite_isSome {offered : List UInt8} :
    (kernelWrite nonblocking free offered).isSome = true ↔
      nonblocking = true ∨ offered.length ≤ free := by
  unfold kernelWrite
  cases nonblocking with
  | true => simp
  | false =>
    by_cases hle : offered.length ≤ free
    · simp [hle]
    · simp [hle]

theorem countP_isWrite {notes : List Event} (h : ∀ e ∈ notes, e.isNotification) :
    notes.countP Event.isWrite = 0 := by
  refine List.countP_eq_zero.mpr fun e he => ?_
  have hn := h e he
  cases e <;> simp_all [Event.isNotification, Event.isWrite]

/-! ### `sendInLoop` -/

theorem prompt_of_disconnected (hs : io.conn.state = .kDisconnected) (env : SendEnv) :
    Prompt free [] io (io.sendInLoop message env) := by
  have he : io.sendInLoop message env = io.emit (.sendInLoop message) := if_pos hs
  rw [he]
  exact ⟨[.sendInLoop message], rfl, by simp [Event.isWrite], by simp [Event.accepted],
    by simp [Event.accepted]⟩

theorem SendCase.countP_isWrite {env : SendEnv} {evs : List Event} {rest : List UInt8}
    (h : SendCase io message env evs rest) : evs.countP Event.isWrite ≤ 1 := by
  cases h with
  | behind _ hn => simp [Io.countP_isWrite hn]
  | taken _ _ _ hn | failed _ _ _ _ hn =>
    simp [List.countP_cons, Event.isWrite, Io.countP_isWrite hn]
  | dropped => simp [Event.isWrite]

theorem SendCase.accepted_le {env : SendEnv} {evs : List Event} {rest : List UInt8}
    (h : SendCase io message env evs rest)
    (hfree : ∀ n, env.write.of message = .ok n → n ≤ free) : (accepted evs).length ≤ free := by
  cases h with
  | behind _ hn => simp [(silent_of_notifications hn).accepted]
  | taken _ _ hret hn =>
    simp [Event.accepted, (silent_of_notifications hn).accepted, hfree _ hret]
  | failed _ _ _ _ hn => simp [Event.accepted, (silent_of_notifications hn).accepted]
  | dropped => simp [Event.accepted]

/-- A direct write that takes no more than fits, or fails with `EWOULDBLOCK`. -/
theorem prompt_sendInLoop (hs : io.conn.state ≠ .kDisconnected) {env : SendEnv}
    (hw : env.write = .err EWOULDBLOCK ∨ ∃ n ≤ free, n ≤ message.length ∧ env.write = .ok n) :
    Prompt free message io (io.sendInLoop message env) := by
  have hret : env.write.of message = .err EWOULDBLOCK ∨
      ∃ n ≤ free, env.write.of message = .ok n := by
    rcases hw with hw | ⟨n, hf, hn, hw⟩
    · exact .inl (by rw [hw]; rfl)
    · exact .inr ⟨n, hf, by rw [hw, IoRet.of, Nat.min_eq_left hn]⟩
  have hfree : ∀ n, env.write.of message = .ok n → n ≤ free := by
    intro n hn
    rcases hret with he | ⟨m, hm, he⟩
    · cases he.symm.trans hn
    · cases he.symm.trans hn
      exact hm
  obtain ⟨evs, rest, h, hb⟩ := sendInLoop_cases message env hs
  refine ⟨.sendInLoop message :: evs, hb.trace, ?_, h.accepted_le hfree, ?_⟩
  · rw [List.countP_cons_of_neg (by simp [Event.isWrite])]
    exact h.countP_isWrite
  · rw [hb.output]
    rcases h.whole_or_dropped with ⟨-, he⟩ | ⟨e, -, -, herr, -, he, -⟩
    · exact he
    · -- an error that the kernel does not give here
      rcases hret with hret | ⟨n, -, hret⟩
      · cases hret.symm.trans herr
        exact absurd rfl he
      · cases hret.symm.trans herr

/-- **`sendInLoop` returns** with one write at most exactly if the descriptor does not block, there is
nothing to write, or all bytes fit. -/
theorem sendInLoop_prompt_iff :
    (∃ io', io.sendInLoopOn nonblocking free message logErrno = some io' ∧
      Prompt free (if io.conn.state = .kDisconnected then [] else message) io io') ↔
    nonblocking = true ∨ ¬ io.WritesDirect ∨ message.length ≤ free := by
  unfold sendInLoopOn
  by_cases hw : io.WritesDirect
  · rw [if_pos hw, if_neg hw.1]
    constructor
    · rintro ⟨io', he, -⟩
      obtain ⟨ret, hk, -⟩ := Option.map_eq_some_iff.mp he
      have hsome := kernelWrite_isSome.mp (Option.isSome_iff_exists.mpr ⟨ret, hk⟩)
      exact hsome.imp_right .inr
    · intro h
      have hsome : nonblocking = true ∨ message.length ≤ free :=
        h.imp_right fun h => h.resolve_left (not_not.mpr hw)
      obtain ⟨ret, hk⟩ := Option.isSome_iff_exists.mp (kernelWrite_isSome.mpr hsome)
      exact ⟨_, by rw [hk]; rfl, prompt_sendInLoop hw.1 (kernelWrite_cases hk)⟩
  · rw [if_neg hw]
    refine iff_of_true ⟨_, rfl, ?_⟩ (.inr (.inl hw))
    by_cases hs : io.conn.state = .kDisconnected
    · rw [if_pos hs]
      exact prompt_of_disconnected hs _
    · rw [if_neg hs]
      exact prompt_sendInLoop hs (.inr ⟨0, Nat.zero_le _, Nat.zero_le _, rfl⟩)

/-! ### `handleWrite` -/

theorem prompt_of_write (hw : io.conn.channel.isWriting = true) {ret : IoRet}
    (hk : kernelWrite nonblocking free io.conn.outputBuffer.readable = some ret) :
    Prompt free [] io (io.handleWrite ret) := by
  obtain ⟨notes, fin, h⟩ := handleWrite_cases ret hw rfl
  set q := io.conn.outputBuffer.readable with hq
  have hfin : fin.countP Event.isWrite = 0 := by
    rcases h.fin_cases with rfl | ⟨rfl, -⟩ <;> rfl
  have hacc : accepted (.write q (ret.of q) :: notes ++ fin) = (Event.write q (ret.of q)).accepted := by
    rw [List.cons_append, accepted_cons, h.silent.accepted, List.append_nil]
  refine ⟨_, h.trace, ?_, ?_, ?_⟩
  · simp [List.countP_cons, Event.isWrite, countP_isWrite h.note, hfin]
  · rw [hacc]
    rcases kernelWrite_cases hk with rfl | ⟨n, hf, hn, rfl⟩
    · simp [IoRet.of, Event.accepted]
    · rw [IoRet.of, Nat.min_eq_left hn]
      exact (List.length_take_le n q).trans hf
  · rw [hacc, h.stream, ← hq, List.append_nil]

/-- **`handleWrite` returns** with one write at most exactly if the descriptor does not block, there is
nothing to write, or all bytes fit. -/
theorem handleWrite_prompt_iff :
    (∃ io', io.handleWriteOn nonblocking free = some io' ∧ Prompt free [] io io') ↔
    nonblocking = true ∨ io.conn.channel.isWriting = false ∨
      io.conn.outputBuffer.readable.length ≤ free := by
  unfold handleWriteOn
  cases hw : io.conn.channel.isWriting with
  | true =>
    simp only [if_true, Bool.true_eq_false, false_or]
    constructor
    · rintro ⟨io', he, -⟩
      obtain ⟨ret, hk, -⟩ := Option.map_eq_some_iff.mp he
      exact kernelWrite_isSome.mp (Option.isSome_iff_exists.mpr ⟨ret, hk⟩)
    · intro h
      obtain ⟨ret, hk⟩ := Option.isSome_iff_exists.mp (kernelWrite_isSome.mpr h)
      exact ⟨_, by rw [hk]; rfl, prompt_of_write hw hk⟩
  | false =>
    have he : io.handleWrite (.ok 0) = io := by simp [handleWrite, hw]
    simp only [Bool.false_eq_true, if_false, true_or, or_true, iff_true, he]
    exact ⟨io, rfl, [], by simp, by simp, by simp, by simp⟩

end Io

/-! ### The modes of the descriptors -/

namespace ServerLife

variable {cfg : Config} {s s' : ServerLife}

/-- The descriptors that the program creates do not block, those that `accept` returns do. -/
structure Modes (cfg : Config) (s : ServerLife) : Prop where
  listen : s.nonblocking cfg.listenFd = true
  wakeup : ∀ l ≤ s.threads, s.nonblocking (cfg.wakeupFd l) = true
  conn : ∀ c < s.server.accepted, s.nonblocking (s.server.conn c).channel.fd = false

theorem Modes.construct : (construct cfg).Modes cfg := by
  refine ⟨Function.update_self .., fun l hl => ?_, fun c hc => (Nat.not_lt_zero c hc).elim⟩
  obtain rfl : l = 0 := Nat.le_zero.mp hl
  show Function.update (Function.update (fun _ => false) (cfg.wakeupFd 0) true) cfg.listenFd true
    (cfg.wakeupFd 0) = true
  by_cases he : cfg.wakeupFd 0 = cfg.listenFd
  · rw [he, Function.update_self]
  · rw [Function.update_of_ne he, Function.update_self]

/-- What creates no descriptor. -/
theorem Modes.of_extends (h : s.Modes cfg) (he : s.server.Extends s'.server)
    (ha : s'.server.accepted = s.server.accepted) (ht : s'.threads = s.threads)
    (hn : s'.nonblocking = s.nonblocking) : s'.Modes cfg where
  listen := hn ▸ h.listen
  wakeup l hl := by
    rw [hn]
    exact h.wakeup l (ht ▸ hl)
  conn c hc := by
    rw [ha] at hc
    rw [hn, he.fd c hc]
    exact h.conn c hc

/-- The next loop has its own eventfd, which is the descriptor of no connection. -/
theorem Modes.startLoop (h : s.Modes cfg) (hi : s.Inv cfg) (ht : s.threads < cfg.numThreads) :
    (s.startLoop cfg).Modes cfg := by
  have hset : ∀ fd, s.nonblocking fd = true → (s.startLoop cfg).nonblocking fd = true := by
    intro fd hfd
    show Function.update s.nonblocking (cfg.wakeupFd (s.threads + 1)) true fd = true
    by_cases he : fd = cfg.wakeupFd (s.threads + 1)
    · rw [he, Function.update_self]
    · rw [Function.update_of_ne he]
      exact hfd
  refine ⟨hset _ h.listen, fun l hl => ?_, fun c hc => ?_⟩
  · rcases Nat.lt_or_eq_of_le hl with hl | rfl
    · exact hset _ (h.wakeup l (Nat.le_of_lt_succ hl))
    · exact Function.update_self ..
  · have hne : (s.server.conn c).channel.fd ≠ cfg.wakeupFd (s.threads + 1) := fun he =>
      hi.placed.unreserved c hc (.inr ⟨s.threads + 1, ht, he⟩)
    exact (Function.update_of_ne hne ..).trans (h.conn c hc)

/-- A descriptor that `accept` returns is none of the program's own. -/
theorem Modes.setServer (h : s.Modes cfg) (hi : s.Inv cfg) {server : TcpServer}
    (hi' : (s.setServer server).Inv cfg) (he : s.server.Extends server) :
    (s.setServer server).Modes cfg := by
  by_cases ha : server.accepted = s.server.accepted
  · exact h.of_extends he ha rfl (if_pos ha)
  · have hacc : server.accepted = s.server.accepted + 1 := by
      have h1 := he.accepted
      have h2 := he.one
      omega
    set fd := (server.conn s.server.accepted).channel.fd with hfd
    have hflags : (s.setServer server).nonblocking = Function.update s.nonblocking fd false :=
      if_neg ha
    have hres : ¬ cfg.Reserved fd := hi'.placed.unreserved s.server.accepted
      (show s.server.accepted < server.accepted by omega)
    refine ⟨?_, fun l hl => ?_, fun c hc => ?_⟩
    · have hne : cfg.listenFd ≠ fd := fun he => hres (.inl he.symm)
      rw [hflags, Function.update_of_ne hne]
      exact h.listen
    · have hne : cfg.wakeupFd l ≠ fd := fun he =>
        hres (.inr ⟨l, hl.trans hi.threads, he.symm⟩)
      rw [hflags, Function.update_of_ne hne]
      exact h.wakeup l hl
    · change c < server.accepted at hc
      show (s.setServer server).nonblocking (server.conn c).channel.fd = false
      rw [hflags]
      rcases Nat.lt_or_eq_of_le (Nat.le_of_lt_succ (hacc ▸ hc)) with hc | rfl
      · rw [he.fd c hc]
        by_cases hsame : (s.server.conn c).channel.fd = fd
        · rw [hsame, Function.update_self]
        · rw [Function.update_of_ne hsame]
          exact h.conn c hc
      · exact Function.update_self ..

theorem Modes.step (h : s.Modes cfg) (hi : s.Inv cfg) {lab : Label}
    (hst : step cfg s lab = some s') : s'.Modes cfg := by
  have hi' := hi.step hst
  cases move_of_step hst with
  | startLoop caller _ ht => exact h.startLoop hi ht
  | run lab server _ _ hs => exact h.setServer hi hi' (TcpServer.extends_of_step hs)
  | call c a =>
    have h1 := TcpServer.Extends.onConn (s := s.server) (c := c) (f := fun io => io.act a) 0
      ((Io.Steps.refl _).act any_event a)
    exact h.of_extends h1 rfl rfl rfl
  | closeNext c todo acts =>
    refine h.of_extends ?_ (accepted_closeConnection s.server c acts) rfl rfl
    exact extends_closeConnection s.server c acts
  | _ => exact h.of_extends (.of_eq rfl rfl fun _ => rfl) rfl rfl rfl

/-- **Which calls may block.**  In every reachable state:

* all registered descriptors are non-blocking exactly while no connection is registered;
* a call of `sendInLoop` or `handleWrite` on a connection returns after one write at most, of what fits
  the send buffer, exactly if it writes nothing or all that it offers fits. -/
theorem modes_of_reach {C : ServerLife → Label → Prop} (h : (sys cfg).Reach C s) :
    ((∀ l fd x, (s.server.poller l).epoll fd = some x → s.nonblocking fd = true) ↔
      ∀ l fd m c, (s.server.poller l).epoll fd ≠ some (m, .conn c)) ∧
    ∀ c < s.server.accepted, ∀ io, io.conn = s.server.conn c → ∀ free,
      (∀ message logErrno,
        (∃ io', io.sendInLoopOn (s.nonblocking io.conn.channel.fd) free message logErrno = some io' ∧
          Io.Prompt free (if io.conn.state = .kDisconnected then [] else message) io io') ↔
        ¬ io.WritesDirect ∨ message.length ≤ free) ∧
      ((∃ io', io.handleWriteOn (s.nonblocking io.conn.channel.fd) free = some io' ∧
          Io.Prompt free [] io io') ↔
        io.conn.channel.isWriting = false ∨ io.conn.outputBuffer.readable.length ≤ free) := by
  have hinv : s.Inv cfg ∧ s.Modes cfg :=
    h.invariant (I := fun s => s.Inv cfg ∧ s.Modes cfg) (fun _ hs => hs ▸ ⟨.construct, .construct⟩)
      fun _ _ _ hi _ hst => ⟨hi.1.step hst, hi.2.step hi.1 hst⟩
  obtain ⟨hi, hm⟩ := hinv
  refine ⟨⟨fun hall l fd m c he => ?_, fun hnone l fd x he => ?_⟩, fun c hc io hio free => ?_⟩
  · obtain ⟨⟨hc, -⟩, hfd, -⟩ := hi.placed.entry l fd m _ he
    have hblock := hm.conn c hc
    rw [hfd, hall l fd _ he] at hblock
    cases hblock
  · obtain ⟨m, ptr⟩ := x
    obtain ⟨-, hunder⟩ := hi.placed.entry l fd m ptr he
    cases ptr with
    | conn c => exact absurd he (hnone l fd m c)
    | accept => exact hunder.1 ▸ hm.listen
    | wakeup l' => exact hunder.2 ▸ hm.wakeup l hunder.1
  · have hmode : s.nonblocking io.conn.channel.fd = false := hio ▸ hm.conn c hc
    rw [hmode]
    refine ⟨fun message logErrno => ?_, ?_⟩
    · rw [Io.sendInLoop_prompt_iff]
      simp
    · rw [Io.handleWrite_prompt_iff]
      simp

/-- The accepted connection is registered and blocks: two bytes do not fit a send buffer with room for
one, and `sendInLoop` does not return. -/
theorem modes_opened : ∃ s, (sys TcpServer.config).Reach (fun _ _ => True) s ∧
    (∃ l fd x, (s.server.poller l).epoll fd = some x ∧ s.nonblocking fd = false) ∧
    ¬ ∃ io', (s.server.io 0).sendInLoopOn (s.nonblocking 7) 1 [0, 0] 0 = some io' := by
  obtain ⟨s, hr, he, hn, hw⟩ := Sys.Reach.exists_of_execIf (M := sys TcpServer.config)
    (s := construct TcpServer.config) (C := fun _ _ => True)
    (P := fun s => ((s.server.poller 1).epoll 7).isSome = true ∧ s.nonblocking 7 = false ∧
      (s.server.io 0).WritesDirect)
    (.init rfl) opened (by decide +kernel)
  obtain ⟨x, he⟩ := Option.isSome_iff_exists.mp he
  refine ⟨s, hr, ⟨1, 7, x, he, hn⟩, ?_⟩
  rintro ⟨io', hio⟩
  unfold Io.sendInLoopOn at hio
  rw [if_pos hw, hn] at hio
  cases hio

/-- The same connection: one byte fits. -/
theorem modes_fits : ∃ s, (sys TcpServer.config).Reach (fun _ _ => True) s ∧
    s.nonblocking 7 = false ∧
    ∃ io', (s.server.io 0).sendInLoopOn (s.nonblocking 7) 1 [0] 0 = some io' := by
  obtain ⟨s, hr, hacc, hfd, hn⟩ := Sys.Reach.exists_of_execIf (M := sys TcpServer.config)
    (s := construct TcpServer.config) (C := fun _ _ => True)
    (P := fun s => 0 < s.server.accepted ∧ (s.server.conn 0).channel.fd = 7 ∧
      s.nonblocking 7 = false)
    (.init rfl) opened (by decide +kernel)
  obtain ⟨-, hcalls⟩ := modes_of_reach hr
  obtain ⟨hsend, -⟩ := hcalls 0 hacc (s.server.io 0) rfl 1
  obtain ⟨io', hio, -⟩ := (hsend [0] 0).mpr (.inr le_rfl)
  refine ⟨s, hr, hn, io', ?_⟩
  rw [← hfd]
  exact hio

end ServerLife

end Mymuduo
