import Mathlib.Tactic.Ring
import Mymuduo.ServerOwn

/-!
# Mymuduo.EventList — the events of one `epoll_wait` (`EPollerPoller::poll`)

`events_` is the vector that `epoll_wait` writes to, `fillActiveChannels` reads back, and `poll` doubles
when it has come back full.  `WaitRet` is all that the kernel has ready at the call; it writes no more than
there is room for.  A zeroed entry holds a null pointer.

A poll never reads what an earlier one has left behind.  It leaves out ready channels only while the vector
is too short, and that ends: if no more than `16 * 2 ^ m` channels are ever ready at once, at most `m` polls
leave one out.
-/

namespace Mymuduo

open Lib Events

/-- `epoll_event`. -/
abbrev EpollEvent := Events × ChannelPtr

inductive WaitRet
  | ready (events : List EpollEvent)
  | error (errno : Errno)

/-- What is ready at the call. -/
def WaitRet.events : WaitRet → List EpollEvent
  | .ready events => events
  | .error _ => []

/-- `revents` are those of every channel. -/
structure EventList where
  events : List (Option EpollEvent)
  revents : ChannelPtr → Events

namespace EventList

def kInitEventListSize : ℕ := 16

def new : EventList := ⟨List.replicate kInitEventListSize none, fun _ => kNoneEvent⟩

/-- `none` when it writes through a null pointer. -/
def fillActiveChannels : List (Option EpollEvent) → (ChannelPtr → Events) → List ChannelPtr →
    Option ((ChannelPtr → Events) × List ChannelPtr)
  | [], revents, active => some (revents, active)
  | none :: _, _, _ => none
  | some (mask, channel) :: events, revents, active =>
    fillActiveChannels events (Function.update revents channel mask) (active ++ [channel])

/-- `poll`: the vector and the active channels. -/
def poll (ret : WaitRet) (s : EventList) : Option (EventList × List ChannelPtr) :=
  match ret with
  | .error _ => some (s, [])
  | .ready ready =>
    let numEvents := min ready.length s.events.length
    let events := (ready.take numEvents).map some ++ s.events.drop numEvents
    if 0 < numEvents then
      (fillActiveChannels (events.take numEvents) s.revents []).map fun r =>
        if numEvents = events.length then
          (⟨events ++ List.replicate events.length none, r.1⟩, r.2)
        else (⟨events, r.1⟩, r.2)
    else some (⟨events, s.revents⟩, [])

/-- The `revents` after some events have been taken over. -/
def takeOver (revents : ChannelPtr → Events) (events : List EpollEvent) : ChannelPtr → Events :=
  events.foldl (fun r e => Function.update r e.2 e.1) revents

theorem fillActiveChannels_some (events : List EpollEvent) (revents : ChannelPtr → Events)
    (active : List ChannelPtr) : fillActiveChannels (events.map some) revents active =
      some (takeOver revents events, active ++ events.map Prod.snd) := by
  induction events generalizing revents active with
  | nil => simp [fillActiveChannels, takeOver]
  | cons e events ih =>
    rw [List.map_cons, fillActiveChannels, ih]
    simp [takeOver]

theorem poll_ready (ready : List EpollEvent) (s : EventList) (hs : s.events ≠ []) :
    ∃ s', s.poll (.ready ready) = some (s', (ready.take s.events.length).map Prod.snd) ∧
      s'.revents = takeOver s.revents (ready.take s.events.length) ∧
      s'.events.length = if s.events.length ≤ ready.length then 2 * s.events.length else s.events.length := by
  have hpos : 0 < s.events.length := List.length_pos_iff.mpr hs
  have htake : ready.take (min ready.length s.events.length) = ready.take s.events.length := by
    rw [← List.take_take, List.take_of_length_le (List.length_take_le' ..)]
  have hlen : (ready.take s.events.length).length = min ready.length s.events.length := by
    rw [List.length_take, Nat.min_comm]
  -- what is read back is what has just been written
  have hback : ((ready.take s.events.length).map some ++
      s.events.drop (min ready.length s.events.length)).take (min ready.length s.events.length) =
        (ready.take s.events.length).map some :=
    List.take_left' ((List.length_map ..).trans hlen)
  have hsize : ((ready.take s.events.length).map some ++
      s.events.drop (min ready.length s.events.length)).length = s.events.length := by
    rw [List.length_append, List.length_map, hlen, List.length_drop]
    omega
  by_cases hn : 0 < min ready.length s.events.length
  · simp only [poll, htake, hback, hsize, fillActiveChannels_some, Option.map_some, List.nil_append]
    rw [if_pos hn]
    by_cases hfull : min ready.length s.events.length = s.events.length
    · rw [if_pos hfull]
      refine ⟨_, rfl, rfl, ?_⟩
      rw [if_pos (by omega), List.length_append, hsize, List.length_replicate, Nat.two_mul]
    · rw [if_neg hfull]
      refine ⟨_, rfl, rfl, ?_⟩
      rw [if_neg (by omega), hsize]
  · have hnil : ready = [] := List.length_eq_zero_iff.mp (by omega)
    subst hnil
    exact ⟨s, by simp [poll], by simp [takeOver], (if_neg (Nat.not_le.mpr hpos)).symm⟩

/-- **What a poll does**: it delivers the events that there is room for, in the kernel's order, and doubles
a vector that has come back full. -/
theorem poll_eq (ret : WaitRet) (s : EventList) (hs : s.events ≠ []) :
    ∃ s', s.poll ret = some (s', (ret.events.take s.events.length).map Prod.snd) ∧
      s'.revents = takeOver s.revents (ret.events.take s.events.length) ∧
      s'.events.length =
        if s.events.length ≤ ret.events.length then 2 * s.events.length else s.events.length := by
  cases ret with
  | error errno =>
    have hpos : 0 < s.events.length := List.length_pos_iff.mpr hs
    exact ⟨s, by simp [poll, WaitRet.events], by simp [WaitRet.events, takeOver],
      (if_neg (Nat.not_le.mpr hpos)).symm⟩
  | ready ready => exact poll_ready ready s hs

/-! ### Runs -/

/-- The polls of a loop; a write through a null pointer has no step. -/
def sys : Sys EventList WaitRet where
  init s := s = new
  step s ret := (s.poll ret).map Prod.fst

/-- How many polls of a run leave out a channel that is ready. -/
def leftOut (s : EventList) : List WaitRet → ℕ
  | [] => 0
  | ret :: rets => (if s.events.length < ret.events.length then 1 else 0) +
    ((s.poll ret).map fun r => leftOut r.1 rets).getD 0

/-- From a vector of `16 * 2 ^ j` entries. -/
theorem leftOut_le_of_size {m : ℕ} {rets : List WaitRet}
    (h : ∀ ret ∈ rets, ret.events.length ≤ kInitEventListSize * 2 ^ m) {s : EventList} {j : ℕ}
    (hs : s.events.length = kInitEventListSize * 2 ^ j) (hj : j ≤ m + 1) :
    s.leftOut rets ≤ m - j ∧
      ∃ s', sys.exec s rets = some s' ∧ ∃ k ≤ m + 1, s'.events.length = kInitEventListSize * 2 ^ k := by
  induction rets generalizing s j with
  | nil => exact ⟨Nat.zero_le _, s, rfl, j, hj, hs⟩
  | cons ret rets ih =>
    obtain ⟨hret, hrets⟩ := List.forall_mem_cons.mp h
    have hne : s.events ≠ [] := by
      rw [← List.length_pos_iff, hs]
      exact Nat.mul_pos (by decide) (Nat.two_pow_pos j)
    obtain ⟨s', hpoll, -, hsize⟩ := poll_eq ret s hne
    have hstep : sys.step s ret = some s' := by simp [sys, hpoll]
    have hleft : s.leftOut (ret :: rets) =
        (if s.events.length < ret.events.length then 1 else 0) + s'.leftOut rets := by
      simp [leftOut, hpoll]
    rw [hleft, hs]
    by_cases hfull : s.events.length ≤ ret.events.length
    · -- the vector doubles, and it was no longer than `16 * 2 ^ m`
      have hjm : j ≤ m := by
        have hle : kInitEventListSize * 2 ^ j ≤ kInitEventListSize * 2 ^ m := hs ▸ hfull.trans hret
        exact (Nat.pow_le_pow_iff_right (by decide)).mp (Nat.le_of_mul_le_mul_left hle (by decide))
      rw [if_pos hfull, hs] at hsize
      obtain ⟨hle, s'', hexec, hk⟩ := ih hrets (j := j + 1) (hsize.trans (by ring)) (by omega)
      refine ⟨?_, s'', Sys.exec_cons_eq_some.mpr ⟨s', hstep, hexec⟩, hk⟩
      split
      next hlt =>
        have hjm' : j < m := by
          have hle : kInitEventListSize * 2 ^ j < kInitEventListSize * 2 ^ m := hlt.trans_le hret
          exact (Nat.pow_lt_pow_iff_right (by decide)).mp (Nat.lt_of_mul_lt_mul_left hle)
        omega
      next => omega
    · rw [if_neg hfull] at hsize
      obtain ⟨hle, s'', hexec, hk⟩ := ih hrets (hsize.trans hs) hj
      refine ⟨?_, s'', Sys.exec_cons_eq_some.mpr ⟨s', hstep, hexec⟩, hk⟩
      rw [if_neg (by omega), Nat.zero_add]
      exact hle

/-- **Few polls leave a channel out.**  If no more than `16 * 2 ^ m` channels are ever ready at once, no
sequence of polls writes through a null pointer, at most `m` of them leave out a ready channel, and the
vector grows to `16 * 2 ^ (m + 1)` entries at most. -/
theorem leftOut_le {m : ℕ} (rets : List WaitRet)
    (h : ∀ ret ∈ rets, ret.events.length ≤ kInitEventListSize * 2 ^ m) :
    new.leftOut rets ≤ m ∧
      ∃ s, sys.exec new rets = some s ∧ s.events.length ≤ kInitEventListSize * 2 ^ (m + 1) := by
  obtain ⟨hle, s, hexec, k, hk, hs⟩ := leftOut_le_of_size h (s := new) (j := 0) rfl (Nat.zero_le _)
  refine ⟨hle, s, hexec, ?_⟩
  rw [hs]
  exact Nat.mul_le_mul_left _ (Nat.pow_le_pow_right (by decide) hk)

/-- Three polls with 20, 32 and 40 ready channels, for which `m = 2` is enough. -/
theorem leftOut_le_forty : new.leftOut
    ([20, 32, 40].map fun n => .ready (List.replicate n (kReadEvent, .accept))) ≤ 2 :=
  (leftOut_le (m := 2) _ (by decide)).1

/-! ### The poll of a server -/

/-- The events as the kernel has them: the reported mask and the registered data pointer. -/
def entries (p : EPollerPoller) (reports : List (ℕ × Events)) : List EpollEvent :=
  reports.filterMap fun x => (p.epoll x.1).map fun y => (x.2, y.2)

theorem take_entries {p : EPollerPoller} {reports : List (ℕ × Events)}
    (h : ∀ x ∈ reports, (p.epoll x.1).isSome = true) (n : ℕ) :
    (entries p reports).take n = entries p (reports.take n) := by
  induction reports generalizing n with
  | nil => simp [entries]
  | cons x reports ih =>
    obtain ⟨hx, hrest⟩ := List.forall_mem_cons.mp h
    obtain ⟨y, hy⟩ := Option.isSome_iff_exists.mp hx
    cases n with
    | zero => rfl
    | succ n =>
      have ih := ih hrest n
      simp only [entries] at ih ⊢
      simp [hy, ih]

/-- The vector and the server have the same `revents` for connections; for the other channels the server has
none. -/
def Agrees (s : TcpServer) (revents : ChannelPtr → Events) : Prop :=
  ∀ c, revents (.conn c) = (s.conn c).channel.revents

theorem Agrees.takeOver {s : TcpServer} {revents : ChannelPtr → Events} (h : Agrees s revents)
    (p : EPollerPoller) (reports : List (ℕ × Events)) :
    Agrees (reports.foldl (TcpServer.setRevents p) s) (takeOver revents (entries p reports)) := by
  induction reports generalizing s revents with
  | nil => exact h
  | cons x reports ih =>
    rw [List.foldl_cons]
    cases hx : p.epoll x.1 with
    | none =>
      have hs : TcpServer.setRevents p s x = s := by simp [TcpServer.setRevents, hx]
      have he : entries p (x :: reports) = entries p reports := by simp [entries, hx]
      rw [hs, he]
      exact ih h
    | some y =>
      have he : entries p (x :: reports) = (x.2, y.2) :: entries p reports := by simp [entries, hx]
      rw [he, EventList.takeOver, List.foldl_cons]
      refine ih fun c => ?_
      obtain ⟨m, ptr⟩ := y
      cases ptr with
      | conn k =>
        simp only [TcpServer.setRevents, hx]
        by_cases hc : c = k
        · rw [hc, Function.update_self, Function.update_self]
        · rw [Function.update_of_ne hc, Function.update_of_ne (by simp [hc])]
          exact h c
      | wakeup k =>
        simp only [TcpServer.setRevents, hx]
        rw [Function.update_of_ne (by simp)]
        exact h c
      | accept =>
        simp only [TcpServer.setRevents, hx]
        rw [Function.update_of_ne (by simp)]
        exact h c

/-- **The poll of a server is the poll of its vector**: with the events that there is room for, it makes the
same channels active, in the same order, and gives those of connections the same `revents`. -/
theorem poll_fillActiveChannels {s : TcpServer} {l : LoopId} {reports : List (ℕ × Events)}
    (hr : TcpServer.Ready (s.poller l) reports) {b : EventList} (hb : b.events ≠ [])
    (ha : Agrees s b.revents) :
    ∃ b', b.poll (.ready (entries (s.poller l) reports)) =
        some (b', (s.fillActiveChannels l (reports.take b.events.length)).active l) ∧
      Agrees (s.fillActiveChannels l (reports.take b.events.length)) b'.revents := by
  obtain ⟨b', hpoll, hrev, -⟩ := poll_ready (entries (s.poller l) reports) b hb
  rw [take_entries hr.2] at hpoll hrev
  refine ⟨b', ?_, ?_⟩
  · rw [hpoll]
    have hact : (s.fillActiveChannels l (reports.take b.events.length)).active l =
        (reports.take b.events.length).filterMap fun x =>
          ((s.poller l).epoll x.1).map Prod.snd := Function.update_self ..
    rw [hact, entries, List.map_filterMap]
    simp [Option.map_map, Function.comp_def]
  · rw [hrev]
    exact ha.takeOver (s.poller l) (reports.take b.events.length)

/-- The first poll of the base loop, with both of its channels. -/
theorem poll_fillActiveChannels_both : ∃ b', new.poll (.ready
    (entries ((TcpServer.start TcpServer.config).poller 0) [(3, kReadEvent), (4, kReadEvent)])) =
      some (b', ((TcpServer.start TcpServer.config).fillActiveChannels 0
        ([(3, kReadEvent), (4, kReadEvent)].take 16)).active 0) ∧
    Agrees ((TcpServer.start TcpServer.config).fillActiveChannels 0
      ([(3, kReadEvent), (4, kReadEvent)].take 16)) b'.revents :=
  poll_fillActiveChannels (b := new) (by decide) (by decide) fun _ => rfl

end EventList

end Mymuduo
