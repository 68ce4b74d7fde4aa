import Mymuduo.CallLog

/-!
# Mymuduo.CallOrder — in which order calls from several threads reach the wire

`runInLoop` queues a call of another thread and carries out one of the loop thread at once, so the two
paths into `sendInLoop` and `shutdownInLoop` are each in the order of the calls, and a call of the loop
thread may overtake one that is queued (`call_order`).
-/

namespace Mymuduo

open Lib

namespace CallRun

variable {T : Type*} {log B : List (Entry T)} {c : UserCall T} {e : Entry T}

/-! ### Reading the order off a log -/

section Order

variable {pre post : List (Entry T)} {x : Entry T}

/-- What a call does, it does once. -/
theorem not_done_of_split (hg : Each Good log) (hlog : log = pre ++ e :: post) (hr : e.runs = some c) :
    ¬ Done c pre ∧ ¬ Done c post := by
  refine ⟨(Good.inTurn (hg pre e post hlog) hr).once, ?_⟩
  rintro ⟨e', he', hr'⟩
  obtain ⟨p, q, rfl⟩ := List.append_of_mem he'
  have ht := Good.inTurn (hg (pre ++ e :: p) e' q (by simp [hlog])) hr'
  exact ht.once ⟨e, by simp, hr⟩

theorem count_runs_le_one (hg : Each Good log) [DecidableEq T] (c : UserCall T) :
    log.countP (fun e => e.runs = some c) ≤ 1 := by
  by_cases hd : Done c log
  · obtain ⟨e, he, hr⟩ := hd
    obtain ⟨pre, post, hlog⟩ := List.append_of_mem he
    obtain ⟨hpre, hpost⟩ := not_done_of_split hg hlog hr
    have hzero : ∀ {B : List (Entry T)}, ¬ Done c B → B.countP (fun e => e.runs = some c) = 0 := by
      intro B hB
      rw [List.countP_eq_zero]
      exact fun e he hr => hB ⟨e, he, by simpa using hr⟩
    rw [hlog, List.countP_append, List.countP_cons, hzero hpre, hzero hpost]
    simp [hr]
  · rw [List.countP_eq_zero.mpr fun e he hr => hd ⟨e, he, by simpa using hr⟩]
    exact Nat.zero_le 1

/-- A call that has been carried out in a part of the log is not carried out later. -/
theorem mem_of_done (hg : Each Good log) (hlog : log = pre ++ post) (hd : Done c pre) (he : e ∈ log)
    (hr : e.runs = some c) : e ∈ pre := by
  rw [hlog] at he
  refine (List.mem_append.mp he).resolve_right fun hm => ?_
  obtain ⟨p, q, rfl⟩ := List.append_of_mem hm
  have ht := Good.inTurn (hg (pre ++ p) e q (by simp [hlog])) hr
  exact ht.once (done_append.mpr (.inl hd))

/-- A call begins once. -/
theorem before_began (hg : Each Good log) (hlog : log = pre ++ post) (hc : .began c ∈ pre)
    (h : Before log x (.began c)) : Before pre x (.began c) := by
  have hnot : .began c ∉ post := by
    intro hm
    obtain ⟨p, q, rfl⟩ := List.append_of_mem hm
    exact hg (pre ++ p) (.began c) q (by simp [hlog]) (List.mem_append_left p hc)
  rw [hlog] at h
  exact h.of_append hnot

theorem before_runs_iff (hg : Each Good log) (hlog : log = pre ++ e :: post) (hr : e.runs = some c) :
    Before log x e ↔ x ∈ pre := by
  obtain ⟨hpre, hpost⟩ := not_done_of_split hg hlog hr
  refine ⟨fun h => ?_, fun hx => before_iff.mpr ⟨pre, post, hlog, hx⟩⟩
  rw [hlog, List.append_cons] at h
  have h' := h.of_append fun hm => hpost ⟨e, hm, hr⟩
  rcases before_append.mp h' with h' | h' | ⟨hx, -⟩
  · exact absurd ⟨e, h'.mem_right, hr⟩ hpre
  · exact absurd h'.length_le (by simp)
  · exact hx

/-- A call of the loop thread has been carried out when it returns. -/
theorem done_of_own (hg : Each Good log) (hlog : log = pre ++ post) (ht : c.id.thread = none)
    (h : .returned c true ∈ pre) : Done c pre := by
  obtain ⟨p, q, rfl⟩ := List.append_of_mem h
  have hret := hg p (.returned c true) (q ++ post) (by simp [hlog])
  exact done_append.mpr (.inl (hret.2 rfl ht))

end Order

/-- One `send` that returned before another began. -/
theorem before_sendInLoop_iff {i j : CallId T} {bi bj : Option (List UInt8)} (hg : Each Good log)
    (h : Before log (.returned (.send i) true) (.began (.send j))) (hi : .sendInLoop i bi ∈ log)
    (hj : .sendInLoop j bj ∈ log) :
    Before log (.sendInLoop i bi) (.sendInLoop j bj) ↔
      (j.thread = none → i.thread = none ∨ Before log (.sendInLoop i bi) (.began (.send j))) := by
  obtain ⟨pre, post, hlog⟩ := List.append_of_mem hj
  have hturn : InTurn pre (.send j) := hg pre _ post hlog
  have hbef := before_began hg hlog hturn.began h
  rw [before_runs_iff hg hlog rfl]
  constructor
  · intro hmem hown
    obtain ⟨pre', rfl⟩ := hturn.own hown
    have hmem' : .sendInLoop i bi ∈ pre' := by simpa using hmem
    exact .inr (before_iff.mpr ⟨pre', .sendInLoop j bj :: post, by simp [hlog], hmem'⟩)
  · intro hcond
    refine mem_of_done hg hlog ?_ hi rfl
    by_cases hown : j.thread = none
    · rcases hcond hown with hi' | hb
      · exact done_of_own hg hlog hi' hbef.mem_left
      · exact ⟨_, (before_began hg hlog hturn.began hb).mem_left, rfl⟩
    · exact hturn.foreign hown _ hbef

/-- `shutdownWrite`, after a `send` that returned before `shutdown` began. -/
theorem flushed_of_shutdownWrite {pre post : List (Entry T)} {b : List UInt8} {i k : CallId T}
    (hg : Each Good log) (hlog : log = pre ++ .io (.shutdownWrite b) :: post)
    (hc : ¬ Io.CloseSeen (events pre)) (hcl : Clean (events pre))
    (h : Before pre (.returned (.send i) true) (.began (.shutdown k))) :
    (∃ bytes, .sendInLoop i (some bytes) ∈ pre ∧ accepted (events pre) = sent pre) ∨
      (i.thread ≠ none ∧ (∀ bi, .sendInLoop i bi ∉ pre) ∧
        (k.thread = none ∨ .shutdownInLoop k ∉ pre)) := by
  obtain ⟨-, hsent, hnone⟩ := hg pre _ post hlog hc hcl
  by_cases hd : Done (.send i) pre
  · obtain ⟨e, he, hr⟩ := hd
    cases e with
    | sendInLoop i' bytes =>
      obtain ⟨rfl⟩ := Option.some.inj hr
      cases bytes with
      | none => exact absurd he (hnone i)
      | some bytes => exact .inl ⟨bytes, he, hsent⟩
    | _ => cases hr
  · refine .inr ⟨fun ht => hd (done_of_own hg hlog ht h.mem_left), fun bi hm => hd ⟨_, hm, rfl⟩, ?_⟩
    rw [or_iff_not_imp_left]
    intro hk hm
    -- the functor of `shutdown` is queued behind that of `send`
    obtain ⟨p, q, rfl⟩ := List.append_of_mem hm
    have hlog' : log = p ++ .shutdownInLoop k :: (q ++ .io (.shutdownWrite b) :: post) := by
      simp [hlog]
    have hturn : InTurn p (.shutdown k) := hg p _ _ hlog'
    have hbef : Before log (.returned (.send i) true) (.began (.shutdown k)) := by
      rw [hlog]
      exact before_append.mpr (.inl h)
    exact hd (done_append.mpr (.inl (hturn.foreign hk _ (before_began hg hlog' hturn.began hbef))))

variable [DecidableEq T] {s : CallRun T}

/-- **Call order and wire order**, over every run.  The wire is what the calls put on it, each once.
Of two `send`s, one returned before the other began, the first precedes the second, except that a call
of the loop thread goes ahead of one of another thread whose `sendInLoop` has not run yet.  And as long
as the connection is not closed and no write has failed, `shutdownWrite` finds at the kernel what was
sent before `shutdown` was called, except for a `sendInLoop` still queued; then `shutdown` was called
on the loop thread, or its own functor has not run. -/
theorem call_order (h : sys.Reach (fun _ _ => True) s) :
    s.conn.io.wire = sent s.log ∧
    (∀ c, s.log.countP (fun e => e.runs = some c) ≤ 1) ∧
    (∀ i j bi bj, Before s.log (.returned (.send i) true) (.began (.send j)) →
      .sendInLoop i bi ∈ s.log → .sendInLoop j bj ∈ s.log →
      (Before s.log (.sendInLoop i bi) (.sendInLoop j bj) ↔
        (j.thread = none → i.thread = none ∨ Before s.log (.sendInLoop i bi) (.began (.send j))))) ∧
    (∀ pre b post i k, s.log = pre ++ .io (.shutdownWrite b) :: post →
      ¬ Io.CloseSeen (events pre) → Clean (events pre) →
      Before pre (.returned (.send i) true) (.began (.shutdown k)) →
      (∃ bytes, .sendInLoop i (some bytes) ∈ pre ∧ accepted (events pre) = sent pre) ∨
        (i.thread ≠ none ∧ (∀ bi, .sendInLoop i bi ∉ pre) ∧
          (k.thread = none ∨ .shutdownInLoop k ∉ pre))) := by
  have hl := (inv_of_reach h).logged
  refine ⟨hl.wire, count_runs_le_one hl.good, fun i j bi bj => before_sendInLoop_iff hl.good, ?_⟩
  exact fun pre b post i k => flushed_of_shutdownWrite hl.good

/-! ### Three runs -/

/-- A connection under construction, one other thread. -/
def fresh : CallRun Unit := ⟨.fresh, .new, fun _ => .outside, []⟩

theorem fresh_fresh : Fresh fresh := ⟨Conn.fresh_fresh, rfl, fun _ => rfl, rfl⟩

/-- The loop wakes up and takes the functors pushed. -/
def wake : List (Label Unit) :=
  [.loop (.pollReturn true), .loop .handleRead, .loop .beginFunctors, .loop .swap]

/-- The connection is established by a functor. -/
def establish : List (Label Unit) :=
  [.loop (.foreignPush () none), .loop (.foreignWakeup ()), .loop .enter, .loop .clearQuit,
    .loop .testQuit] ++ wake ++
  [.runFunctor greeting ⟨.ok 0, 0⟩, .handler (.connectEstablished []), .loop .functorReturn,
    .loop .endFunctors, .loop .testQuit]

/-- The other thread sends the byte at address `16`, and its call returns. -/
def queue : List (Label Unit) :=
  [.foreignSend () ⟨some (), 0⟩ ⟨16, 1⟩, .queueInLoop (), .wakeup ()]

/-- The queued `sendInLoop` runs before the loop thread calls `send` and the other thread
`shutdown`: both bytes are at the kernel, in this order, when `shutdownWrite` is called. -/
theorem call_order_served :
    ∃ s : CallRun Unit,
      Before s.log (.sendInLoop ⟨some (), 0⟩ (some [104])) (.sendInLoop ⟨none, 1⟩ (some [105])) ∧
      accepted (events (s.log.take 15)) = sent (s.log.take 15) := by
  obtain ⟨s, hr, h1, h2, h3, h4, hlog, h5, h6, h7, h8⟩ := Sys.Reach.exists_of_execIf (M := sys)
    (s := fresh) (C := fun (_ : CallRun Unit) (_ : Label Unit) => True)
    (P := fun s =>
      Before s.log (.returned (.send ⟨some (), 0⟩) true) (.began (.send ⟨none, 1⟩)) ∧
      .sendInLoop ⟨some (), 0⟩ (some [104]) ∈ s.log ∧ .sendInLoop ⟨none, 1⟩ (some [105]) ∈ s.log ∧
      Before s.log (.sendInLoop ⟨some (), 0⟩ (some [104])) (.began (.send ⟨none, 1⟩)) ∧
      s.log = s.log.take 15 ++ .io (.shutdownWrite []) :: s.log.drop 16 ∧
      .connectionCallback false ∉ events (s.log.take 15) ∧
      (NoFault (events (s.log.take 15)) ∧ ¬ Clobbered (events (s.log.take 15))) ∧
      Before (s.log.take 15) (.returned (.send ⟨some (), 0⟩) true) (.began (.shutdown ⟨some (), 2⟩)) ∧
      .shutdownInLoop ⟨some (), 2⟩ ∈ s.log.take 15)
    (.init fresh_fresh)
    (establish ++ queue ++ wake ++
      [.runFunctor greeting ⟨.ok 1, 0⟩, .loop .functorReturn, .loop .endFunctors, .loop .testQuit,
        .loop (.pollReturn false), .handler (.handleRead (.ok [0]) []),
        .send ⟨none, 1⟩ ⟨17, 1⟩ greeting ⟨.ok 1, 0⟩, .foreignShutdown () ⟨some (), 2⟩,
        .storeDisconnecting (), .queueInLoop (), .wakeup (), .loop .beginFunctors, .loop .swap,
        .runFunctor greeting ⟨.ok 1, 0⟩])
    (by decide +kernel)
  obtain ⟨-, -, horder, hflushed⟩ := call_order hr
  refine ⟨s, (horder _ _ _ _ h1 h2 h3).mpr fun _ => .inr h4, ?_⟩
  rcases hflushed _ _ _ _ _ hlog h5 h6 h7 with ⟨-, -, h⟩ | ⟨-, -, h | h⟩
  · exact h
  · cases h
  · exact absurd h8 h

/-- While the `sendInLoop` of the other thread is queued, the loop thread calls `send` in the message
callback, and its byte goes out first; or it calls `shutdown`, and the writing is ended before the
queued byte; or the other thread goes on to `shutdown`, and `handleWrite` ends the writing when it has
sent the last older byte. -/
theorem call_order_overtaken :
    (¬ ∀ s : CallRun Unit, sys.Reach (fun _ _ => True) s → ∀ i j bi bj,
      Before s.log (.returned (.send i) true) (.began (.send j)) →
      .sendInLoop i bi ∈ s.log → .sendInLoop j bj ∈ s.log →
      Before s.log (.sendInLoop i bi) (.sendInLoop j bj)) ∧
    (¬ ∀ s : CallRun Unit, sys.Reach (fun _ _ => True) s → ∀ pre b post i k,
      s.log = pre ++ .io (.shutdownWrite b) :: post →
      ¬ Io.CloseSeen (events pre) → Clean (events pre) →
      Before pre (.returned (.send i) true) (.began (.shutdown k)) → k.thread = none →
      ∃ bytes, .sendInLoop i (some bytes) ∈ pre ∧ accepted (events pre) = sent pre) ∧
    (¬ ∀ s : CallRun Unit, sys.Reach (fun _ _ => True) s → ∀ pre b post i k,
      s.log = pre ++ .io (.shutdownWrite b) :: post →
      ¬ Io.CloseSeen (events pre) → Clean (events pre) →
      Before pre (.returned (.send i) true) (.began (.shutdown k)) → k.thread ≠ none →
      ∃ bytes, .sendInLoop i (some bytes) ∈ pre ∧ accepted (events pre) = sent pre) := by
  refine ⟨?_, ?_, ?_⟩
  · intro h
    obtain ⟨s, hr, h1, h2, h3, h4⟩ := Sys.Reach.exists_of_execIf (M := sys)
      (s := fresh) (C := fun (_ : CallRun Unit) (_ : Label Unit) => True)
      (P := fun s =>
        Before s.log (.returned (.send ⟨some (), 0⟩) true) (.began (.send ⟨none, 1⟩)) ∧
        .sendInLoop ⟨some (), 0⟩ (some [104]) ∈ s.log ∧ .sendInLoop ⟨none, 1⟩ (some [105]) ∈ s.log ∧
        ¬ Before s.log (.sendInLoop ⟨some (), 0⟩ (some [104])) (.sendInLoop ⟨none, 1⟩ (some [105])))
      (.init fresh_fresh)
      (establish ++ queue ++ [.loop (.pollReturn true), .handler (.handleRead (.ok [0]) []),
        .send ⟨none, 1⟩ ⟨17, 1⟩ greeting ⟨.ok 1, 0⟩, .loop .handleRead, .loop .beginFunctors,
        .loop .swap, .runFunctor greeting ⟨.ok 1, 0⟩])
      (by decide +kernel)
    exact h4 (h s hr _ _ _ _ h1 h2 h3)
  · intro h
    obtain ⟨s, hr, hlog, h1, h2, h3, h4⟩ := Sys.Reach.exists_of_execIf (M := sys)
      (s := fresh) (C := fun (_ : CallRun Unit) (_ : Label Unit) => True)
      (P := fun s =>
        s.log = s.log.take 6 ++ .io (.shutdownWrite []) :: s.log.drop 7 ∧
        .connectionCallback false ∉ events (s.log.take 6) ∧
        (NoFault (events (s.log.take 6)) ∧ ¬ Clobbered (events (s.log.take 6))) ∧
        Before (s.log.take 6) (.returned (.send ⟨some (), 0⟩) true) (.began (.shutdown ⟨none, 1⟩)) ∧
        ∀ e ∈ s.log.take 6, e.runs ≠ some (.send ⟨some (), 0⟩))
      (.init fresh_fresh)
      (establish ++ queue ++ [.loop (.pollReturn true), .handler (.handleRead (.ok [0]) []),
        .shutdown ⟨none, 1⟩])
      (by decide +kernel)
    obtain ⟨bytes, hb, -⟩ := h s hr _ _ _ _ _ hlog h1 h2 h3 rfl
    exact h4 _ hb rfl
  · intro h
    obtain ⟨s, hr, hlog, h1, h2, h3, h4⟩ := Sys.Reach.exists_of_execIf (M := sys)
      (s := fresh) (C := fun (_ : CallRun Unit) (_ : Label Unit) => True)
      (P := fun s =>
        s.log = s.log.take 11 ++ .io (.shutdownWrite []) :: s.log.drop 12 ∧
        .connectionCallback false ∉ events (s.log.take 11) ∧
        (NoFault (events (s.log.take 11)) ∧ ¬ Clobbered (events (s.log.take 11))) ∧
        Before (s.log.take 11) (.returned (.send ⟨some (), 0⟩) true)
          (.began (.shutdown ⟨some (), 2⟩)) ∧
        ∀ e ∈ s.log.take 11, e.runs ≠ some (.send ⟨some (), 0⟩))
      (.init fresh_fresh)
      (establish ++ [.loop (.pollReturn false), .handler (.handleRead (.ok [0]) []),
        .send ⟨none, 1⟩ ⟨16, 2⟩ greeting ⟨.ok 1, 0⟩, .loop .beginFunctors, .loop .swap,
        .loop .endFunctors, .loop .testQuit, .loop (.pollReturn false)] ++ queue ++
        [.foreignShutdown () ⟨some (), 2⟩, .storeDisconnecting (), .handler (.handleWrite (.ok 1))])
      (by decide +kernel)
    obtain ⟨bytes, hb, -⟩ := h s hr _ _ _ _ _ hlog h1 h2 h3 (by simp)
    exact h4 _ hb rfl

end CallRun

end Mymuduo
