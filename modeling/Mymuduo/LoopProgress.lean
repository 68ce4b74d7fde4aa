import Mymuduo.Lib.Progress
import Mymuduo.QuitFunctors
import Mymuduo.Wakeup

/-!
# Mymuduo.LoopProgress — what a loop does in the end (`EventLoop.cc`)

Infinite runs of a loop in which no timeout of `epoll_wait` is relied on: the thread of the loop comes on
unless it waits in `epoll_wait` and the eventfd is not readable, and a foreign thread that has pushed a
functor, or stored `quit`, writes to the eventfd in the end (`Fair`).  Then

* every functor that is queued is run, unless `quit` is called (`queued_run`);
* after `quit` the loop ends (`quit_exits`).
-/

namespace Mymuduo

open Lib

namespace EventLoop

variable {F T : Type*}

/-- The steps with which the thread of the loop comes on in `loop()`: all but its own calls. -/
def Label.advances : Label F T → Prop
  | .clearQuit | .testQuit | .pollReturn _ | .handleRead | .beginFunctors | .swap | .runFunctor
  | .functorReturn | .endFunctors => True
  | _ => False

/-- The thread is in `loop()` and does not wait. -/
def Awake (l : EventLoop F T) : Prop :=
  (l.pc = .entered ∨ l.pc.inLoop = true) ∧ (l.pc = .poll → l.eventfd ≠ 0)

variable [DecidableEq T]

/-! ### Steps that are not the loop's -/

/-- What another thread does leaves the thread of the loop where it is, and does not take a wakeup back. -/
theorem stays_of_step {l l' : EventLoop F T} {lbl : Label F T} (hin : l.pc.inLoop = true)
    (hn : ¬ lbl.advances) (hs : l.step lbl = some l') :
    l'.pc = l.pc ∧ l'.queue.rest = l.queue.rest ∧ l'.ran = l.ran ∧ l.eventfd ≤ l'.eventfd := by
  cases move_of_step hs with
  | foreignPush | foreignQuit | ownQuit => exact ⟨rfl, rfl, rfl, le_rfl⟩
  | foreignWakeup => exact ⟨rfl, rfl, rfl, Nat.le_succ _⟩
  | ownQueueInLoop =>
    refine ⟨queueInLoop_pc .., queueInLoop_rest .., queueInLoop_ran .., ?_⟩
    unfold queueInLoop
    simp only
    split
    · exact Nat.le_succ _
    · exact le_rfl
  | enter hpc =>
    rcases hpc with hpc | hpc <;> simp [hpc, LoopPc.inLoop] at hin
  | _ => exact absurd trivial hn

theorem eventfd_of_foreignWakeup {l l' : EventLoop F T} {t : T} (hs : l.step (.foreignWakeup t) = some l') :
    l'.eventfd ≠ 0 := by
  obtain ⟨-, rfl⟩ := of_guard hs
  exact Nat.succ_ne_zero _

section Runs

variable {C : EventLoop F T → Label F T → Prop} {r : (sys (F := F) (T := T)).Run C}
  {P Q : EventLoop F T → Prop}

/-- The thread of the loop comes on unless it waits, and no foreign thread puts its wakeup off forever. -/
structure Fair (r : (sys (F := F) (T := T)).Run C) : Prop where
  comesOn : ∀ n, ∃ m, n ≤ m ∧ (¬ (r.state m).Awake ∨ (r.label m).advances)
  wakes : ∀ n t, (r.state n).caller t = .beforeWakeup → ∃ m, n ≤ m ∧ r.label m = .foreignWakeup t

/-- **A loop that is to be woken up does not wait forever.** -/
theorem Fair.not_waiting (hf : Fair r)
    (hP : ∀ l, P l → l.pc.inLoop = true ∧ (l.pc = .poll → l.Announced)) (n : ℕ) :
    ¬ ∀ m, n ≤ m → P (r.state m) ∧ ¬ (r.label m).advances := by
  intro h
  have hin : ∀ m, n ≤ m → (r.state m).pc.inLoop = true := fun m hm => (hP _ (h m hm).1).1
  have hstays : ∀ {j k}, n ≤ j → j ≤ k → (r.state j).eventfd ≤ (r.state k).eventfd := by
    intro j k hj hk
    induction k, hk using Nat.le_induction with
    | base => exact le_rfl
    | succ k hk ih =>
      exact ih.trans (stays_of_step (hin k (hj.trans hk)) (h k (hj.trans hk)).2 (r.next k)).2.2.2
  have hwaits : ∀ j, n ≤ j → ∃ m, j ≤ m ∧ (r.state m).pc = .poll ∧ (r.state m).eventfd = 0 := by
    intro j hj
    obtain ⟨m, hm, hna | ha⟩ := hf.comesOn j
    · refine ⟨m, hm, ?_⟩
      by_contra hno
      exact hna ⟨.inr (hin m (hj.trans hm)), fun hp hz => hno ⟨hp, hz⟩⟩
    · exact absurd ha (h m (hj.trans hm)).2
  -- it waits, so that a foreign thread is about to wake it up
  obtain ⟨m, hm, hpoll, hz⟩ := hwaits n le_rfl
  obtain ⟨t, ht⟩ := ((hP _ (h m hm).1).2 hpoll).resolve_left (not_not.mpr hz)
  obtain ⟨k, hk, hlab⟩ := hf.wakes m t ht
  have hset : (r.state (k + 1)).eventfd ≠ 0 := eventfd_of_foreignWakeup (hlab ▸ r.next k)
  have hk' : n ≤ k + 1 := hm.trans (Nat.le_succ_of_le hk)
  obtain ⟨j, hj, -, hz'⟩ := hwaits (k + 1) hk'
  exact hset (Nat.le_zero.mp (hz' ▸ hstays hk' hj))

end Runs

/-! ### Functors -/

/-- A functor is being called. -/
def busy : LoopPc → ℕ
  | .running => 1
  | _ => 0

/-- How far the loop is from its next swap; `left` functors of its batch have not been run. -/
def untilSwap (pc : LoopPc) (left : ℕ) : ℕ ×ₗ ℕ :=
  match pc with
  | .swap => toLex (1, 0)
  | .dispatch wakeup => toLex (if wakeup then 3 else 2, 0)
  | .poll => toLex (4, 0)
  | .test => toLex (5, 0)
  | .run | .running => toLex (6, 2 * left + busy pc)
  | .idle | .entered | .exited => toLex (7, 0)

/-- How far the loop is from running the functor that was pushed as number `i`: its place in the batch, or
what has to be done before it is taken. -/
def distance (i : ℕ) (l : EventLoop F T) : ℕ ×ₗ ℕ :=
  if i < l.taken.length then toLex (0, 2 * (i - l.ran.length) + busy l.pc)
  else untilSwap l.pc l.queue.rest.length

/-- The functor that was pushed as number `i` has not been run, and the loop goes on. -/
structure Due (i : ℕ) (l : EventLoop F T) : Prop where
  pc : l.pc.inLoop = true
  quit : l.quit = false
  pushed : i < l.pushed.length
  ran : l.ran.length ≤ i

omit [DecidableEq T] in
theorem length_pushed {l : EventLoop F T} (ht : l.queue.Tracks l.ran l.pushed) :
    l.pushed.length = l.taken.length + l.queue.pending.length := by
  rw [← (show l.ran ++ l.queue.rest ++ l.queue.pending = l.pushed from ht), taken, List.length_append]

omit [DecidableEq T] in
/-- Outside the functor loop it is pending. -/
theorem Due.not_taken {i : ℕ} {l : EventLoop F T} (h : l.Due i) (hr : l.queue.rest = []) :
    ¬ i < l.taken.length := by
  rw [taken, hr, List.append_nil]
  exact not_lt.mpr h.ran

omit [DecidableEq T] in
theorem Due.pending {i : ℕ} {l : EventLoop F T} (h : l.Due i) (ht : l.queue.Tracks l.ran l.pushed)
    (hr : l.queue.rest = []) : l.queue.pending ≠ [] := by
  intro he
  have hl := length_pushed ht
  rw [he, List.length_nil, Nat.add_zero] at hl
  exact h.not_taken hr (hl ▸ h.pushed)

omit [DecidableEq T] in
theorem RestInv.rest_eq_nil {l : EventLoop F T} (hr : l.RestInv) (h1 : l.pc ≠ .run) (h2 : l.pc ≠ .running) :
    l.queue.rest = [] :=
  (hr.resolve_left h1).resolve_left h2

theorem Due.step {i : ℕ} {l l' : EventLoop F T} {lbl : Label F T} (h : l.Due i)
    (hi : l.queue.Tracks l.ran l.pushed ∧ l.RestInv) (hs : l.step lbl = some l') :
    (i < l'.ran.length ∨ l'.quit = true) ∨ l'.Due i ∧ distance i l' ≤ distance i l ∧
      (lbl.advances → distance i l' < distance i l) := by
  have hpushed := h.pushed.trans_le (pushed_step hs).length_le
  have hpc := h.pc
  have hq := h.quit
  by_cases hadv : lbl.advances
  · suffices hd : i < l'.ran.length ∨
        l'.pc.inLoop = true ∧ l'.quit = false ∧ distance i l' < distance i l by
      by_cases hran : i < l'.ran.length
      · exact .inl (.inl hran)
      · obtain ⟨h1, h2, h3⟩ := hd.resolve_left hran
        exact .inr ⟨⟨h1, h2, hpushed, not_lt.mp hran⟩, h3.le, fun _ => h3⟩
    have hout : ∀ {l₁ : EventLoop F T} {pc : LoopPc}, l.pc = pc → pc ≠ .run → pc ≠ .running →
        l₁.ran = l.ran → l₁.queue.rest = l.queue.rest →
        untilSwap l₁.pc l.queue.rest.length < untilSwap pc l.queue.rest.length →
        distance i l₁ < distance i l := by
      intro l₁ pc hp h1 h2 hran hrest hlt
      have hnt := h.not_taken (hi.2.rest_eq_nil (hp ▸ h1) (hp ▸ h2))
      have hnt₁ : ¬ i < l₁.taken.length := by
        rw [taken, hran, hrest]
        exact hnt
      rw [distance, if_neg hnt₁, distance, if_neg hnt, hp, hrest]
      exact hlt
    cases move_of_step hs with
    | clearQuit hp => simp [hp, LoopPc.inLoop] at hpc
    | testQuit hp =>
      rw [hq]
      exact .inr ⟨rfl, rfl, hout hp (by simp) (by simp) rfl rfl (lex_of_fst (by decide))⟩
    | @pollReturn wakeup hp =>
      refine .inr ⟨rfl, hq, hout hp (by simp) (by simp) rfl rfl (lex_of_fst ?_)⟩
      cases wakeup <;> decide
    | handleRead hp => exact .inr ⟨rfl, hq, hout hp (by simp) (by simp) rfl rfl (lex_of_fst (by decide))⟩
    | beginFunctors hp => exact .inr ⟨rfl, hq, hout hp (by simp) (by simp) rfl rfl (lex_of_fst (by decide))⟩
    | swap hp =>
      -- the swap takes it
      have hrest := hi.2.rest_eq_nil (by simp [hp]) (by simp [hp])
      have hnt := h.not_taken hrest
      have ht : i < ({ l with queue := l.queue.swap, pc := .run } : EventLoop F T).taken.length := by
        have := length_pushed hi.1
        have := h.pushed
        simp only [taken, hrest, TaskQueue.swap_rest, List.length_append, List.length_nil] at *
        omega
      refine .inr ⟨rfl, hq, ?_⟩
      rw [distance, if_pos ht, distance, if_neg hnt, hp]
      exact lex_of_fst Nat.one_pos
    | @runFunctor f rest hp hr =>
      by_cases hlast : i = l.ran.length
      · exact .inl (by simp [hlast])
      refine .inr ⟨rfl, hq, ?_⟩
      have hle := h.ran
      have hd : distance i { l with queue := l.queue.advance, ran := l.ran ++ [f], pc := .running } =
          if i < l.taken.length then toLex (0, 2 * (i - (l.ran.length + 1)) + 1)
          else toLex (6, 2 * rest.length + 1) := by
        simp [distance, taken, hr, untilSwap, busy]
      rw [hd, distance, hp, hr]
      split
      · refine lex_of_snd ?_
        simp only [busy]
        omega
      · refine lex_of_snd ?_
        simp only [busy, List.length_cons]
        omega
    | functorReturn hp =>
      refine .inr ⟨rfl, hq, ?_⟩
      rw [distance, distance, hp]
      show (if i < l.taken.length then _ else _) < _
      split
      · exact lex_of_snd (Nat.lt_succ_self _)
      · exact lex_of_snd (Nat.lt_succ_self _)
    | endFunctors hp hr =>
      refine .inr ⟨rfl, hq, ?_⟩
      have hnt := h.not_taken hr
      have hnt' : ¬ i < ({ l with queue := l.queue.finish, callingPendingFunctors := false, pc := .test } :
          EventLoop F T).taken.length := by
        simpa [taken, hr] using hnt
      rw [distance, if_neg hnt', distance, if_neg hnt, hp]
      exact lex_of_fst (by decide)
    | _ => exact absurd hadv id
  · obtain ⟨hp, hr, hran, -⟩ := stays_of_step hpc hadv hs
    have hd : distance i l' = distance i l := by rw [distance, distance, taken, taken, hp, hr, hran]
    by_cases hq' : l'.quit = true
    · exact .inl (.inr hq')
    · exact .inr ⟨⟨hp ▸ hpc, Bool.eq_false_iff.mpr hq', hpushed, hran ▸ h.ran⟩, hd.le,
        fun ha => absurd ha hadv⟩

/-! ### Runs that are fair -/

/-- What the thread of the loop does next, when functors and callbacks call nothing. -/
def nextOfLoop (l : EventLoop F T) : Label F T :=
  match l.pc with
  | .idle | .exited => .enter
  | .entered => .clearQuit
  | .test => .testQuit
  | .poll => .pollReturn (l.eventfd ≠ 0)
  | .dispatch true => .handleRead
  | .dispatch false => .beginFunctors
  | .swap => .swap
  | .run => if l.queue.rest = [] then .endFunctors else .runFunctor
  | .running => .functorReturn

theorem isSome_nextOfLoop (l : EventLoop F T) : (l.step l.nextOfLoop).isSome = true := by
  unfold nextOfLoop
  cases hp : l.pc with
  | run =>
    cases hr : l.queue.rest with
    | nil => simp [step, hp, hr]
    | cons f rest => simp [step, hp, hr]
  | dispatch wakeup => cases wakeup <;> simp [step, hp]
  | _ => simp [step, hp]

omit [DecidableEq T] in
theorem advances_nextOfLoop {l : EventLoop F T} (h : l.Awake) : l.nextOfLoop.advances := by
  unfold nextOfLoop
  cases hp : l.pc with
  | idle | exited => simp [Awake, hp, LoopPc.inLoop] at h
  | run =>
    simp only
    split <;> trivial
  | dispatch wakeup => cases wakeup <;> trivial
  | _ => trivial

/-- One foreign thread, which goes on as soon as it can. -/
def inTurn (l : EventLoop F Unit) : Label F Unit :=
  if l.caller () = .beforeWakeup then .foreignWakeup () else l.nextOfLoop

/-- **A fair run goes on from every reached state.** -/
theorem exists_fair_run {l : EventLoop F Unit} (h : sys.Reach CallbackCalls l) :
    ∃ r : (sys (F := F) (T := Unit)).Run CallbackCalls, r.state 0 = l ∧ Fair r := by
  obtain ⟨r, h0, hlab⟩ := h.exists_run (fun _ l => l.inTurn) fun n l _ => by
    unfold inTurn
    split
    next hc => exact ⟨trivial, by simp [sys, step, hc]⟩
    next => exact ⟨by unfold nextOfLoop; grind [CallbackCalls], isSome_nextOfLoop l⟩
  have hcomes : ∀ n, (r.state n).caller () = .outside → ¬ (r.state n).Awake ∨ (r.label n).advances := by
    intro n hc
    by_cases ha : (r.state n).Awake
    · rw [hlab, inTurn, if_neg (by simp [hc])]
      exact .inr (advances_nextOfLoop ha)
    · exact .inl ha
  refine ⟨r, h0, fun n => ?_, fun n t ht => ⟨n, le_rfl, ?_⟩⟩
  · cases hc : (r.state n).caller () with
    | outside => exact ⟨n, le_rfl, hcomes n hc⟩
    | beforeWakeup =>
      refine ⟨n + 1, Nat.le_succ n, hcomes (n + 1) ?_⟩
      have hst := r.next n
      rw [hlab, inTurn, if_pos hc] at hst
      obtain ⟨-, he⟩ := of_guard hst
      rw [← he]
      exact Function.update_self () Caller.outside (r.state n).caller
  · rw [hlab, inTurn, if_pos ht]

/-- A functor that is due is run in the end, unless `quit` is called. -/
theorem leadsTo_of_due (r : (sys (F := F) (T := T)).Run CallbackCalls) (hf : Fair r) (i : ℕ) :
    r.LeadsTo (Due i) fun l => i < l.ran.length ∨ l.quit = true := by
  have hP : ∀ l : EventLoop F T, sys.Reach CallbackCalls l ∧ l.Due i →
      l.pc.inLoop = true ∧ (l.pc = .poll → l.Announced) := by
    rintro l ⟨hl, hd⟩
    refine ⟨hd.pc, fun hp => (WakeupInv.of_reach hl).work (by rw [hp]; rfl) ?_⟩
    obtain ⟨ht, hr⟩ := tracks_of_reach hl
    exact hd.pending ht (hr.rest_eq_nil (by simp [hp]) (by simp [hp]))
  have hdue : r.LeadsTo (fun l => sys.Reach CallbackCalls l ∧ l.Due i)
      fun l => i < l.ran.length ∨ l.quit = true := by
    refine Sys.Run.leadsTo_of_unless (distance i) (hf.not_waiting hP) fun n hn => ?_
    exact (hn.2.step (tracks_of_reach hn.1) (r.next n)).imp_right fun h => ⟨⟨r.reach (n + 1), h.1⟩, h.2⟩
  exact fun n hn => hdue n ⟨r.reach n, hn⟩

omit [DecidableEq T] in
/-- What has been run has been pushed, in this order. -/
theorem getElem?_ran_of_pushed {l : EventLoop F T} (ht : l.queue.Tracks l.ran l.pushed) {i : ℕ} {f : F}
    (hp : l.pushed[i]? = some f) (hi : i < l.ran.length) : l.ran[i]? = some f := by
  have hpre : l.ran <+: l.pushed := by
    rw [← (show l.ran ++ l.queue.rest ++ l.queue.pending = l.pushed from ht), List.append_assoc]
    exact List.prefix_append ..
  have hget := getElem?_of_prefix hpre (List.getElem?_eq_getElem hi)
  rw [hp] at hget
  rw [hget]
  exact List.getElem?_eq_getElem hi

/-- **Every functor is run**: what is queued in a loop that goes on is run in the end, in its turn, whatever
else happens and although `epoll_wait` may return for a wakeup only; or `quit` is called. -/
theorem queued_run (r : (sys (F := F) (T := T)).Run CallbackCalls) (hf : Fair r) (i : ℕ) (f : F) :
    r.LeadsTo (fun l => l.pc.inLoop = true ∧ l.pushed[i]? = some f)
      fun l => l.ran[i]? = some f ∨ l.quit = true := by
  intro n hn
  obtain ⟨hin, hp⟩ := hn
  by_cases hq : (r.state n).quit = true
  · exact ⟨n, le_rfl, .inr hq⟩
  by_cases hi : i < (r.state n).ran.length
  · exact ⟨n, le_rfl, .inl (getElem?_ran_of_pushed (tracks_of_reach (r.reach n)).1 hp hi)⟩
  obtain ⟨m, hm, hor⟩ := leadsTo_of_due r hf i n
    ⟨hin, Bool.eq_false_iff.mpr hq, (List.getElem?_eq_some_iff.mp hp).1, not_lt.mp hi⟩
  -- the functor keeps its place among those that have been pushed
  have hpre : (r.state n).pushed <+: (r.state m).pushed :=
    Sys.Run.stable (r := r) (P := fun l => (r.state n).pushed <+: l.pushed)
      (fun k hk => hk.trans (pushed_step (r.next k))) List.prefix_rfl hm
  have hget := getElem?_of_prefix hpre hp
  exact ⟨m, hm, hor.imp_left (getElem?_ran_of_pushed (tracks_of_reach (r.reach m)).1 hget)⟩

/-- Thread `()` has pushed functor `7` while the loop waits. -/
theorem queued_run_one : ∃ r : (sys (F := ℕ) (T := Unit)).Run CallbackCalls,
    (r.state 0).pc = .poll ∧ (r.state 0).eventfd = 0 ∧
      r.LeadsTo (fun l => l.pc.inLoop = true ∧ l.pushed[0]? = some 7)
        fun l => l.ran[0]? = some 7 ∨ l.quit = true := by
  have hr : sys.Reach CallbackCalls { (new : EventLoop ℕ Unit).push 7 with
      pc := .poll, looping := true, caller := Function.update (fun _ => .outside) () .beforeWakeup } :=
    (Sys.Reach.init rfl).exec ([.enter, .clearQuit, .testQuit, .foreignPush () 7])
      (by simp [CallbackCalls]) rfl
  obtain ⟨r, h0, hf⟩ := exists_fair_run hr
  exact ⟨r, by rw [h0], by rw [h0]; rfl, queued_run r hf 0 7⟩

/-! ### The end of the loop -/

/-- How far the loop is from its next test of `quit`. -/
def untilTest (pc : LoopPc) (left : ℕ) : ℕ ×ₗ ℕ :=
  match pc with
  | .test => toLex (0, 0)
  | .run | .running => toLex (1, 2 * left + busy pc)
  | .swap => toLex (2, 0)
  | .dispatch wakeup => toLex (if wakeup then 4 else 3, 0)
  | .poll => toLex (5, 0)
  | .idle | .entered | .exited => toLex (6, 0)

/-- Once stored, `quit` stays until `loop()` is called again. -/
theorem quit_of_step {l l' : EventLoop F T} {lbl : Label F T} (hq : l.quit = true) (hin : l.pc.inLoop = true)
    (hs : l.step lbl = some l') : l'.quit = true := by
  cases move_of_step hs with
  | foreignQuit | ownQuit => rfl
  | ownQueueInLoop => simpa using hq
  | clearQuit hp => simp [hp, LoopPc.inLoop] at hin
  | _ => exact hq

theorem untilTest_step {l l' : EventLoop F T} {lbl : Label F T} (hq : l.quit = true)
    (hin : l.pc.inLoop = true) (hs : l.step lbl = some l') :
    l'.pc = .exited ∨ l'.pc.inLoop = true ∧
      untilTest l'.pc l'.queue.rest.length ≤ untilTest l.pc l.queue.rest.length ∧
      (lbl.advances → untilTest l'.pc l'.queue.rest.length < untilTest l.pc l.queue.rest.length) := by
  by_cases hadv : lbl.advances
  · suffices h : l'.pc = .exited ∨ l'.pc.inLoop = true ∧
        untilTest l'.pc l'.queue.rest.length < untilTest l.pc l.queue.rest.length from
      h.imp_right fun h => ⟨h.1, h.2.le, fun _ => h.2⟩
    cases move_of_step hs with
    | clearQuit hp => simp [hp, LoopPc.inLoop] at hin
    | testQuit => exact .inl (if_pos hq)
    | @pollReturn wakeup hp =>
      rw [hp]
      refine .inr ⟨rfl, lex_of_fst ?_⟩
      cases wakeup <;> decide
    | handleRead hp | beginFunctors hp | swap hp | endFunctors hp =>
      rw [hp]
      exact .inr ⟨rfl, lex_of_fst (by decide)⟩
    | runFunctor hp hr =>
      rw [hp, hr]
      refine .inr ⟨rfl, lex_of_snd ?_⟩
      simp only [busy, TaskQueue.advance_rest, hr, List.tail_cons, List.length_cons]
      omega
    | functorReturn hp =>
      rw [hp]
      exact .inr ⟨rfl, lex_of_snd (Nat.lt_succ_self _)⟩
    | _ => exact absurd hadv id
  · obtain ⟨hp, hr, -, -⟩ := stays_of_step hin hadv hs
    rw [hp, hr]
    exact .inr ⟨hin, le_rfl, fun ha => absurd ha hadv⟩

/-- **`quit()` ends the loop**: after it has been stored, by whichever thread, `loop()` returns in the end,
although `epoll_wait` may return for a wakeup only. -/
theorem quit_exits (r : (sys (F := F) (T := T)).Run CallbackCalls) (hf : Fair r) :
    r.LeadsTo (fun l => l.pc.inLoop = true ∧ l.quit = true) fun l => l.pc = .exited := by
  have hquit : r.LeadsTo (fun l => sys.Reach CallbackCalls l ∧ l.pc.inLoop = true ∧ l.quit = true)
      fun l => l.pc = .exited := by
    have hP : ∀ l : EventLoop F T, sys.Reach CallbackCalls l ∧ l.pc.inLoop = true ∧ l.quit = true →
        l.pc.inLoop = true ∧ (l.pc = .poll → l.Announced) :=
      fun l hl => ⟨hl.2.1, fun hp => (WakeupInv.of_reach hl.1).quit hp hl.2.2⟩
    refine Sys.Run.leadsTo_of_unless (fun l => untilTest l.pc l.queue.rest.length) (hf.not_waiting hP)
      fun n hn => ?_
    exact (untilTest_step hn.2.2 hn.2.1 (r.next n)).imp_right fun h =>
      ⟨⟨r.reach (n + 1), h.1, quit_of_step hn.2.2 hn.2.1 (r.next n)⟩, h.2⟩
  exact fun n hn => hquit n ⟨r.reach n, hn⟩

/-- Thread `()` has stored `quit` while the loop waits. -/
theorem quit_exits_one : ∃ r : (sys (F := ℕ) (T := Unit)).Run CallbackCalls,
    (r.state 0).pc = .poll ∧ (r.state 0).eventfd = 0 ∧
      r.LeadsTo (fun l => l.pc.inLoop = true ∧ l.quit = true) fun l => l.pc = .exited := by
  have hr : sys.Reach CallbackCalls { (new : EventLoop ℕ Unit) with
      pc := .poll, looping := true, quit := true,
      caller := Function.update (fun _ => .outside) () .beforeWakeup } :=
    (Sys.Reach.init rfl).exec ([.enter, .clearQuit, .testQuit, .foreignQuit ()])
      (by simp [CallbackCalls]) rfl
  obtain ⟨r, h0, hf⟩ := exists_fair_run hr
  exact ⟨r, by rw [h0], by rw [h0]; rfl, quit_exits r hf⟩

end EventLoop

end Mymuduo
