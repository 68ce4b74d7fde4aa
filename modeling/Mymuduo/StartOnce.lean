import Mathlib.Algebra.Group.Int.Defs
import Mathlib.Data.Fintype.Card
import Mymuduo.TcpServer

/-!
# Mymuduo.StartOnce — concurrent calls of `TcpServer::start` (`TcpServer.cc`, `EventLoopThreadPool.cc`)

Any number of threads call `start()` on a server that has just been constructed.  A call increments
`started` atomically and returns, unless it has read `0` there: then it starts the thread pool, one
loop after the other, and hands `Acceptor::listen` to the base loop.

The initializer list of the constructor does not mention `started`, so that the calls count from what
the memory held before.  One of `n` calls reads `0` exactly if that was at most `0` and above `-n`
(`started_once_iff`); with `1` in the memory the server never starts.
-/

namespace Mymuduo

open Lib

/-- Where a call of `start()` is; `starting i`: in `threadPool->start`, with `i` loops started. -/
inductive StartPc
  | called
  | starting (i : ℕ)
  | listening
  | returned
  deriving DecidableEq, Repr

/-- `poolStarts` counts the calls of `threadPool->start`, `listened` and `queued` those of
`Acceptor::listen` that `runInLoop` has run and queued. -/
structure ServerStart (n : ℕ) where
  started : ℤ
  pc : Fin n → StartPc
  poolStarts : ℕ
  loops : ℕ
  listened : ℕ
  queued : ℕ

namespace ServerStart

variable {n : ℕ}

/-- After the constructor, in memory that held `previous` at `started`. -/
def new (n : ℕ) (previous : ℤ) : ServerStart n where
  started := previous
  pc := fun _ => .called
  poolStarts := 0
  loops := 0
  listened := 0
  queued := 0

inductive Label (n : ℕ)
  | fetchAdd (c : Fin n)
  | startLoop (c : Fin n)
  | poolReturn (c : Fin n)
  | runInLoop (c : Fin n)

def goto (c : Fin n) (pc : StartPc) (s : ServerStart n) : ServerStart n :=
  { s with pc := Function.update s.pc c pc }

/-- `inLoopThread c`: the call `c` is made in the thread of the base loop. -/
def step (numThreads : ℤ) (inLoopThread : Fin n → Bool) (s : ServerStart n) :
    Label n → Option (ServerStart n)
  | .fetchAdd c =>
    if s.pc c = .called then
      let s' := { s with started := incrInt s.started }
      if s.started = 0 then some { s'.goto c (.starting 0) with poolStarts := s.poolStarts + 1 }
      else some (s'.goto c .returned)
    else none
  | .startLoop c =>
    match s.pc c with
    | .starting i =>
      if (i : ℤ) < numThreads then some { s.goto c (.starting (i + 1)) with loops := s.loops + 1 }
      else none
    | _ => none
  | .poolReturn c =>
    match s.pc c with
    | .starting i => if (i : ℤ) < numThreads then none else some (s.goto c .listening)
    | _ => none
  | .runInLoop c =>
    if s.pc c = .listening then
      if inLoopThread c then some { s.goto c .returned with listened := s.listened + 1 }
      else some { s.goto c .returned with queued := s.queued + 1 }
    else none

/-- All interleavings of `n` calls. -/
def sys (numThreads : ℤ) (inLoopThread : Fin n → Bool) (previous : ℤ) :
    Sys (ServerStart n) (Label n) where
  init s := s = new n previous
  step := step numThreads inLoopThread

/-! ### The counter -/

/-- The number of calls that have incremented `started`. -/
def fetched (pc : Fin n → StartPc) : ℕ := (Finset.univ.filter fun c => pc c ≠ .called).card

theorem fetched_le (pc : Fin n → StartPc) : fetched pc ≤ n :=
  (Finset.card_le_univ _).trans (Fintype.card_fin n).le

theorem fetched_of_returned {pc : Fin n → StartPc} (h : ∀ c, pc c = .returned) : fetched pc = n := by
  have he : (Finset.univ.filter fun c => pc c ≠ .called) = Finset.univ :=
    Finset.filter_true_of_mem fun c _ => by simp [h c]
  rw [fetched, he, Finset.card_univ, Fintype.card_fin]

theorem fetched_update_called {pc : Fin n → StartPc} {c : Fin n} (hc : pc c = .called) {v : StartPc}
    (hv : v ≠ .called) : fetched (Function.update pc c v) = fetched pc + 1 := by
  have he : (Finset.univ.filter fun d => Function.update pc c v d ≠ .called) =
      insert c (Finset.univ.filter fun d => pc d ≠ .called) := by
    ext d
    by_cases hd : d = c
    · simp [hd, hv]
    · simp [hd]
  rw [fetched, he, Finset.card_insert_of_notMem (by simp [hc])]
  rfl

theorem fetched_update {pc : Fin n → StartPc} {c : Fin n} (hc : pc c ≠ .called) {v : StartPc}
    (hv : v ≠ .called) : fetched (Function.update pc c v) = fetched pc := by
  unfold fetched
  congr 1
  ext d
  by_cases hd : d = c
  · simp [hd, hv, hc]
  · simp [hd]

/-! ### What a step does -/

inductive Move (numThreads : ℤ) (s : ServerStart n) : ServerStart n → Prop
  | first {c : Fin n} : s.pc c = .called → s.started = 0 → Move numThreads s
      { s.goto c (.starting 0) with started := incrInt s.started, poolStarts := s.poolStarts + 1 }
  | later {c : Fin n} : s.pc c = .called → s.started ≠ 0 → Move numThreads s
      { s.goto c .returned with started := incrInt s.started }
  | startLoop {c : Fin n} {i : ℕ} : s.pc c = .starting i → (i : ℤ) < numThreads → Move numThreads s
      { s.goto c (.starting (i + 1)) with loops := s.loops + 1 }
  | poolReturn {c : Fin n} {i : ℕ} : s.pc c = .starting i → ¬ (i : ℤ) < numThreads →
      Move numThreads s (s.goto c .listening)
  | runInLoop {c : Fin n} {listened queued : ℕ} : s.pc c = .listening →
      listened + queued = s.listened + s.queued + 1 → Move numThreads s
      { s.goto c .returned with listened := listened, queued := queued }

theorem move_of_step {numThreads : ℤ} {inLoopThread : Fin n → Bool} {s s' : ServerStart n}
    {l : Label n} (h : s.step numThreads inLoopThread l = some s') : Move numThreads s s' := by
  cases l with
  | fetchAdd c =>
    simp only [step, Option.ite_none_right_eq_some] at h
    obtain ⟨hc, h⟩ := h
    split at h
    next h0 =>
      obtain rfl := Option.some.inj h
      exact .first hc h0
    next h0 =>
      obtain rfl := Option.some.inj h
      exact .later hc h0
  | startLoop c =>
    simp only [step] at h
    split at h
    next i hc =>
      obtain ⟨hlt, rfl⟩ := of_guard h
      exact .startLoop hc hlt
    next => cases h
  | poolReturn c =>
    simp only [step] at h
    split at h
    next i hc =>
      split at h
      · cases h
      next hge =>
        obtain rfl := Option.some.inj h
        exact .poolReturn hc hge
    next => cases h
  | runInLoop c =>
    simp only [step, Option.ite_none_right_eq_some] at h
    obtain ⟨hc, h⟩ := h
    split at h <;> obtain rfl := Option.some.inj h
    · exact .runInLoop hc (Nat.add_right_comm ..)
    · exact .runInLoop hc (Nat.add_assoc ..).symm

/-! ### Every run -/

/-- The calls other than `c` have not read `0`. -/
def OthersIdle (s : ServerStart n) (c : Fin n) : Prop :=
  ∀ d ≠ c, s.pc d = .called ∨ s.pc d = .returned

/-- How far the start is: none of the calls has read `0`, or just one of them has. -/
inductive Progress (numThreads : ℤ) (s : ServerStart n) : Prop
  | before (pc : ∀ d, s.pc d = .called ∨ s.pc d = .returned) (pool : s.poolStarts = 0)
      (loops : s.loops = 0) (listen : s.listened + s.queued = 0)
  | starting (c : Fin n) (i : ℕ) (pc : s.pc c = .starting i) (others : s.OthersIdle c)
      (pool : s.poolStarts = 1) (loops : s.loops = i) (le : (i : ℤ) ≤ max numThreads 0)
      (listen : s.listened + s.queued = 0)
  | listening (c : Fin n) (pc : s.pc c = .listening) (others : s.OthersIdle c)
      (pool : s.poolStarts = 1) (loops : (s.loops : ℤ) = max numThreads 0)
      (listen : s.listened + s.queued = 0)
  | after (pc : ∀ d, s.pc d = .called ∨ s.pc d = .returned) (pool : s.poolStarts = 1)
      (loops : (s.loops : ℤ) = max numThreads 0) (listen : s.listened + s.queued = 1)

structure Inv (numThreads previous : ℤ) (s : ServerStart n) : Prop where
  progress : Progress numThreads s
  counter : s.started =
    if previous + fetched s.pc ≤ 2147483647 then previous + fetched s.pc
    else previous + fetched s.pc - 4294967296
  first : s.poolStarts = if -(fetched s.pc : ℤ) < previous ∧ previous ≤ 0 then 1 else 0

section Steps

variable {numThreads previous : ℤ} {s : ServerStart n} {c : Fin n} {i : ℕ}

theorem idle_goto {d : Fin n} (h : s.pc d = .called ∨ s.pc d = .returned) :
    (s.goto c .returned).pc d = .called ∨ (s.goto c .returned).pc d = .returned := by
  by_cases hd : d = c
  · exact .inr (hd ▸ Function.update_self ..)
  · have he : (s.goto c .returned).pc d = s.pc d := Function.update_of_ne hd ..
    rwa [he]

theorem OthersIdle.goto_self (h : s.OthersIdle c) (pc : StartPc) : (s.goto c pc).OthersIdle c := by
  intro d hd
  have he : (s.goto c pc).pc d = s.pc d := Function.update_of_ne hd ..
  rw [he]
  exact h d hd

/-- A call that is neither waiting nor done is the one that the others leave alone. -/
theorem OthersIdle.eq_of_active {c' : Fin n} (h : s.OthersIdle c')
    (hc : ¬ (s.pc c = .called ∨ s.pc c = .returned)) : c = c' := by
  by_contra hne
  exact hc (h c hne)

namespace Progress

/-- A call that is starting the pool is the only one. -/
theorem of_starting (h : Progress numThreads s) (hc : s.pc c = .starting i) :
    s.OthersIdle c ∧ s.poolStarts = 1 ∧ s.loops = i ∧ (i : ℤ) ≤ max numThreads 0 ∧
      s.listened + s.queued = 0 := by
  have hactive : ¬ (s.pc c = .called ∨ s.pc c = .returned) := by simp [hc]
  cases h with
  | before pc | after pc => exact absurd (pc c) hactive
  | starting c' i' pc others pool loops le listen =>
    obtain rfl := others.eq_of_active hactive
    rw [pc, StartPc.starting.injEq] at hc
    subst hc
    exact ⟨others, pool, loops, le, listen⟩
  | listening c' pc others =>
    obtain rfl := others.eq_of_active hactive
    rw [pc] at hc
    cases hc

theorem of_listening (h : Progress numThreads s) (hc : s.pc c = .listening) :
    s.OthersIdle c ∧ s.poolStarts = 1 ∧ (s.loops : ℤ) = max numThreads 0 ∧
      s.listened + s.queued = 0 := by
  have hactive : ¬ (s.pc c = .called ∨ s.pc c = .returned) := by simp [hc]
  cases h with
  | before pc | after pc => exact absurd (pc c) hactive
  | starting c' i' pc others =>
    obtain rfl := others.eq_of_active hactive
    rw [pc] at hc
    cases hc
  | listening c' pc others pool loops listen =>
    obtain rfl := others.eq_of_active hactive
    exact ⟨others, pool, loops, listen⟩

/-- A call that has read another value than `0` returns at once. -/
theorem later (h : Progress numThreads s) (hc : s.pc c = .called) :
    Progress numThreads { s.goto c .returned with started := incrInt s.started } := by
  have hkeep : ∀ {d : Fin n} {pc : StartPc}, s.pc d = pc → pc ≠ .called →
      (s.goto c .returned).pc d = pc := by
    intro d pc hd hne
    have hdc : d ≠ c := fun he => hne (hd.symm.trans (he ▸ hc))
    exact (Function.update_of_ne hdc ..).trans hd
  cases h with
  | before pc pool loops listen => exact .before (fun d => idle_goto (pc d)) pool loops listen
  | starting c' i pc others pool loops le listen =>
    exact .starting c' i (hkeep pc (by simp)) (fun d hd => idle_goto (others d hd)) pool loops le listen
  | listening c' pc others pool loops listen =>
    exact .listening c' (hkeep pc (by simp)) (fun d hd => idle_goto (others d hd)) pool loops listen
  | after pc pool loops listen => exact .after (fun d => idle_goto (pc d)) pool loops listen

/-- The first call that reads `0`. -/
theorem first (h : Progress numThreads s) (hpool : s.poolStarts = 0) :
    Progress numThreads
      { s.goto c (.starting 0) with started := incrInt s.started, poolStarts := s.poolStarts + 1 } := by
  cases h with
  | before pc pool loops listen =>
    refine .starting c 0 (Function.update_self ..) (OthersIdle.goto_self (fun d _ => pc d) _) ?_ loops ?_ listen
    · simp [hpool]
    · simp
  | starting _ _ _ _ pool | listening _ _ _ pool | after _ pool =>
    rw [hpool] at pool
    cases pool

end Progress

theorem Inv.new (numThreads previous : ℤ) (hprev : previous < 2 ^ 31) :
    Inv numThreads previous (new n previous) := by
  have hf : fetched (ServerStart.new n previous).pc = 0 := by simp [fetched, ServerStart.new]
  refine ⟨.before (fun _ => .inl rfl) rfl rfl rfl, ?_, ?_⟩
  · rw [hf, if_pos (by omega)]
    exact (Int.add_zero previous).symm
  · rw [hf, if_neg (by omega)]
    rfl

/-- One more increment of the counter. -/
theorem count_succ {started : ℤ} {k : ℕ} (hk : k + 1 < 2 ^ 31) (hlo : -2 ^ 31 ≤ previous)
    (hhi : previous < 2 ^ 31)
    (h : started = if previous + k ≤ 2147483647 then previous + k else previous + k - 4294967296) :
    incrInt started = if previous + (k + 1 : ℕ) ≤ 2147483647 then previous + (k + 1 : ℕ)
      else previous + (k + 1 : ℕ) - 4294967296 := by
  unfold incrInt
  split at h <;> split <;> split <;> omega

/-- The counter is `0` just when the calls so far are as many as it takes. -/
theorem count_eq_zero_iff {started : ℤ} {k : ℕ} (hk : k < 2 ^ 31) (hlo : -2 ^ 31 ≤ previous)
    (hhi : previous < 2 ^ 31)
    (h : started = if previous + k ≤ 2147483647 then previous + k else previous + k - 4294967296) :
    started = 0 ↔ previous = -(k : ℤ) := by
  split at h <;> omega

/-- A step that does not touch the counter. -/
theorem Inv.of_fetched {s' : ServerStart n} (h : Inv numThreads previous s)
    (hp : Progress numThreads s') (hf : fetched s'.pc = fetched s.pc)
    (hs : s'.started = s.started) (hpool : s'.poolStarts = s.poolStarts) :
    Inv numThreads previous s' where
  progress := hp
  counter := by
    rw [hs, hf]
    exact h.counter
  first := by
    rw [hpool, hf]
    exact h.first

theorem Inv.step {s' : ServerStart n} (h : Inv numThreads previous s) (hn : n < 2 ^ 31)
    (hlo : -2 ^ 31 ≤ previous) (hhi : previous < 2 ^ 31) (hm : Move numThreads s s') :
    Inv numThreads previous s' := by
  have hp := h.progress
  have hle := fetched_le s'.pc
  cases hm with
  | @first c hc h0 =>
    have hf : fetched (s.goto c (.starting 0)).pc = fetched s.pc + 1 :=
      fetched_update_called hc (by simp)
    simp only at hle
    rw [hf] at hle
    have hprev := (count_eq_zero_iff (by omega) hlo hhi h.counter).mp h0
    have hpool : s.poolStarts = 0 := by
      rw [h.first, if_neg]
      omega
    refine ⟨hp.first hpool, ?_, ?_⟩
    · simp only [hf]
      exact count_succ (by omega) hlo hhi h.counter
    · simp only [hf]
      rw [hpool, if_pos]
      omega
  | @later c hc h0 =>
    have hf : fetched (s.goto c .returned).pc = fetched s.pc + 1 :=
      fetched_update_called hc (by simp)
    simp only at hle
    rw [hf] at hle
    have hprev := (not_congr (count_eq_zero_iff (by omega) hlo hhi h.counter)).mp h0
    refine ⟨hp.later hc, ?_, ?_⟩
    · simp only [hf]
      exact count_succ (by omega) hlo hhi h.counter
    · have hiff : (-((fetched s.pc + 1 : ℕ) : ℤ) < previous ∧ previous ≤ 0) ↔
          (-(fetched s.pc : ℤ) < previous ∧ previous ≤ 0) := by
        omega
      simp only [hf, hiff]
      exact h.first
  | @startLoop c i hc hlt =>
    have hf : fetched (s.goto c (.starting (i + 1))).pc = fetched s.pc :=
      fetched_update (by simp [hc]) (by simp)
    obtain ⟨others, pool, loops, -, listen⟩ := hp.of_starting hc
    refine h.of_fetched (.starting c (i + 1) (Function.update_self ..) (others.goto_self _) pool ?_ ?_
      listen) hf rfl rfl
    · simp only [loops]
    · omega
  | @poolReturn c i hc hge =>
    have hf : fetched (s.goto c .listening).pc = fetched s.pc :=
      fetched_update (by simp [hc]) (by simp)
    obtain ⟨others, pool, loops, le, listen⟩ := hp.of_starting hc
    refine h.of_fetched (.listening c (Function.update_self ..) (others.goto_self _) pool ?_ listen)
      hf rfl rfl
    simp only [goto, loops]
    omega
  | @runInLoop c listened queued hc hl =>
    have hf : fetched (s.goto c .returned).pc = fetched s.pc :=
      fetched_update (by simp [hc]) (by simp)
    obtain ⟨others, pool, loops, listen⟩ := hp.of_listening hc
    refine h.of_fetched (.after (fun d => ?_) pool loops (hl.trans (by rw [listen]))) hf rfl rfl
    by_cases hd : d = c
    · exact .inr (hd ▸ Function.update_self ..)
    · exact idle_goto (others d hd)

end Steps

/-- **The server starts exactly once**, however many threads call `start()`, exactly if the memory of
`started` held a number of at most `0` that the calls can count up to `1`. -/
theorem started_once_iff (n : ℕ) (hn : n < 2 ^ 31) (previous : ℤ) (hlo : -2 ^ 31 ≤ previous)
    (hhi : previous < 2 ^ 31) (numThreads : ℤ) (inLoopThread : Fin n → Bool) (s : ServerStart n)
    (h : (sys numThreads inLoopThread previous).Reach (fun _ _ => True) s)
    (hret : ∀ c, s.pc c = .returned) :
    (s.poolStarts = 1 ∧ (s.loops : ℤ) = max numThreads 0 ∧ s.listened + s.queued = 1) ↔
      -(n : ℤ) < previous ∧ previous ≤ 0 := by
  obtain ⟨hp, -, hfirst⟩ := h.invariant (I := Inv numThreads previous)
    (fun s hi => hi ▸ Inv.new numThreads previous hhi)
    fun _ _ _ hi _ hst => hi.step hn hlo hhi (move_of_step hst)
  rw [fetched_of_returned hret] at hfirst
  constructor
  · rintro ⟨hpool, -⟩
    by_contra hc
    rw [if_neg hc, hpool] at hfirst
    cases hfirst
  · intro hc
    rw [if_pos hc] at hfirst
    cases hp with
    | before _ pool => rw [pool] at hfirst; cases hfirst
    | after _ pool loops listen => exact ⟨pool, loops, listen⟩
    | starting c i pc => simp [hret c] at pc
    | listening c pc => simp [hret c] at pc

/-- With `-1` in the memory the second of two calls starts the server. -/
theorem started_once_second : ∃ s : ServerStart 2, s.poolStarts = 1 ∧
    (s.loops : ℤ) = max 1 0 ∧ s.listened + s.queued = 1 := by
  have hr := Sys.Reach.exec (M := sys 1 (fun _ : Fin 2 => false) (-1)) (C := fun _ _ => True)
    (.init rfl) [.fetchAdd 0, .fetchAdd 1, .startLoop 1, .poolReturn 1, .runInLoop 1]
    (fun _ _ _ => trivial) rfl
  exact ⟨_, (started_once_iff 2 (by decide) (-1) (by decide) (by decide) 1 _ _ hr (by decide)).mpr (by decide)⟩

/-- With `1` in the memory the only call returns without starting anything. -/
theorem never_started : ¬ ∀ (n : ℕ) (_ : 1 ≤ n) (_ : n < 2 ^ 31) (previous : ℤ) (_ : -2 ^ 31 ≤ previous)
    (_ : previous < 2 ^ 31) (numThreads : ℤ) (inLoopThread : Fin n → Bool) (s : ServerStart n),
    (sys numThreads inLoopThread previous).Reach (fun _ _ => True) s → (∀ c, s.pc c = .returned) →
      s.poolStarts = 1 ∧ (s.loops : ℤ) = max numThreads 0 ∧ s.listened + s.queued = 1 := by
  intro h
  have hr := Sys.Reach.exec (M := sys 3 (fun _ : Fin 1 => true) 1) (C := fun _ _ => True)
    (.init rfl) [.fetchAdd 0] (fun _ _ _ => trivial) rfl
  have hs := h 1 (by decide) (by decide) 1 (by decide) (by decide) 3 _ _ hr (by decide)
  exact absurd hs.1 (by decide)

end ServerStart

end Mymuduo
