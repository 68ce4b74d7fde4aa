import Mymuduo.CallRun
import Mymuduo.Functors

/-!
# Mymuduo.CallLog — where the entries of the log stand

Over every run of calls on one connection: a call waits in its thread, then in the queue of the loop,
until it is carried out, and the queue agrees with the order of the calls (`Calls`); every entry stands
where it may stand (`Good`); and the log tells what is on the wire (`Logged`).
-/

namespace Mymuduo

open Lib

/-! ### Reading the log -/

namespace Entry

variable {T : Type*}

/-- The call an entry is about. -/
def call : Entry T → Option (UserCall T)
  | .began c | .returned c _ => some c
  | .sendInLoop i _ => some (.send i)
  | .shutdownInLoop k => some (.shutdown k)
  | .io _ => none

/-- The call that is carried out. -/
def runs : Entry T → Option (UserCall T)
  | .sendInLoop i _ => some (.send i)
  | .shutdownInLoop k => some (.shutdown k)
  | _ => none

def event : Entry T → Option Event
  | .io e => some e
  | _ => none

/-- The bytes put on the wire. -/
def bytes : Entry T → List UInt8
  | .sendInLoop _ bytes => bytes.getD []
  | _ => []

theorem call_of_runs {e : Entry T} {c : UserCall T} (h : e.runs = some c) : e.call = some c := by
  cases e with
  | sendInLoop | shutdownInLoop => exact h
  | _ => cases h

end Entry

namespace CallRun

variable {T : Type*} {log B : List (Entry T)} {c : UserCall T}

/-- The call has been carried out. -/
def Done (c : UserCall T) (log : List (Entry T)) : Prop := ∃ e ∈ log, e.runs = some c

/-- What happened at the border of the connection. -/
def events (log : List (Entry T)) : List Event := log.filterMap Entry.event

def sent (log : List (Entry T)) : List UInt8 := log.flatMap Entry.bytes

theorem done_append : Done c (log ++ B) ↔ Done c log ∨ Done c B := by
  simp [Done, or_and_right, exists_or]

theorem events_append : events (log ++ B) = events log ++ events B := List.filterMap_append

theorem sent_append : sent (log ++ B) = sent log ++ sent B := List.flatMap_append

theorem events_io (evs : List Event) : events (evs.map (.io : Event → Entry T)) = evs := by
  unfold events
  rw [List.filterMap_map]
  exact List.filterMap_some

theorem sent_io (evs : List Event) : sent (evs.map (.io : Event → Entry T)) = [] := by
  simp [sent, Entry.bytes]

theorem call_io {evs : List Event} {e : Entry T} (h : e ∈ evs.map .io) : e.call = none := by
  obtain ⟨_, -, rfl⟩ := List.mem_map.mp h
  rfl

/-! ### Where a call is -/

/-- Between its test and its end a call waits in its thread, then in the queue `q`; the queue holds
the calls in an order that agrees with that of the calls themselves. -/
structure Calls (q : List (UserCall T)) (thread : T → At T) (log : List (Entry T)) : Prop where
  began : ∀ e ∈ log, ∀ c, e.call = some c → .began c ∈ log
  waiting : ∀ t c, (thread t).waiting = some c → .began c ∈ log ∧ c.id.thread = some t ∧
    ¬ Done c log ∧ c ∉ q ∧ ∀ ok, .returned c ok ∉ log
  returning : ∀ t c, thread t = .returning c →
    .began c ∈ log ∧ c.id.thread ≠ none ∧ (Done c log ∨ c ∈ q)
  queued : ∀ c ∈ q, .began c ∈ log ∧ c.id.thread ≠ none ∧ ¬ Done c log
  settled : ∀ c, .returned c true ∈ log → Done c log ∨ c ∈ q
  fifo : q.Pairwise fun c i => c ≠ i ∧ ¬ Before log (.returned i true) (.began c)

/-- The entries `B` are about new calls, and a call that returns in them is carried out in them. -/
def New (log B : List (Entry T)) : Prop :=
  ∀ e ∈ B, ∀ c, e.call = some c →
    .began c ∉ log ∧ .began c ∈ B ∧ (.returned c true ∈ B → Done c B)

theorem new_io (evs : List Event) : New log (evs.map .io) := by
  intro e he c hc
  rw [call_io he] at hc
  cases hc

namespace Calls

variable {q : List (UserCall T)} {thread thread' : T → At T} {t : T}

theorem not_done (h : Calls q thread log) (hc : .began c ∉ log) : ¬ Done c log := by
  rintro ⟨e, he, hr⟩
  exact hc (h.began e he c (Entry.call_of_runs hr))

theorem append (h : Calls q thread log) (hB : New log B) : Calls q thread (log ++ B) := by
  -- the entries are about none of the old calls
  have hnot : ∀ {c}, .began c ∈ log → ∀ e ∈ B, e.call ≠ some c :=
    fun hc e he h' => (hB e he _ h').1 hc
  have hdone : ∀ {c}, .began c ∈ log → Done c (log ++ B) → Done c log := by
    intro c hc hd
    refine (done_append.mp hd).resolve_right ?_
    rintro ⟨e, he, hr⟩
    exact hnot hc e he (Entry.call_of_runs hr)
  refine ⟨fun e he c hc => ?_, fun t c hw => ?_, fun t c hr => ?_, fun c hq => ?_, fun c hr => ?_, ?_⟩
  · rcases List.mem_append.mp he with he | he
    · exact List.mem_append_left B (h.began e he c hc)
    · exact List.mem_append_right log (hB e he c hc).2.1
  · obtain ⟨hb, ht, hd, hq, hret⟩ := h.waiting t c hw
    refine ⟨List.mem_append_left B hb, ht, fun hd' => hd (hdone hb hd'), hq, fun ok hm => ?_⟩
    rcases List.mem_append.mp hm with hm | hm
    · exact hret ok hm
    · exact hnot hb _ hm rfl
  · obtain ⟨hb, ht, hd⟩ := h.returning t c hr
    exact ⟨List.mem_append_left B hb, ht, hd.imp_left fun hd => done_append.mpr (.inl hd)⟩
  · obtain ⟨hb, ht, hd⟩ := h.queued c hq
    exact ⟨List.mem_append_left B hb, ht, fun hd' => hd (hdone hb hd')⟩
  · rcases List.mem_append.mp hr with hr | hr
    · exact (h.settled c hr).imp_left fun hd => done_append.mpr (.inl hd)
    · exact .inl (done_append.mpr (.inr ((hB _ hr c rfl).2.2 hr)))
  · refine h.fifo.imp_of_mem fun {c i} hc _ ⟨hne, hbef⟩ => ⟨hne, fun hb => hbef ?_⟩
    exact hb.of_append fun hm => hnot (h.queued c hc).1 _ hm rfl

/-- The first call of the queue is carried out. -/
theorem run (h : Calls (c :: q) thread log) {e : Entry T} (he : e.runs = some c) :
    Calls q thread (log ++ [e]) := by
  obtain ⟨hb, ht, hd⟩ := h.queued c (by simp)
  obtain ⟨hfst, hfifo⟩ := List.pairwise_cons.mp h.fifo
  have hdone : ∀ c', Done c' (log ++ [e]) ↔ Done c' log ∨ c' = c := by
    intro c'
    rw [done_append]
    simp [Done, he, eq_comm]
  have hret : ∀ c' ok, .returned c' ok ∉ [e] := by
    intro c' ok hm
    obtain rfl := List.mem_singleton.mp hm
    cases he
  refine ⟨fun e' he' c' hc => ?_, fun t' c' hw => ?_, fun t' c' hc => ?_, fun c' hc => ?_,
    fun c' hc => ?_, ?_⟩
  · rcases List.mem_append.mp he' with he' | he'
    · exact List.mem_append_left _ (h.began e' he' c' hc)
    · obtain rfl := List.mem_singleton.mp he'
      obtain rfl := Option.some.inj (hc.symm.trans (Entry.call_of_runs he))
      exact List.mem_append_left _ hb
  · obtain ⟨hb', ht', hd', hq', hret'⟩ := h.waiting t' c' hw
    refine ⟨List.mem_append_left _ hb', ht', fun hx => ?_, fun hq => hq' (by simp [hq]), fun ok hm => ?_⟩
    · rcases (hdone c').mp hx with hx | rfl
      · exact hd' hx
      · exact hq' (by simp)
    · exact (List.mem_append.mp hm).elim (hret' ok) (hret c' ok)
  · obtain ⟨hb', ht', hd'⟩ := h.returning t' c' hc
    refine ⟨List.mem_append_left _ hb', ht', ?_⟩
    rw [hdone]
    rcases hd' with hd' | hd'
    · exact .inl (.inl hd')
    · exact (List.mem_cons.mp hd').elim (fun h => .inl (.inr h)) .inr
  · obtain ⟨hb', ht', hd'⟩ := h.queued c' (by simp [hc])
    refine ⟨List.mem_append_left _ hb', ht', fun hx => ?_⟩
    rcases (hdone c').mp hx with hx | rfl
    · exact hd' hx
    · exact (hfst c' hc).1 rfl
  · rw [hdone]
    have hc := (List.mem_append.mp hc).resolve_right (hret c' true)
    rcases h.settled c' hc with hd' | hq'
    · exact .inl (.inl hd')
    · exact (List.mem_cons.mp hq').elim (fun h => .inl (.inr h)) .inr
  · refine hfifo.imp fun ⟨hne, hbef⟩ => ⟨hne, fun hb => hbef (hb.of_append fun hm => ?_)⟩
    obtain rfl := List.mem_singleton.mp hm
    cases he

variable [DecidableEq T]

/-- A thread goes on to `a`. -/
theorem setThread (h : Calls q thread log) {a : At T}
    (hw : ∀ c, a.waiting = some c → .began c ∈ log ∧ c.id.thread = some t ∧ ¬ Done c log ∧ c ∉ q ∧
      ∀ ok, .returned c ok ∉ log)
    (hr : ∀ c, a = .returning c → .began c ∈ log ∧ c.id.thread ≠ none ∧ (Done c log ∨ c ∈ q)) :
    Calls q (Function.update thread t a) log := by
  refine ⟨h.began, fun t' c hc => ?_, fun t' c hc => ?_, h.queued, h.settled, h.fifo⟩
  · rw [Function.update_apply] at hc
    split at hc
    next ht => exact ht ▸ hw c hc
    next => exact h.waiting t' c hc
  · rw [Function.update_apply] at hc
    split at hc
    next => exact hr c hc
    next => exact h.returning t' c hc

/-- The push of `queueInLoop`. -/
theorem push (h : Calls q thread log) (hw : (thread t).waiting = some c) :
    Calls (q ++ [c]) (Function.update thread t (.returning c)) log := by
  obtain ⟨hb, ht, hd, hq, hret⟩ := h.waiting t c hw
  have h' : Calls (q ++ [c]) (Function.update thread t .outside) log := by
    refine ⟨h.began, fun t' c' hc => ?_, fun t' c' hc => ?_, fun c' hc => ?_, fun c' hc => ?_, ?_⟩
    · rw [Function.update_apply] at hc
      split at hc
      next => cases hc
      next hne =>
        obtain ⟨hb', ht', hd', hq', hret'⟩ := h.waiting t' c' hc
        refine ⟨hb', ht', hd', fun hm => ?_, hret'⟩
        rcases List.mem_append.mp hm with hm | hm
        · exact hq' hm
        · obtain rfl := List.mem_singleton.mp hm
          exact hne (Option.some.inj (ht'.symm.trans ht))
    · rw [Function.update_apply] at hc
      split at hc
      next => cases hc
      next =>
        obtain ⟨hb', ht', hd'⟩ := h.returning t' c' hc
        exact ⟨hb', ht', hd'.imp_right (List.mem_append_left [c])⟩
    · rcases List.mem_append.mp hc with hc | hc
      · exact h.queued c' hc
      · obtain rfl := List.mem_singleton.mp hc
        exact ⟨hb, by rw [ht]; simp, hd⟩
    · exact (h.settled c' hc).imp_right (List.mem_append_left [c])
    · refine List.pairwise_append.mpr ⟨h.fifo, List.pairwise_singleton _ _, fun x hx y hy => ?_⟩
      obtain rfl := List.mem_singleton.mp hy
      -- the new call has not returned yet
      exact ⟨fun he => hq (he ▸ hx), fun hbef => hret true hbef.mem_left⟩
  have := h'.setThread (t := t) (a := .returning c) (by simp [At.waiting]) (by
    rintro _ ⟨⟩
    exact ⟨hb, by simp [ht], .inr (by simp)⟩)
  rwa [Function.update_idem] at this

/-- The end of a call that has been queued. -/
theorem ret (h : Calls q thread log) (hr : thread t = .returning c) :
    Calls q (Function.update thread t .outside) (log ++ [.returned c true]) := by
  obtain ⟨hb, -, hd⟩ := h.returning t c hr
  have hdone : ∀ c', Done c' (log ++ [.returned c true]) ↔ Done c' log := by
    intro c'
    rw [done_append]
    simp [Done, Entry.runs]
  refine setThread ?_ (by simp [At.waiting]) (by simp)
  refine ⟨fun e he c' hc => ?_, fun t' c' hw => ?_, fun t' c' hc => ?_, fun c' hc => ?_,
    fun c' hc => ?_, ?_⟩
  · rcases List.mem_append.mp he with he | he
    · exact List.mem_append_left _ (h.began e he c' hc)
    · obtain rfl := List.mem_singleton.mp he
      obtain rfl := Option.some.inj hc
      exact List.mem_append_left _ hb
  · obtain ⟨hb', ht', hd', hq', hret'⟩ := h.waiting t' c' hw
    refine ⟨List.mem_append_left _ hb', ht', fun hx => hd' ((hdone c').mp hx), hq', fun ok hm => ?_⟩
    rcases List.mem_append.mp hm with hm | hm
    · exact hret' ok hm
    · obtain ⟨rfl, -⟩ := (Entry.returned.injEq ..).mp (List.mem_singleton.mp hm)
      exact hd.elim hd' hq'
  · obtain ⟨hb', ht', hd'⟩ := h.returning t' c' hc
    exact ⟨List.mem_append_left _ hb', ht', hd'.imp_left (hdone c').mpr⟩
  · obtain ⟨hb', ht', hd'⟩ := h.queued c' hc
    exact ⟨List.mem_append_left _ hb', ht', fun hx => hd' ((hdone c').mp hx)⟩
  · rw [hdone]
    rcases List.mem_append.mp hc with hc | hc
    · exact h.settled c' hc
    · obtain ⟨rfl, -⟩ := (Entry.returned.injEq ..).mp (List.mem_singleton.mp hc)
      exact hd
  · exact h.fifo.imp fun ⟨hne, hbef⟩ => ⟨hne, fun hb => hbef (hb.of_append (by simp))⟩

end Calls

/-! ### The wire and the log -/

/-- The conditions under which the call `c` is carried out: the loop thread does it as soon as it is
called, and for another thread only when all calls that had returned before it have been carried
out. -/
structure InTurn (pre : List (Entry T)) (c : UserCall T) : Prop where
  began : .began c ∈ pre
  once : ¬ Done c pre
  own : c.id.thread = none → ∃ pre', pre = pre' ++ [.began c]
  foreign : c.id.thread ≠ none → ∀ i, Before pre (.returned i true) (.began c) → Done i pre

/-- Where an entry may stand. -/
def Good (pre : List (Entry T)) : Entry T → Prop
  | .began c => .began c ∉ pre
  | .returned c passed =>
    .began c ∈ pre ∧ (passed = true → c.id.thread = none → Done c pre)
  | .sendInLoop i _ => InTurn pre (.send i)
  | .shutdownInLoop k => InTurn pre (.shutdown k)
  | .io (.shutdownWrite b) => ¬ Io.CloseSeen (events pre) → Clean (events pre) →
      b = [] ∧ accepted (events pre) = sent pre ∧ ∀ i, .sendInLoop i none ∉ pre
  | .io _ => True

section Good

variable {pre : List (Entry T)} {e : Entry T}

theorem good_of_runs (hr : e.runs = some c) (h : InTurn pre c) : Good pre e := by
  cases e with
  | sendInLoop | shutdownInLoop =>
    obtain rfl := Option.some.inj hr
    exact h
  | _ => cases hr

theorem Good.inTurn (h : Good pre e) (hr : e.runs = some c) : InTurn pre c := by
  cases e with
  | sendInLoop | shutdownInLoop =>
    obtain rfl := Option.some.inj hr
    exact h
  | _ => cases hr

theorem good_single (h : Good log e) : Each (fun pre => Good (log ++ pre)) [e] := by
  refine .cons ?_ .nil
  rwa [List.append_nil]

end Good

/-- The log tells what is on the wire; as long as the connection is not closed and no write fails, no
message is given up. -/
structure Logged (io : Io) (log : List (Entry T)) : Prop where
  trace : io.trace = events log
  wire : io.wire = sent log
  streaming : ¬ Io.CloseSeen io.trace → io.Streaming
  taken : ¬ Io.CloseSeen io.trace → Clean io.trace → ∀ i, .sendInLoop i none ∉ log
  good : Each Good log

namespace Logged

variable {io io' : Io} {evs : List Event}

/-- Entries that are not about the wire. -/
theorem append (h : Logged io log) (he : events B = []) (hs : sent B = [])
    (hn : ∀ i, .sendInLoop i none ∉ B) (hg : Each (fun pre => Good (log ++ pre)) B) :
    Logged io (log ++ B) where
  trace := by rw [events_append, he, List.append_nil, h.trace]
  wire := by rw [sent_append, hs, List.append_nil, h.wire]
  streaming := h.streaming
  taken hc hcl i hm := (List.mem_append.mp hm).elim (h.taken hc hcl i) (hn i)
  good := h.good.append hg

/-- A member function runs, with the entries `B` in front of its events. -/
theorem flows (h : Logged io log) (hf : io.Flows evs (sent B) io') (he : events B = [])
    (hn : ∀ i, .sendInLoop i none ∈ B →
      (∀ b, .shutdownWrite b ∉ evs) ∧ (io.Streaming → ¬ Clean io'.trace))
    (hg : Each (fun pre => Good (log ++ pre)) B) : Logged io' (log ++ B ++ evs.map .io) := by
  have hopen : ¬ Io.CloseSeen io'.trace → ¬ Io.CloseSeen io.trace ∧ ¬ Io.CloseSeen evs := by
    intro hc
    rw [hf.trace] at hc
    exact ⟨fun h => hc (List.mem_append_left _ h), fun h => hc (List.mem_append_right _ h)⟩
  have hnone : ∀ {evs' : List Event} {i}, .sendInLoop i none ∈ log ++ B ++ evs'.map .io →
      .sendInLoop i none ∈ log ∨ .sendInLoop i none ∈ B := by
    intro evs' i hm
    refine List.mem_append.mp ((List.mem_append.mp hm).resolve_right fun hm => ?_)
    exact absurd (call_io hm) (by simp [Entry.call])
  refine ⟨?_, ?_, fun hc => ?_, fun hc hcl i hm => ?_, (h.good.append hg).append ?_⟩
  · rw [events_append, events_append, he, events_io, List.append_nil, ← h.trace, hf.trace]
  · rw [sent_append, sent_append, sent_io, List.append_nil, ← h.wire, hf.wire]
  · exact hf.keeps (h.streaming (hopen hc).1) (hopen hc).2
  · rcases hnone hm with hm | hm
    · exact h.taken (hopen hc).1 (hcl.of_isPrefix ⟨evs, hf.trace.symm⟩) i hm
    · exact (hn i hm).2 (h.streaming (hopen hc).1) hcl
  · intro pre e post hsplit
    obtain ⟨evs₁, evs₂, rfl, rfl, hrest⟩ := List.map_eq_append_iff.mp hsplit
    obtain ⟨ev, evs₃, rfl, rfl, rfl⟩ := List.map_eq_cons_iff.mp hrest
    cases ev with
    | shutdownWrite b =>
      intro hc hcl
      rw [events_append, events_append, he, events_io, List.append_nil, ← h.trace] at hc hcl ⊢
      have hc' : ¬ Io.CloseSeen io.trace := fun h => hc (List.mem_append_left _ h)
      obtain ⟨hb, ha⟩ := hf.fin (h.streaming hc') evs₁ b evs₃ rfl hcl
      refine ⟨hb, ?_, fun i hm => ?_⟩
      · rw [sent_append, sent_append, sent_io, List.append_nil, ha, hf.wire, h.wire]
      · rcases hnone hm with hm | hm
        · exact h.taken hc' (hcl.of_isPrefix (List.prefix_append _ _)) i hm
        · exact (hn i hm).1 b (by simp)
    | _ => trivial

end Logged

/-! ### One step -/

/-- The calls in the queue of the loop. -/
def calls (s : CallRun T) : List (UserCall T) := s.loop.queue.unrun.filterMap (Option.map Task.call)

structure Inv (s : CallRun T) : Prop where
  rest : s.loop.RestInv
  calls : Calls s.calls s.thread s.log
  logged : Logged s.conn.io s.log

variable {s : CallRun T} {e : Entry T} {evs : List Event} {io : Io}

theorem setConn_log {conn : Conn} (h : conn.io.trace = s.conn.io.trace ++ evs) :
    (s.setConn conn).log = s.log ++ evs.map .io := by
  unfold setConn
  simp only
  rw [h, List.drop_left]

theorem events_of_runs (hr : e.runs = some c) : events [e] = [] := by
  cases e with
  | sendInLoop | shutdownInLoop => rfl
  | _ => cases hr

theorem new_own (hc : .began c ∉ log) (hr : e.runs = some c) (evs : List Event) :
    New log ([.began c] ++ [e] ++ evs.map .io ++ [.returned c true]) := by
  intro e' he' c' hc'
  have hcc : c' = c := by
    simp only [List.mem_append, List.mem_singleton] at he'
    rcases he' with ((rfl | rfl) | he') | rfl
    · exact (Option.some.inj hc').symm
    · exact Option.some.inj (hc'.symm.trans (Entry.call_of_runs hr))
    · rw [call_io he'] at hc'
      cases hc'
    · exact (Option.some.inj hc').symm
  subst hcc
  exact ⟨hc, by simp, fun _ => ⟨e, by simp, hr⟩⟩

namespace Inv

/-- A call that the loop thread carries out at once. -/
theorem own (h : s.Inv) (ht : c.id.thread = none) (hc : .began c ∉ s.log) (hr : e.runs = some c)
    (hf : s.conn.io.Flows evs (sent [e]) io)
    (hn : ∀ i, .sendInLoop i none ∈ [e] →
      (∀ b, .shutdownWrite b ∉ evs) ∧ (s.conn.io.Streaming → ¬ Clean io.trace)) :
    ((((s.note [.began c]).note [e]).setIo io).note [.returned c true]).Inv := by
  have hlog : ((((s.note [.began c]).note [e]).setIo io).note [.returned c true]).log =
      s.log ++ ([.began c] ++ [e] ++ evs.map .io ++ [.returned c true]) := by
    unfold setIo note
    simp only
    rw [setConn_log (s := { s with log := s.log ++ [.began c] ++ [e] }) hf.trace]
    simp
  have hd := h.calls.not_done hc
  refine ⟨h.rest, ?_, ?_⟩
  · rw [hlog]
    exact h.calls.append (new_own hc hr evs)
  · have h1 : Logged s.conn.io (s.log ++ [.began c]) :=
      h.logged.append rfl rfl (by simp) (good_single hc)
    have hturn : InTurn (s.log ++ [.began c]) c :=
      ⟨by simp, fun hx => hd ((done_append.mp hx).resolve_right (by simp [Done, Entry.runs])),
        fun _ => ⟨s.log, rfl⟩, fun hne => absurd ht hne⟩
    have h2 := h1.flows hf (events_of_runs hr) hn (good_single (good_of_runs hr hturn))
    have h3 := h2.append (B := [.returned c true]) rfl rfl (by simp)
      (good_single ⟨by simp, fun _ _ => ⟨e, by simp, hr⟩⟩)
    rw [hlog]
    show Logged io _
    simpa using h3

/-- The functor of a call runs. -/
theorem run (h : s.Inv) {loop : EventLoop (Option (Task T)) T} (hrest : loop.RestInv)
    (hq : s.calls = c :: loop.queue.unrun.filterMap (Option.map Task.call)) (hr : e.runs = some c)
    (hf : s.conn.io.Flows evs (sent [e]) io)
    (hn : ∀ i, .sendInLoop i none ∈ [e] →
      (∀ b, .shutdownWrite b ∉ evs) ∧ (s.conn.io.Streaming → ¬ Clean io.trace)) :
    (({ s with loop := loop }.note [e]).setIo io).Inv := by
  have hlog : (({ s with loop := loop }.note [e]).setIo io).log = s.log ++ [e] ++ evs.map .io :=
    setConn_log (s := { s with log := s.log ++ [e] }) hf.trace
  have hcalls := h.calls
  rw [hq] at hcalls
  obtain ⟨hb, ht, hd⟩ := hcalls.queued c (by simp)
  have hturn : InTurn s.log c := by
    refine ⟨hb, hd, fun h => absurd h ht, fun _ i hbef => ?_⟩
    rcases hcalls.settled i hbef.mem_left with hi | hi
    · exact hi
    · rcases List.mem_cons.mp hi with rfl | hi
      · -- no call returns before it begins
        obtain ⟨pre, post, he, hm⟩ := before_iff.mp hbef
        obtain ⟨pre₁, post₁, rfl⟩ := List.append_of_mem hm
        have hret := h.logged.good pre₁ (.returned i true) (post₁ ++ .began i :: post) (by simp [he])
        exact absurd (List.mem_append_left _ hret.1) (h.logged.good _ _ post he)
      · exact absurd hbef ((List.pairwise_cons.mp hcalls.fifo).1 i hi).2
  refine ⟨hrest, ?_, ?_⟩
  · rw [hlog]
    exact (hcalls.run hr).append (new_io evs)
  · rw [hlog]
    exact h.logged.flows hf (events_of_runs hr) hn (good_single (good_of_runs hr hturn))

/-- A call that finds another state than `kConnected`. -/
theorem refuse [DecidableEq T] (h : s.Inv) (hc : .began c ∉ s.log) : (s.refuse c).Inv := by
  refine ⟨h.rest, h.calls.append ?_, ?_⟩
  · intro e he c' hc'
    have hcc : c' = c := by
      rcases List.mem_pair.mp he with rfl | rfl <;> exact (Option.some.inj hc').symm
    subst hcc
    exact ⟨hc, by simp, by simp⟩
  · refine h.logged.append rfl rfl (by simp) (.cons ?_ (.cons ?_ .nil))
    · rwa [Good, List.append_nil]
    · exact ⟨by simp, by simp⟩

/-- The connection goes on, without a call. -/
theorem setConn (h : s.Inv) {conn : Conn} (hf : s.conn.io.Flows evs [] conn.io) :
    (s.setConn conn).Inv := by
  have hlog := setConn_log hf.trace
  refine ⟨h.rest, ?_, ?_⟩
  · rw [hlog]
    exact h.calls.append (new_io evs)
  · rw [hlog]
    show Logged conn.io _
    simpa using h.logged.flows (B := []) hf rfl (by simp) .nil

end Inv

section Step

variable [DecidableEq T] {loop : EventLoop (Option (Task T)) T}

/-- The loop on its own leaves the calls in its queue where they are. -/
theorem calls_of_apart {l : EventLoop.Label (Option (Task T)) T} (hrest : s.loop.RestInv)
    (hl : s.Apart l) (hs : s.loop.step l = some loop) :
    loop.queue.unrun.filterMap (Option.map Task.call) = s.calls := by
  unfold calls
  cases EventLoop.move_of_step hs with
  | @foreignPush t task =>
    obtain rfl := Option.isNone_iff_eq_none.mp hl.2
    simp [EventLoop.push, TaskQueue.unrun]
  | @ownQueueInLoop task =>
    obtain rfl := Option.isNone_iff_eq_none.mp hl
    unfold EventLoop.queueInLoop
    simp only
    split <;> simp [EventLoop.push, EventLoop.wakeup, TaskQueue.unrun]
  | swap hpc =>
    have hr : s.loop.queue.rest = [] := by simpa [EventLoop.RestInv, hpc] using hrest
    simp only [TaskQueue.unrun_swap hr]
  | endFunctors _ hr => simp only [TaskQueue.unrun_finish hr]
  | runFunctor => exact hl.elim
  | _ => rfl

theorem calls_of_push {t : T} {task : Task T}
    (hs : s.loop.step (.foreignPush t (some task)) = some loop) :
    loop.queue.unrun.filterMap (Option.map Task.call) = s.calls ++ [task.call] := by
  cases EventLoop.move_of_step hs with
  | foreignPush => simp [calls, EventLoop.push, TaskQueue.unrun]

theorem calls_of_runFunctor {task : Option (Task T)} {rest : List (Option (Task T))}
    (hr : s.loop.queue.rest = task :: rest) (hs : s.loop.step .runFunctor = some loop) :
    s.calls = (task.map Task.call).toList ++
      loop.queue.unrun.filterMap (Option.map Task.call) := by
  cases EventLoop.move_of_step hs with
  | runFunctor hpc hr' =>
    unfold calls
    rw [TaskQueue.unrun_eq_cons hr]
    cases task <;> rfl

theorem Inv.setThread {t : T} {a : At T} (h : s.Inv)
    (hw : ∀ c, a.waiting = some c → .began c ∈ s.log ∧ c.id.thread = some t ∧ ¬ Done c s.log ∧
      c ∉ s.calls ∧ ∀ ok, .returned c ok ∉ s.log)
    (hr : ∀ c, a ≠ .returning c) : (s.setThread t a).Inv :=
  ⟨h.rest, h.calls.setThread hw fun c hc => absurd hc (hr c), h.logged⟩

/-- A call of another thread has found `kConnected`. -/
theorem Inv.begin {t : T} {a : At T} (h : s.Inv) (hc : .began c ∉ s.log)
    (ht : c.id.thread = some t) (ha : a.waiting = some c) :
    ((s.note [.began c]).setThread t a).Inv := by
  have hnew : New s.log [.began c] := by
    intro e he c' hc'
    obtain rfl := List.mem_singleton.mp he
    obtain rfl := Option.some.inj hc'
    exact ⟨hc, by simp, by simp⟩
  have hd := h.calls.not_done hc
  have h' : (s.note [.began c]).Inv :=
    ⟨h.rest, h.calls.append hnew, h.logged.append rfl rfl (by simp) (good_single hc)⟩
  refine h'.setThread (fun c' hc' => ?_) fun c' hc' => ?_
  · obtain rfl := Option.some.inj (ha.symm.trans hc')
    refine ⟨by simp [note], ht, fun hx => ?_, fun hq => hc (h.calls.queued c hq).1, fun ok hm => ?_⟩
    · exact hd ((done_append.mp hx).resolve_right (by simp [Done, Entry.runs]))
    · rcases List.mem_append.mp hm with hm | hm
      · exact hc (h.calls.began _ hm c rfl)
      · exact absurd hm (by simp)
  · rw [hc'] at ha
    cases ha

omit [DecidableEq T] in
/-- The entry of a `sendInLoop` and its events. -/
theorem flows_sendInLoop {i : CallId T} {f : SendFunctor} {mem : Memory} {env : SendEnv}
    (hio : s.conn.io.sendInLoopAt mem f env = some io) {put : Option (List UInt8)}
    (hput : put = (mem.read f.message f.len).filter fun bytes => io.wire = s.conn.io.wire ++ bytes) :
    ∃ evs, s.conn.io.Flows evs (sent [(.sendInLoop i put : Entry T)]) io ∧
      ∀ i', .sendInLoop i' none ∈ [(.sendInLoop i put : Entry T)] →
        (∀ b, .shutdownWrite b ∉ evs) ∧ (s.conn.io.Streaming → ¬ Clean io.trace) := by
  obtain ⟨evs, hf, hfin, htaken⟩ := Io.Flows.sendInLoopAt hio hput
  refine ⟨evs, by simpa [sent, Entry.bytes] using hf, fun i' hm => ⟨hfin, fun ho hcl => ?_⟩⟩
  have hsome := htaken ho hcl
  rw [List.mem_singleton, Entry.sendInLoop.injEq] at hm
  rw [← hm.2] at hsome
  cases hsome

omit [DecidableEq T] in
theorem Inv.runTask {mem : Memory} {env : SendEnv} {task : Option (Task T)} {s' : CallRun T}
    (h : s.Inv) (hrest : loop.RestInv)
    (hq : s.calls = (task.map Task.call).toList ++
      loop.queue.unrun.filterMap (Option.map Task.call))
    (hs : CallRun.runTask mem env { s with loop := loop } task = some s') : s'.Inv := by
  cases task with
  | none =>
    obtain rfl := Option.some.inj hs
    have hq' : { s with loop := loop }.calls = s.calls := hq.symm
    exact ⟨hrest, hq' ▸ h.calls, h.logged⟩
  | some task =>
    cases task with
    | sendInLoop i f =>
      obtain ⟨io, hio, rfl⟩ := Option.map_eq_some_iff.mp hs
      obtain ⟨evs, hf, hn⟩ := flows_sendInLoop (s := s) (i := i) hio rfl
      exact h.run hrest hq rfl hf hn
    | shutdownInLoop k =>
      obtain rfl := Option.some.inj hs
      obtain ⟨evs, hf⟩ := Io.Flows.shutdownInLoop s.conn.io
      exact h.run hrest hq rfl (by simpa [sent, Entry.bytes] using hf) (by simp)

theorem Inv.step {l : Label T} {s' : CallRun T} (h : s.Inv) (hs : s.step l = some s') : s'.Inv := by
  cases l with
  | loop l =>
    obtain ⟨hl, hs⟩ := Option.ite_none_right_eq_some.mp hs
    obtain ⟨loop, hst, rfl⟩ := Option.map_eq_some_iff.mp hs
    have hq : { s with loop := loop }.calls = s.calls := calls_of_apart h.rest hl hst
    exact ⟨EventLoop.restInv_step h.rest hst, hq ▸ h.calls, h.logged⟩
  | handler l =>
    obtain ⟨⟨-, hl⟩, hs⟩ := Option.ite_none_right_eq_some.mp hs
    obtain ⟨conn, hst, rfl⟩ := Option.map_eq_some_iff.mp hs
    obtain ⟨-, rfl⟩ := of_guard hst
    obtain ⟨evs, hf⟩ := hl.flows s.conn.io
    exact h.setConn hf
  | send i message mem env =>
    obtain ⟨⟨-, ht, hc⟩, hs⟩ := Option.ite_none_right_eq_some.mp hs
    split at hs
    next =>
      obtain ⟨s₁, hs₁, rfl⟩ := Option.map_eq_some_iff.mp hs
      obtain ⟨io, hio, rfl⟩ := Option.map_eq_some_iff.mp hs₁
      obtain ⟨evs, hf, hn⟩ := flows_sendInLoop (s := s) (i := i) hio rfl
      exact h.own ht hc rfl hf hn
    next =>
      obtain rfl := Option.some.inj hs
      exact h.refuse hc
  | shutdown k =>
    obtain ⟨⟨-, ht, hc⟩, rfl⟩ := of_guard hs
    split
    next hk =>
      obtain ⟨evs, hf⟩ := Io.Flows.shutdown hk
      exact h.own ht hc rfl (by simpa [sent, Entry.bytes] using hf) (by simp)
    next => exact h.refuse hc
  | foreignSend t i message =>
    obtain ⟨⟨-, -, ht, hc⟩, rfl⟩ := of_guard hs
    split
    next f _ => exact h.begin hc ht rfl
    next => exact h.refuse hc
  | foreignShutdown t k =>
    obtain ⟨⟨-, -, ht, hc⟩, rfl⟩ := of_guard hs
    split
    next => exact h.begin hc ht rfl
    next => exact h.refuse hc
  | storeDisconnecting t =>
    simp only [CallRun.step] at hs
    split at hs
    next k hk =>
      obtain rfl := Option.some.inj hs
      have hf : s.conn.io.Flows [] [] (s.conn.io.setState .kDisconnecting) := .setState (by simp)
      have h' : (s.setIo (s.conn.io.setState .kDisconnecting)).Inv := h.setConn hf
      refine h'.setThread (fun c hc => h'.calls.waiting t c ?_) (by simp)
      show (s.thread t).waiting = some c
      rwa [hk]
    next => cases hs
  | queueInLoop t =>
    simp only [CallRun.step] at hs
    split at hs
    next task ht =>
      obtain ⟨loop, hst, rfl⟩ := Option.map_eq_some_iff.mp hs
      refine ⟨EventLoop.restInv_step h.rest hst, ?_, h.logged⟩
      have hq : ({ s with loop := loop }.setThread t (.returning task.call)).calls =
        s.calls ++ [task.call] := calls_of_push hst
      rw [hq]
      exact h.calls.push (by rw [ht]; rfl)
    next => cases hs
  | wakeup t =>
    simp only [CallRun.step] at hs
    split at hs
    next c hc =>
      obtain ⟨loop, hst, rfl⟩ := Option.map_eq_some_iff.mp hs
      obtain ⟨hb, ht, -⟩ := h.calls.returning t c hc
      have hq : { s with loop := loop }.calls = s.calls := by
        cases EventLoop.move_of_step hst with
        | foreignWakeup => rfl
      refine ⟨EventLoop.restInv_step h.rest hst, ?_, ?_⟩
      · exact hq ▸ h.calls.ret hc
      · exact h.logged.append rfl rfl (by simp) (good_single ⟨hb, fun _ hn => absurd hn ht⟩)
    next => cases hs
  | runFunctor mem env =>
    simp only [CallRun.step] at hs
    split at hs
    next => cases hs
    next task rest hr =>
      obtain ⟨loop, hst, hs⟩ := Option.bind_eq_some_iff.mp hs
      exact h.runTask (EventLoop.restInv_step h.rest hst) (calls_of_runFunctor hr hst) hs

theorem inv_of_reach (h : sys.Reach (fun _ _ => True) s) : s.Inv := by
  refine h.invariant (fun s hi => ?_) (fun s l s' hI _ hs => hI.step hs)
  obtain ⟨hconn, hloop, hth, hlog⟩ := hi
  have hq : s.calls = [] := by simp [calls, hloop, EventLoop.new, TaskQueue.unrun, TaskQueue.empty]
  have hstream := Conn.streamInv_of_reach (.init hconn)
  obtain ⟨⟨this, fd, wc, hw, hc⟩, -, -, -, ht, -⟩ := hconn
  refine ⟨by simp [EventLoop.RestInv, hloop, EventLoop.new, TaskQueue.empty], ?_, ?_⟩
  · rw [hq, hlog]
    exact ⟨by simp, by simp [hth, At.waiting], by simp [hth], by simp, by simp, .nil⟩
  · rw [hlog]
    refine ⟨ht, ?_, fun _ => ⟨?_, hstream⟩, by simp, .nil⟩
    · rw [Io.wire, ht, hc]
      simp [TcpConnection.new, sent]
    · rw [hc]
      simp [TcpConnection.new]

end Step

end CallRun

end Mymuduo
