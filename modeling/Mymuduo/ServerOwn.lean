import Mathlib.Algebra.Group.Int.Defs
import Mymuduo.TcpServer

/-!
# Mymuduo.ServerOwn — who keeps a connection alive

`Own` relates the table, the queues and the past of every connection.  A connection that has not been
destroyed is held by one of three: by its entry in `connections`, by a queued `removeConnectionInLoop`,
or by its queued `connectDestroyed`, which is first pending and then in the rest of a batch
(`Own.held`).

`Own` holds in all runs in which fewer than `2 ^ 31` connections are accepted (`Own.step`): the names
of the connections are then different (`Config.connName_injOn`).
-/

namespace Mymuduo

open Lib

/-! ### Names -/

namespace Config

variable {cfg : Config}

theorem decimal_natCast (n : ℕ) : decimal n = Nat.toDigits 10 n := if_pos (Int.natCast_nonneg n)

theorem decimal_of_neg {n : ℤ} (h : n < 0) : decimal n = '-' :: Nat.toDigits 10 n.natAbs :=
  if_neg (not_le.mpr h)

theorem toDigits_inj {m n : ℕ} (h : Nat.toDigits 10 m = Nat.toDigits 10 n) : m = n := by
  have h' := congrArg (fun l => Nat.ofDigitChars 10 l 0) h
  simpa [Nat.ofDigitChars_toDigits] using h'

/-- No text of digits begins with a minus sign. -/
theorem toDigits_ne_minus (n : ℕ) (l : List Char) : Nat.toDigits 10 n ≠ '-' :: l := by
  intro h
  have hm : '-' ∈ Nat.toDigits 10 n := h ▸ List.mem_cons_self
  have hd := Nat.isDigit_of_mem_toDigits (by decide) (by decide) hm
  exact absurd hd (by decide)

theorem decimal_inj {m n : ℤ} (h : decimal m = decimal n) : m = n := by
  by_cases hm : m < 0
  · by_cases hn : n < 0
    · rw [decimal_of_neg hm, decimal_of_neg hn] at h
      have := toDigits_inj (List.cons.inj h).2
      omega
    · obtain ⟨n, rfl⟩ := Int.eq_ofNat_of_zero_le (not_lt.mp hn)
      rw [decimal_of_neg hm, decimal_natCast] at h
      exact absurd h.symm (toDigits_ne_minus _ _)
  · obtain ⟨m, rfl⟩ := Int.eq_ofNat_of_zero_le (not_lt.mp hm)
    by_cases hn : n < 0
    · rw [decimal_natCast, decimal_of_neg hn] at h
      exact absurd h (toDigits_ne_minus _ _)
    · obtain ⟨n, rfl⟩ := Int.eq_ofNat_of_zero_le (not_lt.mp hn)
      rw [decimal_natCast, decimal_natCast] at h
      rw [toDigits_inj h]

/-- The values of a 32-bit `int`. -/
def IsInt (n : ℤ) : Prop := -2 ^ 31 ≤ n ∧ n < 2 ^ 31

theorem length_decimal {n : ℤ} (h : IsInt n) : (decimal n).length ≤ 11 := by
  obtain ⟨hlo, hhi⟩ := h
  have hdigits : ∀ m : ℕ, m < 10 ^ 10 → (Nat.toDigits 10 m).length ≤ 10 := fun m hm =>
    (Nat.length_toDigits_le_iff (by decide) (by decide)).mpr hm
  by_cases hn : n < 0
  · rw [decimal_of_neg hn, List.length_cons]
    exact Nat.succ_le_succ (hdigits _ (by omega))
  · obtain ⟨n, rfl⟩ := Int.eq_ofNat_of_zero_le (not_lt.mp hn)
    rw [decimal_natCast]
    exact (hdigits n (by omega)).trans (by decide)

/-- The text of any `int` fits the buffer. -/
theorem connName_eq {n : ℤ} (h : IsInt n) :
    cfg.connName n = cfg.name ++ ('-' :: cfg.ipPort ++ '#' :: decimal n) := by
  have h1 := cfg.ipPort_length
  have h2 := length_decimal h
  unfold connName
  rw [List.take_of_length_le]
  simp only [List.length_append, List.length_cons]
  omega

/-- Different `int`s give different names. -/
theorem connName_inj {m n : ℤ} (hm : IsInt m) (hn : IsInt n) (h : cfg.connName m = cfg.connName n) :
    m = n := by
  rw [connName_eq hm, connName_eq hn] at h
  exact decimal_inj (List.cons.inj (List.append_cancel_left (List.append_cancel_left h))).2

theorem connName_injOn {m n : ℕ} (hm : m < 2 ^ 31) (hn : n < 2 ^ 31)
    (h : cfg.connName m = cfg.connName n) : m = n :=
  Int.natCast_inj.mp (connName_inj ⟨by omega, by omega⟩ ⟨by omega, by omega⟩ h)

end Config

/-- A property of the values of a map, when one of them has been replaced. -/
theorem forall_update {ι β : Type*} [DecidableEq ι] {f : ι → β} {i : ι} {b : β} {P : ι → β → Prop}
    (hb : P i b) (hf : ∀ j, P j (f j)) : ∀ j, P j (Function.update f i b j) :=
  (Function.forall_update_iff f P).mpr ⟨hb, fun j _ => hf j⟩

/-! ### The invariant -/

namespace TcpServer

variable (cfg : Config)

/-- The loop a functor is queued in. -/
def home (s : TcpServer) : Functor → LoopId
  | .removeConnectionInLoop _ => 0
  | f => s.loopOf f.conn

/-- The table and the names. -/
structure Named (s : TcpServer) : Prop where
  small : s.accepted < 2 ^ 31
  id : s.accepted + 1 < 2 ^ 31 → s.nextConnId = (s.accepted + 1 : ℕ)
  name : ∀ c < s.accepted, s.nameOf c = cfg.connName (c + 1 : ℕ)
  entry : ∀ nm c, s.connections nm = some c → c < s.accepted ∧ nm = s.nameOf c
  next : cfg.numThreads ≠ 0 → s.nextLoop < cfg.numThreads
  loop : ∀ c < s.accepted, s.loopOf c ≤ cfg.numThreads

/-- What waits in the loops belongs to connections that exist, and to the loop it waits in. -/
structure Routed (s : TcpServer) : Prop where
  queued : ∀ l, ∀ f ∈ (s.queue l).held, f.conn < s.accepted ∧ s.home f = l
  reaction : ∀ l, ∀ x ∈ s.reactions l, x.1 < s.accepted
  batch : ∀ l, s.phase l = .poll ∨ s.phase l = .dispatch → (s.queue l).batch = []
  active : ∀ l, s.phase l ≠ .dispatch → s.active l = []
  worker : ∀ t c, (s.worker t).conn = some c → c < s.accepted
  fresh : ∀ c, s.accepted ≤ c → s.established c = false ∧ s.destroying c = false ∧
    s.destroyed c = false

/-- Who keeps a connection that has not been destroyed. -/
structure Kept (s : TcpServer) : Prop where
  keep : ∀ c < s.accepted, s.destroying c = false → s.connections (s.nameOf c) = some c ∨
    .removeConnectionInLoop c ∈ (s.queue 0).unrun ∨
    .connectDestroyed c ∈ (s.queue (s.loopOf c)).pending
  last : ∀ c < s.accepted, s.destroying c = true → s.destroyed c = false →
    .connectDestroyed c ∈ (s.queue (s.loopOf c)).rest

structure Own (s : TcpServer) : Prop extends Named cfg s, Routed s, Kept s

variable {cfg} {s : TcpServer} {l : LoopId} {c : ConnId}

/-- Names are different. -/
theorem Named.name_inj (h : Named cfg s) {c c' : ConnId} (hc : c < s.accepted)
    (hc' : c' < s.accepted) (he : s.nameOf c = s.nameOf c') : c = c' := by
  rw [h.name c hc, h.name c' hc'] at he
  exact Nat.succ.inj (Config.connName_injOn (Nat.lt_of_le_of_lt hc h.small)
    (Nat.lt_of_le_of_lt hc' h.small) he)

/-- The next name is new. -/
theorem Named.name_new (h : Named cfg s) (hb : s.accepted + 1 < 2 ^ 31) {c : ConnId}
    (hc : c < s.accepted) : s.nameOf c ≠ cfg.connName s.nextConnId := by
  rw [h.name c hc, h.id hb]
  intro he
  exact hc.ne (Nat.succ.inj (Config.connName_injOn (Nat.lt_of_le_of_lt hc h.small) hb he))

theorem Named.home_le (h : Named cfg s) {f : Functor} (hf : f.conn < s.accepted) :
    s.home f ≤ cfg.numThreads := by
  cases f with
  | removeConnectionInLoop c => exact Nat.zero_le _
  | _ => exact h.loop _ hf

/-- A pointer that is bound into a functor counts. -/
theorem Own.held_of_queued (h : Own cfg s) {f : Functor} (hf : f ∈ (s.queue l).held)
    (ho : f.owns = true) : s.Held cfg f.conn := by
  obtain ⟨hc, rfl⟩ := h.queued l f hf
  exact .inr (.inl ⟨_, h.home_le hc, f, hf, ho, rfl⟩)

theorem Own.held_of_not_destroying (h : Own cfg s) (hc : c < s.accepted)
    (hd : s.destroying c = false) : s.Held cfg c := by
  rcases h.keep c hc hd with hm | hq | hq
  · exact .inl hm
  · exact h.held_of_queued (TaskQueue.held_of_unrun hq) rfl
  · exact h.held_of_queued (TaskQueue.mem_held.mpr (.inr hq)) rfl

/-- **A connection that has not been destroyed is held.** -/
theorem Own.held (h : Own cfg s) (hc : c < s.accepted) (hd : s.destroyed c = false) :
    s.Held cfg c := by
  cases hing : s.destroying c with
  | true =>
    have hr := h.last c hc hing hd
    exact h.held_of_queued (TaskQueue.held_of_unrun (TaskQueue.mem_unrun.mpr (.inl hr))) rfl
  | false => exact h.held_of_not_destroying hc hing

/-- The rest of a batch is empty where the batch is. -/
theorem Routed.rest (h : Routed s) (hp : s.phase l = .poll ∨ s.phase l = .dispatch) :
    (s.queue l).rest = [] :=
  List.suffix_nil.mp (h.batch l hp ▸ (s.queue l).suffix)

/-! ### Queues -/

@[simp] theorem queue_setQueue (s : TcpServer) (l : LoopId) (q : TaskQueue Functor) :
    (s.setQueue l q).queue l = q := Function.update_self ..

theorem queue_setQueue_of_ne (s : TcpServer) {l l' : LoopId} (q : TaskQueue Functor) (hl : l' ≠ l) :
    (s.setQueue l q).queue l' = s.queue l' := Function.update_of_ne hl ..

/-- A property of the queues, when one of them has been replaced. -/
theorem forall_setQueue {P : LoopId → TaskQueue Functor → Prop} {q : TaskQueue Functor} (hq : P l q)
    (h : ∀ l', P l' (s.queue l')) (l' : LoopId) : P l' ((s.setQueue l q).queue l') :=
  forall_update hq h l'

theorem mem_unrun_push {l l' : LoopId} {f g : Functor} :
    g ∈ ((s.push l f).queue l').unrun → g ∈ (s.queue l').unrun ∨ g = f :=
  forall_setQueue (P := fun l' q => g ∈ q.unrun → g ∈ (s.queue l').unrun ∨ g = f)
    TaskQueue.mem_unrun_push.mp (fun _ => .inl) l'

theorem mem_held_push {l l' : LoopId} {f g : Functor} :
    g ∈ ((s.push l f).queue l').held → g ∈ (s.queue l').held ∨ g = f :=
  forall_setQueue (P := fun l' q => g ∈ q.held → g ∈ (s.queue l').held ∨ g = f)
    TaskQueue.mem_held_push.mp (fun _ => .inl) l'

/-- What another queue in the loop `l` has to keep. -/
structure QueueStep (s : TcpServer) (l : LoopId) (q : TaskQueue Functor) : Prop where
  queued : ∀ f ∈ q.held, f.conn < s.accepted ∧ s.home f = l
  batch : s.phase l = .poll ∨ s.phase l = .dispatch → q.batch = []
  removal : ∀ c, .removeConnectionInLoop c ∈ (s.queue l).unrun →
    .removeConnectionInLoop c ∈ q.unrun ∨ .connectDestroyed c ∈ (s.queue (s.loopOf c)).pending
  pending : ∀ f ∈ (s.queue l).pending, f ∈ q.pending
  rest : ∀ c, .connectDestroyed c ∈ (s.queue l).rest → s.destroyed c = false →
    .connectDestroyed c ∈ q.rest

theorem Own.setQueue (h : Own cfg s) {q : TaskQueue Functor} (hq : QueueStep s l q) :
    Own cfg (s.setQueue l q) := by
  have hqueued := forall_setQueue (P := fun l' q => ∀ f ∈ q.held, f.conn < s.accepted ∧ s.home f = l')
    hq.queued h.queued
  have hbatch := forall_setQueue
    (P := fun l' q => s.phase l' = .poll ∨ s.phase l' = .dispatch → q.batch = []) hq.batch h.batch
  have hpending := forall_setQueue (P := fun l' q => ∀ f ∈ (s.queue l').pending, f ∈ q.pending)
    hq.pending fun _ _ hf => hf
  have hremoval := forall_setQueue (P := fun l' q => ∀ c,
      .removeConnectionInLoop c ∈ (s.queue l').unrun → .removeConnectionInLoop c ∈ q.unrun ∨
        .connectDestroyed c ∈ (s.queue (s.loopOf c)).pending)
    hq.removal fun _ _ hm => .inl hm
  have hrest := forall_setQueue (P := fun l' q => ∀ c, .connectDestroyed c ∈ (s.queue l').rest →
      s.destroyed c = false → .connectDestroyed c ∈ q.rest)
    hq.rest fun _ _ hm _ => hm
  refine ⟨{ h.toNamed with }, { h.toRouted with queued := hqueued, batch := hbatch },
    fun c hc hing => ?_, fun c hc hing hnd => hrest _ c (h.last c hc hing hnd) hnd⟩
  rcases h.keep c hc hing with he | hu | hp
  · exact .inl he
  · exact .inr ((hremoval 0 c hu).imp_right (hpending _ _))
  · exact .inr (.inr (hpending _ _ hp))

/-- Queueing a functor where it belongs. -/
theorem Own.push (h : Own cfg s) {f : Functor} (hc : f.conn < s.accepted) :
    Own cfg (s.push (s.home f) f) := by
  refine h.setQueue ⟨fun g hg => ?_, h.batch _, fun c hu => ?_, fun g hg => ?_, fun c hm _ => hm⟩
  · rcases TaskQueue.mem_held_push.mp hg with hg | rfl
    · exact h.queued _ g hg
    · exact ⟨hc, rfl⟩
  · exact .inl (TaskQueue.mem_unrun_push.mpr (.inl hu))
  · exact List.mem_append_left _ hg

theorem mem_pending_removeConnectionInLoop (s : TcpServer) (c : ConnId) :
    .connectDestroyed c ∈ ((s.removeConnectionInLoop c).queue (s.loopOf c)).pending := by
  simp [TcpServer.removeConnectionInLoop, TcpServer.push]

/-- Taking the entry of a connection away and queueing its `connectDestroyed` instead. -/
theorem Own.removeConnectionInLoop (h : Own cfg s) (hc : c < s.accepted) :
    Own cfg (s.removeConnectionInLoop c) := by
  have hne : ∀ c' < s.accepted, c' ≠ c → s.nameOf c' ≠ s.nameOf c := fun c' hc' hn he =>
    hn (h.name_inj hc' hc he)
  have hp := h.push (f := .connectDestroyed c) hc
  refine ⟨{ hp.toNamed with entry := fun nm c' he => ?_ }, { hp.toRouted with },
    { hp.toKept with keep := fun c' hc' hd => ?_ }⟩
  · change Function.update s.connections (s.nameOf c) none nm = some c' at he
    by_cases hn : nm = s.nameOf c
    · simp [hn] at he
    · exact h.entry nm c' (by simpa [hn] using he)
  · by_cases hn : c' = c
    · subst hn
      exact .inr (.inr (mem_pending_removeConnectionInLoop s c'))
    · refine (hp.keep c' hc' hd).imp_left fun he => ?_
      exact (Function.update_of_ne (hne c' hc' hn) _ _).trans he

/-! ### Member functions of a connection -/

theorem Own.setReactions (h : Own cfg s) (todo : List (ConnId × Event))
    (hx : ∀ x ∈ todo, x.1 < s.accepted) : Own cfg (s.setReactions l todo) := by
  have hre : ∀ l', ∀ x ∈ (s.setReactions l todo).reactions l', x.1 < s.accepted :=
    forall_update (P := fun _ (todo : List (ConnId × Event)) => ∀ x ∈ todo, x.1 < s.accepted) hx
      h.reaction
  exact ⟨{ h.toNamed with }, { h.toRouted with reaction := hre }, { h.toKept with }⟩

theorem Own.onConn (h : Own cfg s) (hc : c < s.accepted) (l : LoopId) (f : Io → Io) :
    Own cfg (s.onConn l c f) := by
  have h1 : Own cfg (s.setIo c (f (s.io c))) :=
    ⟨{ h.toNamed with }, { h.toRouted with }, { h.toKept with }⟩
  refine h1.setReactions _ fun x hx => ?_
  obtain ⟨e, -, rfl⟩ := List.mem_map.mp hx
  exact hc

theorem Own.connectEstablished (h : Own cfg s) (hc : c < s.accepted) (l : LoopId)
    (acts : List UserAct) : Own cfg (s.connectEstablished l c acts) := by
  have h1 := h.onConn hc l (Io.connectEstablished acts)
  refine ⟨{ h1.toNamed with }, { h1.toRouted with fresh := fun c' hc' => ?_ }, { h1.toKept with }⟩
  have hne : c' ≠ c := fun he => Nat.not_le.mpr hc (he ▸ hc')
  exact ⟨(Function.update_of_ne hne ..).trans (h.fresh c' hc').1, (h.fresh c' hc').2⟩

theorem Own.connectDestroyed (h : Own cfg s) (hc : c < s.accepted) (l : LoopId)
    (acts : List UserAct) : Own cfg (s.connectDestroyed l c acts) := by
  have h1 := h.onConn hc l (Io.connectDestroyed acts)
  refine ⟨{ h1.toNamed with }, { h1.toRouted with fresh := fun c' hc' => ?_ },
    { h1.toKept with last := fun c' hc' hing hd => ?_ }⟩
  · have hne : c' ≠ c := fun he => Nat.not_le.mpr hc (he ▸ hc')
    obtain ⟨he, hg, hd⟩ := h.fresh c' hc'
    exact ⟨he, hg, (Function.update_of_ne hne ..).trans hd⟩
  · change Function.update s.destroyed c true c' = false at hd
    have hne : c' ≠ c := by
      rintro rfl
      simp at hd
    exact h.last c' hc' hing (by simpa [hne] using hd)

/-- What a member function has left to do. -/
theorem Own.react (h : Own cfg s) (hc : c < s.accepted) (l : LoopId) (e : Event) :
    Own cfg (s.react l c e) := by
  cases e with
  | closeCallback =>
    simp only [TcpServer.react, removeConnection]
    split
    · exact h.removeConnectionInLoop hc
    · exact h.push (f := .removeConnectionInLoop c) hc
  | writeComplete => exact h.push (f := .writeComplete c) hc
  | highWaterMark size => exact h.push (f := .highWaterMark c size) hc
  | _ => exact h

/-! ### A new connection -/

theorem getNextLoop_le (h : Named cfg s) : (s.getNextLoop cfg).1 ≤ cfg.numThreads := by
  unfold getNextLoop
  split
  · exact Nat.zero_le _
  next hn => exact h.next hn

theorem getNextLoop_next (hn : cfg.numThreads ≠ 0) :
    (s.getNextLoop cfg).2 < cfg.numThreads := by
  unfold getNextLoop
  rw [if_neg hn]
  simp only
  split
  · exact Nat.pos_of_ne_zero hn
  next hlt => exact Nat.not_le.mp hlt

theorem incrInt_of_lt {n : ℕ} (h : n + 1 < 2 ^ 31) : incrInt n = (n + 1 : ℕ) := by
  unfold incrInt
  rw [if_neg (by omega)]
  push_cast
  rfl

theorem Own.createConnection (h : Own cfg s) (hb : s.accepted + 1 < 2 ^ 31) (fd : ℕ)
    (highWater : Option ℕ) : Own cfg (s.createConnection cfg fd highWater) := by
  have hne : ∀ c < s.accepted, c ≠ s.accepted := fun c hc => hc.ne
  have hname : ∀ c < s.accepted,
      (s.createConnection cfg fd highWater).nameOf c = s.nameOf c := fun c hc =>
    Function.update_of_ne (hne c hc) ..
  have hloop : ∀ c < s.accepted,
      (s.createConnection cfg fd highWater).loopOf c = s.loopOf c := fun c hc =>
    Function.update_of_ne (hne c hc) ..
  have hnew : (s.createConnection cfg fd highWater).nameOf s.accepted =
      cfg.connName s.nextConnId := Function.update_self ..
  have hnewLoop : (s.createConnection cfg fd highWater).loopOf s.accepted =
      (s.getNextLoop cfg).1 := Function.update_self ..
  have hcases : ∀ {c}, c < s.accepted + 1 → c < s.accepted ∨ c = s.accepted := fun hc =>
    Nat.lt_or_eq_of_le (Nat.le_of_lt_succ hc)
  refine ⟨⟨hb, fun hb' => ?_, fun c hc => ?_, fun nm c he => ?_, getNextLoop_next,
    fun c hc => ?_⟩, ⟨fun l f hf => ?_, fun l x hx => ?_, h.batch, h.active,
    fun t c hw => Nat.lt_succ_of_lt (h.worker t c hw), fun c hc => h.fresh c (Nat.le_of_succ_le hc)⟩,
    fun c hc hd => ?_, fun c hc hing hd => ?_⟩
  · exact (congrArg incrInt (h.id hb)).trans (incrInt_of_lt hb')
  · rcases hcases hc with hc | rfl
    · rw [hname c hc, h.name c hc]
    · rw [hnew, h.id hb]
  · change Function.update s.connections (cfg.connName s.nextConnId) (some s.accepted) nm = some c
      at he
    by_cases hn : nm = cfg.connName s.nextConnId
    · subst hn
      rw [Function.update_self, Option.some.injEq] at he
      exact ⟨he ▸ Nat.lt_succ_self _, he ▸ hnew.symm⟩
    · rw [Function.update_of_ne hn] at he
      obtain ⟨hc, hnm⟩ := h.entry nm c he
      exact ⟨Nat.lt_succ_of_lt hc, hnm.trans (hname c hc).symm⟩
  · rcases hcases hc with hc | rfl
    · exact (hloop c hc).symm ▸ h.loop c hc
    · exact hnewLoop.symm ▸ getNextLoop_le h.toNamed
  · obtain ⟨hc, hl⟩ := h.queued l f hf
    refine ⟨Nat.lt_succ_of_lt hc, ?_⟩
    cases f with
    | removeConnectionInLoop c => exact hl
    | _ => exact (hloop _ hc).trans hl
  · exact Nat.lt_succ_of_lt (h.reaction l x hx)
  · rcases hcases hc with hc | rfl
    · rw [hname c hc, hloop c hc]
      refine (h.keep c hc hd).imp_left fun he => ?_
      exact (Function.update_of_ne (h.name_new hb hc) ..).trans he
    · exact .inl (hnew ▸ Function.update_self ..)
  · rcases hcases hc with hc | rfl
    · exact hloop c hc ▸ h.last c hc hing hd
    · exact absurd hing (by simp [show (s.createConnection cfg fd highWater).destroying =
        s.destroying from rfl, (h.fresh _ le_rfl).2.1])

theorem Own.newConnection (h : Own cfg s) (hb : s.accepted + 1 < 2 ^ 31) (fd : ℕ)
    (highWater : Option ℕ) (acts : List UserAct) :
    Own cfg (s.newConnection cfg fd highWater acts) := by
  have h1 := h.createConnection hb fd highWater
  have hc : s.accepted < (s.createConnection cfg fd highWater).accepted := Nat.lt_succ_self _
  have hl : (s.createConnection cfg fd highWater).loopOf s.accepted = (s.getNextLoop cfg).1 :=
    Function.update_self ..
  unfold TcpServer.newConnection
  simp only
  split
  next h0 => exact h1.connectEstablished hc 0 acts
  next => exact hl ▸ h1.push (f := .connectEstablished s.accepted) hc

/-! ### The loop -/

@[simp] theorem phase_setPhase (s : TcpServer) (l : LoopId) (p : Phase) :
    (s.setPhase l p).phase l = p := Function.update_self ..

theorem phase_setPhase_of_ne (s : TcpServer) {l l' : LoopId} (p : Phase) (hl : l' ≠ l) :
    (s.setPhase l p).phase l' = s.phase l' := Function.update_of_ne hl ..

theorem Own.setPhase (h : Own cfg s) {p : Phase}
    (hb : p = .poll ∨ p = .dispatch → (s.queue l).batch = [])
    (ha : p ≠ .dispatch → s.active l = []) : Own cfg (s.setPhase l p) := by
  have hbatch : ∀ l', (s.setPhase l p).phase l' = .poll ∨ (s.setPhase l p).phase l' = .dispatch →
      (s.queue l').batch = [] :=
    forall_update (P := fun l' (p : Phase) => p = .poll ∨ p = .dispatch → (s.queue l').batch = []) hb
      h.batch
  have hactive : ∀ l', (s.setPhase l p).phase l' ≠ .dispatch → s.active l' = [] :=
    forall_update (P := fun l' (p : Phase) => p ≠ .dispatch → s.active l' = []) ha h.active
  exact ⟨{ h.toNamed with }, { h.toRouted with batch := hbatch, active := hactive },
    { h.toKept with }⟩

/-- The list of active channels of a loop that dispatches. -/
theorem Own.setActive (h : Own cfg s) (hp : s.phase l = .dispatch) (active : List ChannelPtr) :
    Own cfg (s.setActive l active) := by
  have hactive : ∀ l', s.phase l' ≠ .dispatch → (s.setActive l active).active l' = [] :=
    forall_update (P := fun l' (active : List ChannelPtr) => s.phase l' ≠ .dispatch → active = [])
      (fun hn => absurd hp hn) h.active
  exact ⟨{ h.toNamed with }, { h.toRouted with active := hactive }, { h.toKept with }⟩

/-- The server after `set_revents` on some of its connections. -/
def reported (r : ConnId → Events) (s : TcpServer) : TcpServer :=
  { s with conn := fun c => { s.conn c with channel := { (s.conn c).channel with revents := r c } } }

theorem foldl_setRevents (p : EPollerPoller) (reports : List (ℕ × Events)) (s : TcpServer) :
    ∃ r, reports.foldl (setRevents p) s = s.reported r := by
  have h1 : ∀ s x, ∃ r, setRevents p s x = s.reported r := by
    intro s x
    unfold setRevents
    split
    next c _ =>
      refine ⟨Function.update (fun c' => (s.conn c').channel.revents) c x.2, ?_⟩
      refine congrArg (fun conn => { s with conn := conn }) (funext fun c' => ?_)
      by_cases hc : c' = c
      · subst hc
        simp
      · simp [hc]
    next => exact ⟨fun c => (s.conn c).channel.revents, rfl⟩
  induction reports generalizing s with
  | nil => exact ⟨fun c => (s.conn c).channel.revents, rfl⟩
  | cons x reports ih =>
    obtain ⟨r, hr⟩ := h1 s x
    obtain ⟨r', hr'⟩ := ih (s.reported r)
    exact ⟨r', by rw [List.foldl_cons, hr, hr']; rfl⟩

/-- A poll sets `revents` and makes channels active. -/
theorem fillActiveChannels_eq (s : TcpServer) (l : LoopId) (reports : List (ℕ × Events)) :
    ∃ r, s.fillActiveChannels l reports =
      (s.reported r).setActive l (reports.filterMap fun x => ((s.poller l).epoll x.1).map Prod.snd) := by
  obtain ⟨r, hr⟩ := foldl_setRevents (s.poller l) reports s
  refine ⟨r, ?_⟩
  unfold fillActiveChannels
  rw [hr]
  rfl

theorem Own.poll (h : Own cfg s) (hp : s.phase l = .poll) (reports : List (ℕ × Events)) :
    Own cfg ((s.fillActiveChannels l reports).setPhase l .dispatch) := by
  obtain ⟨r, hr⟩ := fillActiveChannels_eq s l reports
  have h1 : Own cfg (s.reported r) := ⟨{ h.toNamed with }, { h.toRouted with }, { h.toKept with }⟩
  have h2 : Own cfg ((s.reported r).setPhase l .dispatch) :=
    h1.setPhase (fun _ => h.batch l (.inl hp)) fun hn => absurd rfl hn
  rw [hr]
  exact h2.setActive (phase_setPhase _ l _) _

theorem Own.swapFunctors (h : Own cfg s) (hp : s.phase l = .functors) (hrest : (s.queue l).rest = []) :
    Own cfg (s.swapFunctors l) := by
  have hq : (s.swapFunctors l).queue l = (s.queue l).swap := queue_setQueue s l _
  have hq' : ∀ l', l' ≠ l → (s.swapFunctors l).queue l' = s.queue l' := fun l' hl =>
    queue_setQueue_of_ne s _ hl
  have hheld := forall_setQueue (l := l) (q := (s.queue l).swap)
    (P := fun l' q => ∀ f ∈ q.held, f ∈ (s.queue l').held)
    (fun f hf => TaskQueue.mem_held.mpr (.inr (TaskQueue.mem_held_swap.mp hf))) fun _ _ hf => hf
  have hbatch := forall_setQueue (l := l) (q := (s.queue l).swap)
    (P := fun l' q => s.phase l' = .poll ∨ s.phase l' = .dispatch → q.batch = [])
    (by simp [hp]) h.batch
  have hunrun := forall_setQueue (l := l) (q := (s.queue l).swap)
    (P := fun l' q => q.unrun = (s.queue l').unrun) (TaskQueue.unrun_swap hrest) fun _ => rfl
  refine ⟨{ h.toNamed with }, { h.toRouted with
    queued := fun l' f hf => h.queued l' f (hheld l' f hf), batch := hbatch,
    fresh := fun c hc => ?_ }, fun c hc hd => ?_, fun c hc hing hd => ?_⟩
  · obtain ⟨he, hg, hd⟩ := h.fresh c hc
    refine ⟨he, Bool.or_eq_false_iff.mpr ⟨hg, decide_eq_false fun hm => ?_⟩, hd⟩
    exact Nat.not_le.mpr (h.queued l _ (TaskQueue.mem_held.mpr (.inr hm))).1 hc
  · obtain ⟨hg, hm⟩ := Bool.or_eq_false_iff.mp hd
    have hm := of_decide_eq_false hm
    rcases h.keep c hc hg with he | hr | hpend
    · exact .inl he
    · exact .inr (.inl ((hunrun 0).symm ▸ hr))
    · have hl : s.loopOf c ≠ l := fun he => hm (he ▸ hpend)
      exact .inr (.inr ((congrArg TaskQueue.pending (hq' _ hl)).symm ▸ hpend))
  · have hmem : .connectDestroyed c ∈ (s.queue (s.loopOf c)).rest ∨
        .connectDestroyed c ∈ (s.queue l).pending := by
      rcases Bool.or_eq_true_iff.mp hing with hg | hm
      · exact .inl (h.last c hc hg hd)
      · exact .inr (of_decide_eq_true hm)
    rcases hmem with hm | hm
    · have hl : s.loopOf c ≠ l := by
        rintro rfl
        simp [hrest] at hm
      exact (congrArg TaskQueue.rest (hq' _ hl)).symm ▸ hm
    · have hl : s.loopOf c = l := (h.queued l _ (TaskQueue.mem_held.mpr (.inr hm))).2
      subst hl
      exact (congrArg TaskQueue.rest hq).symm ▸ hm

theorem Own.doPendingFunctors (h : Own cfg s) (hp : s.phase l = .dispatch) (ha : s.active l = []) :
    Own cfg ((s.swapFunctors l).setPhase l .functors) := by
  have h1 : Own cfg (s.setPhase l .functors) := h.setPhase (by simp) fun _ => ha
  exact h1.swapFunctors (phase_setPhase s l _) (h.rest (.inr hp))

theorem Own.callFunctor (h : Own cfg s) {f : Functor} (hc : f.conn < s.accepted) (l : LoopId)
    (env : FunctorEnv) : Own cfg (s.callFunctor l env f) := by
  cases f with
  | connectEstablished c => exact h.connectEstablished hc l env.acts
  | connectDestroyed c => exact h.connectDestroyed hc l env.acts
  | removeConnectionInLoop c => exact h.removeConnectionInLoop hc
  | writeComplete c => exact h.onConn hc l _
  | highWaterMark c size => exact h.onConn hc l _
  | sendInLoop c => exact h.onConn hc l _
  | shutdownInLoop c => exact h.onConn hc l _

theorem phase_callFunctor (s : TcpServer) (l : LoopId) (env : FunctorEnv) (f : Functor) :
    (s.callFunctor l env f).phase = s.phase := by
  cases f <;> rfl

/-- A functor leaves the batch it belongs to as it is. -/
theorem batch_callFunctor (s : TcpServer) (l l' : LoopId) (env : FunctorEnv) (f : Functor) :
    ((s.callFunctor l env f).queue l').rest = (s.queue l').rest ∧
    ((s.callFunctor l env f).queue l').batch = (s.queue l').batch := by
  cases f with
  | removeConnectionInLoop c =>
    simp only [TcpServer.callFunctor, TcpServer.removeConnectionInLoop, TcpServer.push]
    by_cases hl : l' = s.loopOf c
    · subst hl
      simp
    · rw [queue_setQueue_of_ne _ _ hl]
      exact ⟨rfl, rfl⟩
  | _ => exact ⟨rfl, rfl⟩

/-- The functor `f` has been called: what kept its connection as a task keeps it otherwise. -/
structure Done (s : TcpServer) (f : Functor) : Prop where
  removed : ∀ c, f = .removeConnectionInLoop c →
    .connectDestroyed c ∈ (s.queue (s.loopOf c)).pending
  destroyed : ∀ c, f = .connectDestroyed c → s.destroyed c = true

theorem done_callFunctor (s : TcpServer) (l : LoopId) (env : FunctorEnv) (f : Functor) :
    Done (s.callFunctor l env f) f := by
  constructor
  · rintro c rfl
    exact mem_pending_removeConnectionInLoop s c
  · rintro c rfl
    exact Function.update_self ..

theorem Own.advance (h : Own cfg s) {f : Functor} {rest : List Functor}
    (hr : (s.queue l).rest = f :: rest) (hd : Done s f) : Own cfg (s.advance l) := by
  refine h.setQueue ⟨h.queued l, h.batch l, fun c hu => ?_, fun g hg => hg, fun c hm hnd => ?_⟩
  · -- a `removeConnectionInLoop` that has been started has queued `connectDestroyed`
    rw [TaskQueue.unrun_eq_cons hr, List.mem_cons] at hu
    exact hu.elim (fun hu => .inr (hd.removed c hu.symm)) .inl
  · rw [hr, List.mem_cons] at hm
    rcases hm with hm | hm
    · exact absurd ((hd.destroyed c hm.symm).symm.trans hnd) (by decide)
    · rwa [TaskQueue.advance_rest, hr, List.tail_cons]

theorem Own.endFunctors (h : Own cfg s) (hr : (s.queue l).rest = [])
    (ha : s.active l = []) : Own cfg ((s.finish l).setPhase l .poll) := by
  have h1 : Own cfg (s.finish l) := by
    refine h.setQueue ⟨fun f hf => ?_, fun _ => rfl, fun c hu => .inl ?_, fun f hf => hf,
      fun c hm _ => ?_⟩
    · exact h.queued l f (TaskQueue.mem_held.mpr (.inr (TaskQueue.mem_held_finish.mp hf)))
    · rwa [TaskQueue.unrun_finish hr]
    · rw [hr] at hm
      cases hm
  refine h1.setPhase (fun _ => ?_) fun _ => ha
  exact congrArg TaskQueue.batch (queue_setQueue s l _)

/-! ### The steps -/

theorem Own.start : Own cfg (start cfg) := by
  refine ⟨⟨by simp [TcpServer.start], fun _ => rfl, ?_, ?_, fun hn => Nat.pos_of_ne_zero hn, ?_⟩,
    ⟨?_, ?_, fun _ _ => rfl, fun _ _ => rfl, ?_, fun _ _ => ⟨rfl, rfl, rfl⟩⟩, ?_, ?_⟩ <;>
    simp [TcpServer.start, TaskQueue.held, TaskQueue.empty, Worker.conn]

/-- A connection that is accepted still gets a positive number. -/
def Numbered (s : TcpServer) : Label → Prop
  | .dispatch _ env => env.accept.isSome → s.accepted + 1 < 2 ^ 31
  | _ => True

instance (s : TcpServer) (lab : Label) : Decidable (s.Numbered lab) := by
  cases lab <;> unfold Numbered <;> infer_instance

theorem Own.handleEvent (h : Own cfg s) {ptr : ChannelPtr} {env : DispatchEnv} {s' : TcpServer}
    (hb : env.accept.isSome → s.accepted + 1 < 2 ^ 31)
    (hs : s.handleEvent cfg l ptr env = some s') : Own cfg s' := by
  rcases handleEvent_cases hs with rfl | ⟨-, fd, highWater, he, -, rfl⟩ | ⟨c, hc, -, -, rfl⟩
  · exact h
  · exact h.newConnection (hb (by simp [he])) fd highWater env.acts
  · exact h.onConn hc l _

theorem tested_conn (s : TcpServer) (c : ConnId) (call : Call) :
    (s.tested c call).conn = some c := by
  unfold tested
  split
  · cases call <;> rfl
  · rfl

theorem Own.setWorker (h : Own cfg s) {t : ℕ} {w : Worker}
    (hw : ∀ c, w.conn = some c → c < s.accepted) : Own cfg (s.setWorker t w) := by
  have hworker : ∀ t' c, ((s.setWorker t w).worker t').conn = some c → c < s.accepted :=
    forall_update (P := fun _ (w : Worker) => ∀ c, w.conn = some c → c < s.accepted) hw h.worker
  exact ⟨{ h.toNamed with }, { h.toRouted with worker := hworker }, { h.toKept with }⟩

/-- **Ownership is an invariant** of every step, as long as the numbers are positive. -/
theorem Own.step (h : Own cfg s) {lab : Label} {s' : TcpServer} (hb : s.Numbered lab)
    (hst : step cfg s lab = some s') : Own cfg s' := by
  cases move_of_step hst with
  | poll l reports _ hp _ => exact h.poll hp reports
  | dispatch l env ptr rest s' hp _ _ hs => exact (h.setActive hp rest).handleEvent hb hs
  | react l c e rest hre =>
    have h1 := h.setReactions (l := l) rest fun y hy =>
      h.reaction l y (hre ▸ List.mem_cons_of_mem _ hy)
    exact h1.react (h.reaction l (c, e) (hre ▸ List.mem_cons_self)) l e
  | doPendingFunctors l hp _ ha => exact h.doPendingFunctors hp ha
  | runFunctor l env f rest hp _ hr =>
    have hf : f ∈ (s.queue l).held := TaskQueue.held_of_unrun (TaskQueue.mem_unrun_of_rest hr)
    have h1 := h.callFunctor (h.queued l f hf).1 l env
    have h2 := h1.advance ((batch_callFunctor s l l env f).1.trans hr) (done_callFunctor s l env f)
    refine h2.setPhase (by simp) fun _ => h2.active l ?_
    show (s.callFunctor l env f).phase l ≠ .dispatch
    rw [phase_callFunctor, hp]
    simp
  | functorReturn l f hp _ => exact h.setPhase (by simp) fun _ => h.active l (by simp [hp])
  | endFunctors l hp _ hr => exact h.endFunctors hr (h.active l (by simp [hp]))
  | userAct l c a _ _ hc => exact h.onConn hc l _
  | keep c => exact ⟨{ h.toNamed with }, { h.toRouted with }, { h.toKept with }⟩
  | drop c => exact ⟨{ h.toNamed with }, { h.toRouted with }, { h.toKept with }⟩
  | workerTake t c _ _ hc => exact h.setWorker fun c' hc' => Option.some.inj hc' ▸ hc
  | workerTest t call c hw =>
    exact h.setWorker fun c' hc' => h.worker t c' (by rw [hw, ← hc', tested_conn]; rfl)
  | workerStore t c hw =>
    have h1 : Own cfg (s.setState c .kDisconnecting) :=
      ⟨{ h.toNamed with }, { h.toRouted with }, { h.toKept with }⟩
    exact h1.setWorker fun c' hc' => h.worker t c' (by rw [hw, ← hc']; rfl)
  | workerQueue t c call hw =>
    have hc := h.worker t c (by rw [hw]; rfl)
    have h1 : Own cfg (s.push (s.loopOf c) (call.functor c)) := by
      cases call with
      | send => exact h.push (f := .sendInLoop c) hc
      | shutdown => exact h.push (f := .shutdownInLoop c) hc
    refine h1.setWorker fun c' hc' => h1.worker t c' ?_
    show (s.worker t).conn = some c'
    rw [hw, ← hc']
    rfl
  | workerDrop t c => exact h.setWorker fun _ hc' => by cases hc'

end TcpServer

end Mymuduo
