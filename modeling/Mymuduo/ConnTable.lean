import Mymuduo.ServerOwn

/-!
# Mymuduo.ConnTable — what `connections` holds (`TcpServer.cc`)

Any calls of `newConnection` and `removeConnectionInLoop`, with the connections that are live: accepted
and not yet removed.  A connection is entered under a name that is made of `nextConnId`, a 32-bit
`int`.  The text of any `int` fits the buffer, so that two connections have the same name exactly if
the numbers of connections accepted before them differ by a multiple of `2 ^ 32` (`nameOf_eq_iff`).
Nothing checks this: `connections` holds exactly the live connections as long as no connection is
accepted, or removed once more, while such a twin of it is live (`connections_exact_iff`).
-/

namespace Mymuduo

open Lib

/-! ### The names of the connections -/

/-- `nextConnId` when `c` connections have been accepted. -/
def connIdOf (c : ℕ) : ℤ :=
  if (c + 1) % 2 ^ 32 < 2 ^ 31 then ((c + 1) % 2 ^ 32 : ℕ) else ((c + 1) % 2 ^ 32 : ℕ) - 2 ^ 32

/-- The same number modulo `2 ^ 32`. -/
def Twins (c c' : ℕ) : Prop := c % 2 ^ 32 = c' % 2 ^ 32

theorem isInt_connIdOf (c : ℕ) : Config.IsInt (connIdOf c) := by
  unfold connIdOf Config.IsInt
  split <;> omega

theorem incrInt_connIdOf (c : ℕ) : incrInt (connIdOf c) = connIdOf (c + 1) := by
  unfold connIdOf incrInt
  split <;> split <;> split <;> omega

theorem connIdOf_eq_iff {c c' : ℕ} : connIdOf c = connIdOf c' ↔ Twins c c' := by
  unfold connIdOf Twins
  split <;> split <;> omega

/-! ### The table -/

/-- A server, with the connections that have been accepted and not yet removed. -/
structure ConnTable where
  server : TcpServer
  live : ConnId → Bool

namespace ConnTable

inductive Label
  | newConnection (fd : ℕ) (highWater : Option ℕ) (acts : List UserAct)
  | removeConnectionInLoop (c : ConnId)

variable (cfg : Config)

def start : ConnTable := ⟨.start cfg, fun _ => false⟩

def step (s : ConnTable) : Label → Option ConnTable
  | .newConnection fd highWater acts =>
    some ⟨s.server.newConnection cfg fd highWater acts, Function.update s.live s.server.accepted true⟩
  | .removeConnectionInLoop c =>
    if c < s.server.accepted then
      some ⟨s.server.removeConnectionInLoop c, Function.update s.live c false⟩
    else none

/-- Any calls, in any order. -/
def sys : Sys ConnTable Label where
  init s := s = start cfg
  step := step cfg

/-- `connections` holds exactly the live connections, each under its own name. -/
def Exact (s : ConnTable) : Prop :=
  ∀ nm c, s.server.connections nm = some c ↔ s.live c = true ∧ s.server.nameOf c = nm

/-- The call neither replaces nor erases the entry of another live connection. -/
def Spares (s : ConnTable) : Label → Prop
  | .newConnection _ _ _ => ∀ c, s.live c = true →
    s.server.connections (cfg.connName s.server.nextConnId) ≠ some c
  | .removeConnectionInLoop c => ∀ c' ≠ c, s.live c' = true →
    s.server.connections (s.server.nameOf c) ≠ some c'

/-- No twin of the connection is live. -/
def NoTwin (s : ConnTable) : Label → Prop
  | .newConnection _ _ _ => ∀ c, s.live c = true → ¬ Twins c s.server.accepted
  | .removeConnectionInLoop c => ∀ c' ≠ c, s.live c' = true → ¬ Twins c' c

/-- How the connections are numbered and named. -/
structure Numbered (s : ConnTable) : Prop where
  id : s.server.nextConnId = connIdOf s.server.accepted
  name : ∀ c < s.server.accepted, s.server.nameOf c = cfg.connName (connIdOf c)
  live : ∀ c, s.live c = true → c < s.server.accepted

section Fields

variable (s : TcpServer) (fd : ℕ) (highWater : Option ℕ) (acts : List UserAct)

theorem newConnection_connections : (s.newConnection cfg fd highWater acts).connections =
    Function.update s.connections (cfg.connName s.nextConnId) (some s.accepted) := by
  unfold TcpServer.newConnection
  simp only
  split <;> rfl

theorem newConnection_nameOf : (s.newConnection cfg fd highWater acts).nameOf =
    Function.update s.nameOf s.accepted (cfg.connName s.nextConnId) := by
  unfold TcpServer.newConnection
  simp only
  split <;> rfl

theorem newConnection_accepted : (s.newConnection cfg fd highWater acts).accepted = s.accepted + 1 := by
  unfold TcpServer.newConnection
  simp only
  split <;> rfl

theorem newConnection_nextConnId :
    (s.newConnection cfg fd highWater acts).nextConnId = incrInt s.nextConnId := by
  unfold TcpServer.newConnection
  simp only
  split <;> rfl

end Fields

variable {cfg} {s s' : ConnTable}

theorem numbered_start : Numbered cfg (start cfg) :=
  ⟨rfl, fun c hc => absurd hc (Nat.not_lt_zero c), fun c hc => by cases hc⟩

/-- Names are the same for twins only. -/
theorem Numbered.nameOf_eq_iff (h : Numbered cfg s) {c c' : ConnId} (hc : c < s.server.accepted)
    (hc' : c' < s.server.accepted) :
    s.server.nameOf c = s.server.nameOf c' ↔ Twins c c' := by
  rw [h.name c hc, h.name c' hc', ← connIdOf_eq_iff]
  exact ⟨Config.connName_inj (isInt_connIdOf c) (isInt_connIdOf c'), congrArg _⟩

/-- The next connection gets the name of its twins. -/
theorem Numbered.nameOf_eq_next_iff (h : Numbered cfg s) {c : ConnId} (hc : c < s.server.accepted) :
    s.server.nameOf c = cfg.connName s.server.nextConnId ↔ Twins c s.server.accepted := by
  rw [h.name c hc, h.id, ← connIdOf_eq_iff]
  exact ⟨Config.connName_inj (isInt_connIdOf c) (isInt_connIdOf _), congrArg _⟩

theorem Numbered.step {l : Label} (h : Numbered cfg s) (hst : s.step cfg l = some s') :
    Numbered cfg s' := by
  cases l with
  | newConnection fd highWater acts =>
    obtain rfl := Option.some.inj hst
    refine ⟨?_, fun c hc => ?_, fun c hc => ?_⟩
    · rw [newConnection_nextConnId, newConnection_accepted, h.id, incrInt_connIdOf]
    · rw [newConnection_accepted] at hc
      rw [newConnection_nameOf]
      by_cases hn : c = s.server.accepted
      · rw [hn, Function.update_self, h.id]
      · rw [Function.update_of_ne hn]
        exact h.name c (Nat.lt_of_le_of_ne (Nat.le_of_lt_succ hc) hn)
    · rw [newConnection_accepted]
      by_cases hn : c = s.server.accepted
      · exact hn ▸ Nat.lt_succ_self _
      · have hlive : s.live c = true := (Function.update_of_ne hn ..).symm.trans hc
        exact Nat.lt_succ_of_lt (h.live c hlive)
  | removeConnectionInLoop c =>
    obtain ⟨-, rfl⟩ := of_guard hst
    refine ⟨h.id, h.name, fun c' hc' => h.live c' ?_⟩
    have hlive : Function.update s.live c false c' = true := hc'
    by_cases hn : c' = c
    · rw [hn, Function.update_self] at hlive
      cases hlive
    · rwa [Function.update_of_ne hn] at hlive

/-- With the table exact, a call spares the others exactly if it finds no twin. -/
theorem spares_iff {l : Label} (h : Numbered cfg s) (he : s.Exact) (hst : s.step cfg l = some s') :
    s.Spares cfg l ↔ s.NoTwin l := by
  cases l with
  | newConnection fd highWater acts =>
    refine forall_congr' fun c => forall_congr' fun hc => not_congr ?_
    rw [he, and_iff_right hc, h.nameOf_eq_next_iff (h.live c hc)]
  | removeConnectionInLoop c =>
    obtain ⟨hlt, -⟩ := of_guard hst
    refine forall_congr' fun c' => forall_congr' fun _ => forall_congr' fun hc' => not_congr ?_
    rw [he, and_iff_right hc', h.nameOf_eq_iff (h.live c' hc') hlt]

/-- A call that spares the others leaves the table exact. -/
theorem Exact.step {l : Label} (he : s.Exact) (h : Numbered cfg s) (hs : s.Spares cfg l)
    (hst : s.step cfg l = some s') : s'.Exact := by
  cases l with
  | newConnection fd highWater acts =>
    obtain rfl := Option.some.inj hst
    intro nm c
    simp only [newConnection_connections, newConnection_nameOf]
    have hold : c ≠ s.server.accepted → s.live c = true → s.server.nameOf c ≠ cfg.connName s.server.nextConnId :=
      fun _ hc heq => hs c hc ((he _ c).mpr ⟨hc, heq⟩)
    by_cases hn : c = s.server.accepted
    · subst hn
      have hnot : s.server.connections nm ≠ some s.server.accepted := fun hsome =>
        (h.live _ ((he nm _).mp hsome).1).ne rfl
      rw [Function.update_self, Function.update_self]
      by_cases hnm : nm = cfg.connName s.server.nextConnId
      · rw [hnm, Function.update_self]
        simp
      · rw [Function.update_of_ne hnm]
        exact iff_of_false hnot fun hc => hnm hc.2.symm
    · rw [Function.update_of_ne hn, Function.update_of_ne hn]
      by_cases hnm : nm = cfg.connName s.server.nextConnId
      · rw [hnm, Function.update_self]
        refine iff_of_false (fun hsome => hn (Option.some.inj hsome).symm) fun hc => ?_
        exact hold hn hc.1 hc.2
      · rw [Function.update_of_ne hnm]
        exact he nm c
  | removeConnectionInLoop c =>
    obtain ⟨-, rfl⟩ := of_guard hst
    intro nm c'
    change Function.update s.server.connections (s.server.nameOf c) none nm = some c' ↔
      Function.update s.live c false c' = true ∧ s.server.nameOf c' = nm
    by_cases hn : c' = c
    · subst hn
      rw [Function.update_self]
      refine iff_of_false (fun hsome => ?_) fun hc => Bool.false_ne_true hc.1
      by_cases hnm : nm = s.server.nameOf c'
      · rw [hnm, Function.update_self] at hsome
        cases hsome
      · rw [Function.update_of_ne hnm] at hsome
        exact hnm ((he nm c').mp hsome).2.symm
    · rw [Function.update_of_ne hn]
      by_cases hnm : nm = s.server.nameOf c
      · rw [hnm, Function.update_self]
        refine iff_of_false (fun hsome => by cases hsome) fun hc => ?_
        exact hs c' hn hc.1 ((he _ c').mpr hc)
      · rw [Function.update_of_ne hnm]
        exact he nm c'

theorem exact_along_iff (ls : List Label) (h : Numbered cfg s) (he : s.Exact) :
    (sys cfg).Along (fun s l s' => s.Spares cfg l ∧ s'.Exact) s ls ↔
      (sys cfg).Along (fun s l _ => s.NoTwin l) s ls := by
  refine Sys.along_congr (I := fun s => Numbered cfg s ∧ s.Exact)
    (fun _ _ _ hi hst hq => ⟨hi.1.step hst, hq.2⟩) (fun s l s' hi hst => ?_) ls s ⟨h, he⟩
  rw [← spares_iff hi.1 hi.2 hst]
  exact and_iff_left_of_imp fun hs => hi.2.step hi.1 hs hst

theorem exact_start : (start cfg).Exact := fun nm c =>
  iff_of_false (fun h => by cases h) fun h => by cases h.1

/-- **The connection table is exact** along a run exactly if no connection is accepted, or removed
once more, while a twin of it is live. -/
theorem connections_exact_iff (cfg : Config) (ls : List Label) :
    (sys cfg).Along (fun s l s' => s.Spares cfg l ∧ s'.Exact) (start cfg) ls ↔
      (sys cfg).Along (fun s l _ => s.NoTwin l) (start cfg) ls :=
  exact_along_iff ls numbered_start exact_start

/-- One connection after the other, each removed before the next one is accepted; `a` is the number of
the first of them. -/
def turnover (fd a n : ℕ) : List Label :=
  (List.range' a n).flatMap fun c => [.newConnection fd none [], .removeConnectionInLoop c]

theorem turnover_succ (fd a n : ℕ) : turnover fd a (n + 1) =
    .newConnection fd none [] :: .removeConnectionInLoop a :: turnover fd (a + 1) n := by
  rw [turnover, List.range'_succ, List.flatMap_cons]
  rfl

/-- While the first connection stays live, the counter comes back to its name. -/
theorem not_noTwin_turnover {a : ℕ} (fd n : ℕ) (hacc : s.server.accepted = a) (hlive : s.live 0 = true)
    (hpos : 0 < a) (hle : a ≤ 2 ^ 32) (hn : 2 ^ 32 < a + n) :
    ¬ (sys cfg).Along (fun s l _ => s.NoTwin l) s (turnover fd a n) := by
  induction n generalizing s a with
  | zero => omega
  | succ n ih =>
    intro hal
    rw [turnover_succ] at hal
    obtain ⟨hno, hal⟩ := hal _ rfl
    by_cases heq : a = 2 ^ 32
    · refine hno 0 hlive ?_
      rw [hacc, heq]
      exact (Nat.mod_self _).symm
    · have hnew := newConnection_accepted cfg s.server fd none []
      have hlt : a < (s.server.newConnection cfg fd none []).accepted := by
        rw [hnew, hacc]
        exact Nat.lt_succ_self a
      have hstays : Function.update (Function.update s.live s.server.accepted true) a false 0 = true := by
        rw [Function.update_of_ne hpos.ne, Function.update_of_ne (hacc ▸ hpos.ne), hlive]
      refine ih ?_ hstays (Nat.succ_pos a) (by omega) (by omega) (hal _ (if_pos hlt)).2
      exact hnew.trans (congrArg (· + 1) hacc)

/-- The first connection stays live while `2 ^ 32` others come and go: the last of them is accepted
under the name of the first and replaces its entry. -/
theorem connections_replaced : ¬ ∀ (cfg : Config) (ls : List Label),
    (sys cfg).Along (fun s l s' => s.Spares cfg l ∧ s'.Exact) (start cfg) ls := by
  intro h
  have hal := (exact_along_iff _ numbered_start exact_start).mp
    (h TcpServer.config (.newConnection 7 none [] :: turnover 8 1 (2 ^ 32)))
  have hacc := newConnection_accepted TcpServer.config (.start TcpServer.config) 7 none []
  have hlive : Function.update (fun _ => false) 0 true 0 = true := Function.update_self ..
  exact not_noTwin_turnover 8 (2 ^ 32) hacc hlive Nat.one_pos Nat.one_le_two_pow
    (Nat.lt_add_of_pos_left Nat.one_pos) (hal _ rfl).2

end ConnTable

end Mymuduo
