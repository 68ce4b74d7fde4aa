import Mathlib.Logic.Function.Basic
import Mymuduo.Lib.Trace
import Mymuduo.Lib.Transition

/-!
# Mymuduo.Logger — log lines of concurrent threads (`Logger.h`, `Logger.cc`)

All threads share one `Logger`.  A `LOG_INFO`, `LOG_ERROR` or `LOG_FATAL` statement is three steps:
`setLogLevel`, the `switch` of `log`, which prints the tag of the level that `logLevel` holds by then,
and the output of the time and the message.  After `LOG_FATAL` the thread calls `exit`.

A line carries the level of its statement as long as every `switch` finds this level in `logLevel` and no
other thread between its tag and its message (`Undisturbed`); over every run in which no line is left
unfinished that is necessary too (`log_lines_iff`).
-/

namespace Mymuduo

open Lib

inductive LogLevel
  | INFO
  | ERROR
  | FATAL
  | DEBUG
  deriving DecidableEq, Repr

namespace LogLevel

/-- The value of the enumerator. -/
def toInt : LogLevel → ℤ
  | .INFO => 0
  | .ERROR => 1
  | .FATAL => 2
  | .DEBUG => 3

/-- The case of the `switch` in `log`, if there is one. -/
def ofInt (n : ℤ) : Option LogLevel :=
  if n = toInt .INFO then some .INFO
  else if n = toInt .ERROR then some .ERROR
  else if n = toInt .FATAL then some .FATAL
  else if n = toInt .DEBUG then some .DEBUG
  else none

@[simp] theorem ofInt_toInt (level : LogLevel) : ofInt level.toInt = some level := by
  cases level <;> rfl

theorem toInt_inj {a b : LogLevel} (h : a.toInt = b.toInt) : a = b := by
  have := congrArg ofInt h
  rwa [ofInt_toInt, ofInt_toInt, Option.some.injEq] at this

end LogLevel

/-- Where a thread is in a log statement of level `level`. -/
inductive LogPc
  | outside
  | set (level : LogLevel) (msg : String)
  | tagged (level : LogLevel) (msg : String)
  | exited
  deriving DecidableEq, Repr

/-- What a thread writes to `std::cout`: a tag, or the time and a message; `level` is in the one case
the level of the tag and in the other that of the statement. -/
inductive Output (T : Type*)
  | tag (t : T) (level : LogLevel)
  | message (t : T) (level : LogLevel) (msg : String)
  deriving DecidableEq, Repr

/-- The logger and the threads of the type `T`.  The constructor leaves `logLevel` as it is. -/
structure Logger (T : Type*) where
  logLevel : ℤ
  pc : T → LogPc
  cout : List (Output T)

namespace Logger

variable {T : Type*}

def new (logLevel : ℤ) : Logger T := ⟨logLevel, fun _ => .outside, []⟩

theorem tag_eq {t u : T} {a b : LogLevel} {cout : List (Output T)}
    (h : (cout ++ [Output.tag t a]).getLast? = some (.tag u b)) : t = u ∧ a = b := by
  rw [List.getLast?_concat, Option.some.injEq, Output.tag.injEq] at h
  exact h

inductive Label (T : Type*)
  | setLogLevel (t : T) (level : LogLevel) (msg : String)
  | switch (t : T)
  | output (t : T)

variable [DecidableEq T]

def step (s : Logger T) : Label T → Option (Logger T)
  | .setLogLevel t level msg =>
    if s.pc t = .outside then
      some { s with logLevel := level.toInt, pc := Function.update s.pc t (.set level msg) }
    else none
  | .switch t =>
    match s.pc t with
    | .set level msg =>
      some { s with
        pc := Function.update s.pc t (.tagged level msg)
        cout := s.cout ++ ((LogLevel.ofInt s.logLevel).map (Output.tag t)).toList }
    | _ => none
  | .output t =>
    match s.pc t with
    | .tagged level msg =>
      -- `LOG_FATAL` ends with `exit(-1)`
      some { s with
        pc := Function.update s.pc t (if level = .FATAL then .exited else .outside)
        cout := s.cout ++ [.message t level msg] }
    | _ => none

/-- All interleavings of any log statements of any threads. -/
def sys : Sys (Logger T) (Label T) where
  init s := ∃ logLevel, s = new logLevel
  step := step

/-- A message comes directly after the tag of its own statement, which is of its level. -/
def OwnTag (pre : List (Output T)) : Output T → Prop
  | .tag _ _ => True
  | .message t level _ => pre.getLast? = some (.tag t level)

/-- Every message comes directly after the tag of its own statement. -/
def Lines (cout : List (Output T)) : Prop := Each OwnTag cout

/-- `logLevel` is still the one that the thread has set, and no other thread is about to print its
message. -/
def Undisturbed (s : Logger T) : Label T → Prop
  | .switch t => ∀ level msg, s.pc t = .set level msg →
    s.logLevel = level.toInt ∧ ∀ u ≠ t, ∀ level' msg', s.pc u ≠ .tagged level' msg'
  | _ => True

/-! ### What a step does -/

inductive Move (s : Logger T) : Label T → Logger T → Prop
  | setLogLevel {t : T} {level : LogLevel} {msg : String} : s.pc t = .outside →
      Move s (.setLogLevel t level msg)
        { s with logLevel := level.toInt, pc := Function.update s.pc t (.set level msg) }
  | switch {t : T} {level : LogLevel} {msg : String} : s.pc t = .set level msg →
      Move s (.switch t) { s with
        pc := Function.update s.pc t (.tagged level msg)
        cout := s.cout ++ ((LogLevel.ofInt s.logLevel).map (Output.tag t)).toList }
  | output {t : T} {level : LogLevel} {msg : String} : s.pc t = .tagged level msg →
      Move s (.output t) { s with
        pc := Function.update s.pc t (if level = .FATAL then .exited else .outside)
        cout := s.cout ++ [.message t level msg] }

theorem move_of_step {s s' : Logger T} {l : Label T} (h : s.step l = some s') : Move s l s' := by
  cases l with
  | setLogLevel t level msg =>
    obtain ⟨hc, rfl⟩ := of_guard h
    exact .setLogLevel hc
  | switch t =>
    simp only [step] at h
    split at h
    next hc =>
      obtain rfl := Option.some.inj h
      exact .switch hc
    next => cases h
  | output t =>
    simp only [step] at h
    split at h
    next hc =>
      obtain rfl := Option.some.inj h
      exact .output hc
    next => cases h

/-- After a `setLogLevel` some case of the `switch` applies. -/
def Valid (s : Logger T) : Prop :=
  ∀ t level msg, s.pc t = .set level msg → ∃ shown : LogLevel, s.logLevel = shown.toInt

/-- Every line is right so far, and the tag of an unfinished line is the last output. -/
structure Clean (s : Logger T) : Prop where
  lines : Lines s.cout
  tag : ∀ t level msg, s.pc t = .tagged level msg → s.cout.getLast? = some (.tag t level)

theorem Valid.step {s s' : Logger T} {l : Label T} (h : s.Valid) (hm : Move s l s') : s'.Valid := by
  cases hm with
  | @setLogLevel t level msg hc => exact fun _ _ _ _ => ⟨level, rfl⟩
  | @switch t level msg hc => exact fun _ _ _ _ => h t level msg hc
  | @output t level msg hc =>
    intro u level' msg' hu
    by_cases hut : u = t
    · subst hut
      simp only [Function.update_self] at hu
      split at hu <;> cases hu
    · exact h u level' msg' ((Function.update_of_ne hut ..).symm.trans hu)

/-- A line is unfinished after the step of another thread if it was so before. -/
theorem tagged_update {s : Logger T} {t u : T} {pc : LogPc} {level : LogLevel} {msg : String}
    (hut : u ≠ t) :
    Function.update s.pc t pc u = .tagged level msg ↔ s.pc u = .tagged level msg := by
  rw [Function.update_of_ne hut]

/-- A step does not break the lines exactly if it is undisturbed. -/
theorem Clean.step_iff {s s' : Logger T} {l : Label T} (hv : s.Valid) (h : s.Clean)
    (hm : Move s l s') : s'.Clean ↔ s.Undisturbed l := by
  cases hm with
  | @setLogLevel t level msg hc =>
    refine iff_of_true ⟨h.lines, fun u level' msg' hu => ?_⟩ trivial
    by_cases hut : u = t
    · subst hut
      simp at hu
    · exact h.tag u level' msg' ((tagged_update hut).mp hu)
  | @switch t level msg hc =>
    obtain ⟨shown, hshown⟩ := hv t level msg hc
    rw [hshown, LogLevel.ofInt_toInt]
    constructor
    · rintro ⟨-, htag⟩ level₁ msg₁ hc₁
      obtain ⟨rfl, rfl⟩ := LogPc.set.inj (hc.symm.trans hc₁)
      have hown := tag_eq (htag t level msg (Function.update_self ..))
      refine ⟨by rw [hshown, hown.2], fun u hut level' msg' hu => hut ?_⟩
      exact (tag_eq (htag u level' msg' ((tagged_update hut).mpr hu))).1.symm
    · intro hund
      obtain ⟨hlevel, hothers⟩ := hund level msg hc
      obtain rfl := LogLevel.toInt_inj (hshown.symm.trans hlevel)
      refine ⟨each_concat.mpr ⟨h.lines, trivial⟩, fun u level' msg' hu => ?_⟩
      by_cases hut : u = t
      · subst hut
        simp only [Function.update_self, LogPc.tagged.injEq] at hu
        exact hu.1 ▸ List.getLast?_concat
      · exact absurd ((tagged_update hut).mp hu) (hothers u hut level' msg')
  | @output t level msg hc =>
    have htag := h.tag t level msg hc
    refine iff_of_true ⟨each_concat.mpr ⟨h.lines, htag⟩, fun u level' msg' hu => ?_⟩ trivial
    by_cases hut : u = t
    · subst hut
      simp only [Function.update_self] at hu
      split at hu <;> cases hu
    · -- two unfinished lines cannot both have the last tag
      have hlast := h.tag u level' msg' ((tagged_update hut).mp hu)
      rw [htag, Option.some.injEq, Output.tag.injEq] at hlast
      exact absurd hlast.1.symm hut

/-- No step repairs a broken line. -/
theorem Clean.of_step {s s' : Logger T} {l : Label T} (hv : s.Valid) (h : s'.Clean)
    (hm : Move s l s') : s.Clean := by
  cases hm with
  | @setLogLevel t level msg hc =>
    refine ⟨h.lines, fun u level' msg' hu => ?_⟩
    have hut : u ≠ t := by
      rintro rfl
      rw [hc] at hu
      cases hu
    exact h.tag u level' msg' ((tagged_update hut).mpr hu)
  | @switch t level msg hc =>
    obtain ⟨shown, hshown⟩ := hv t level msg hc
    rw [hshown, LogLevel.ofInt_toInt] at h
    refine ⟨(each_concat.mp h.lines).1, fun u level' msg' hu => ?_⟩
    have hut : u ≠ t := by
      rintro rfl
      rw [hc] at hu
      cases hu
    exact absurd (tag_eq (h.tag u level' msg' ((tagged_update hut).mpr hu))).1.symm hut
  | @output t level msg hc =>
    obtain ⟨hlines, htag⟩ := each_concat.mp h.lines
    refine ⟨hlines, fun u level' msg' hu => ?_⟩
    by_cases hut : u = t
    · subst hut
      obtain ⟨rfl, -⟩ := LogPc.tagged.inj (hc.symm.trans hu)
      exact htag
    · have hlast := h.tag u level' msg' ((tagged_update hut).mpr hu)
      rw [List.getLast?_concat] at hlast
      cases hlast

/-- **Each log line carries its own level** at the end of every run whose steps are undisturbed; and at
the end of a run that leaves no line unfinished exactly then. -/
theorem log_lines_iff (logLevel : ℤ) (ls : List (Label T)) (s : Logger T)
    (h : sys.exec (new logLevel) ls = some s) :
    (sys.Along (fun s l _ => s.Undisturbed l) (new logLevel) ls → Lines s.cout) ∧
    ((∀ t level msg, s.pc t ≠ .tagged level msg) →
      (Lines s.cout ↔ sys.Along (fun s l _ => s.Undisturbed l) (new logLevel) ls)) := by
  have hnew : (new logLevel : Logger T).Clean := ⟨.nil, fun _ _ _ hc => by cases hc⟩
  have hiff : s.Clean ↔ sys.Along (fun s l _ => s.Undisturbed l) (new logLevel) ls := by
    refine (Sys.along_iff_of_exec (I := Clean) (K := Valid)
      (fun _ _ _ hv hst => hv.step (move_of_step hst))
      (fun _ _ _ hv hc hst => hc.step_iff hv (move_of_step hst))
      (fun _ _ _ hv hst hc => hc.of_step hv (move_of_step hst))
      (fun _ _ _ hc => by cases hc) h).trans ?_
    exact and_iff_right hnew
  refine ⟨fun hal => (hiff.mpr hal).lines, fun hdone => ?_⟩
  rw [← hiff]
  exact ⟨fun hl => ⟨hl, fun t level msg hc => absurd hc (hdone t level msg)⟩, fun hc => hc.lines⟩

/-- Another thread sets its level after the tag of the first is printed, and prints its own tag after
the message. -/
theorem log_lines_two : ∃ s : Logger (Fin 2), sys.exec (new 7) [.setLogLevel 0 .INFO "a", .switch 0,
      .setLogLevel 1 .ERROR "b", .output 0, .switch 1, .output 1] = some s ∧ Lines s.cout := by
  refine ⟨_, rfl, (log_lines_iff 7 [.setLogLevel 0 .INFO "a", .switch 0, .setLogLevel 1 .ERROR "b",
    .output 0, .switch 1, .output 1] _ rfl).1 ?_⟩
  rintro _ ⟨⟩
  refine ⟨trivial, ?_⟩
  rintro _ ⟨⟩
  refine ⟨?_, ?_⟩
  · rintro _ _ ⟨⟩
    exact ⟨rfl, fun u hu _ _ hpc => by match u with | 0 => exact hu rfl | 1 => cases hpc⟩
  rintro _ ⟨⟩
  refine ⟨trivial, ?_⟩
  rintro _ ⟨⟩
  refine ⟨trivial, ?_⟩
  rintro _ ⟨⟩
  refine ⟨?_, ?_⟩
  · rintro _ _ ⟨⟩
    exact ⟨rfl, fun u hu _ _ hpc => by match u with | 0 => cases hpc | 1 => exact hu rfl⟩
  rintro _ ⟨⟩
  exact ⟨trivial, trivial⟩

/-- A second thread stores `INFO` between `setLogLevel(ERROR)` and the `switch`: the error is labelled
`INFO`. -/
theorem log_lines_mislabelled : ¬ ∀ (ls : List (Label (Fin 2))) (s : Logger (Fin 2)),
    sys.exec (new 0) ls = some s → Lines s.cout := by
  intro h
  have hl := h [.setLogLevel 0 .ERROR "a", .setLogLevel 1 .INFO "b", .switch 0, .output 0] _ rfl
  have htag : [Output.tag (0 : Fin 2) .INFO].getLast? = some (.tag 0 .ERROR) :=
    hl [.tag 0 .INFO] (.message 0 .ERROR "a") [] rfl
  exact absurd htag (by decide)

end Logger

end Mymuduo
