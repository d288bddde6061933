import EmbeddedLinux.Lib.CString
import EmbeddedLinux.Lib.Progress
import EmbeddedLinux.Lib.Signals

/-!
# A timer of ten seconds

`main` installs `handle_sigalrm`, asks for an alarm in a second and spins; the handler counts and
prints the seconds, and asks for the next alarm or, after the tenth, ends the program.  Time passes
in ticks, `second` of them in a second, between any two steps.

The next alarm is asked for only after the handler has printed, so the time between an alarm and
this call is lost.  `late` counts these ticks, and those before the first alarm.  The program
behaves as a countdown (`Countdown`, `step_state`) whose seconds are those of the clock less the
lost ones.
-/

namespace EmbeddedLinux.SigalrmTimer

open CString Signals Transition

/-- Where `handle_sigalrm` is. -/
inductive HandlerPc
  | increment
  | print
  | test
  | rearm
  | finish
  deriving DecidableEq

inductive MainPc
  | registering
  | arming
  | looping
  deriving DecidableEq

structure State where
  proc : Process HandlerPc
  /-- the ticks until the alarm that has been asked for -/
  due : Option Nat
  main : MainPc
  counter : Int
  out : List UInt8
  clock : Nat
  /-- the ticks for which no alarm was asked for -/
  late : Nat

inductive Action
  | tick
  | deliver
  | main
  | handler
  deriving DecidableEq

def line (n : Int) : List UInt8 := text "Timer: " ++ decimal n ++ text " seconds\n"

def farewell : List UInt8 := text "Done.\n"

/-- A step of `handle_sigalrm`. -/
def handleSigalrm (second : Nat) (s : State) : HandlerPc → State
  | .increment => { s with counter := s.counter + 1, proc := s.proc.goto (some .print) }
  | .print => { s with out := s.out ++ line s.counter, proc := s.proc.goto (some .test) }
  | .test =>
    if s.counter < 10 then { s with proc := s.proc.goto (some .rearm) }
    else { s with proc := s.proc.goto (some .finish) }
  -- `alarm(1)`, and the return to `main`
  | .rearm => { s with due := some second, proc := s.proc.goto none }
  | .finish => { s with out := s.out ++ farewell, proc := s.proc.exit 0 }

/-- A tick of the clock, in which the alarm may go off. -/
def elapse (s : State) : State :=
  match s.due with
  | none => { s with clock := s.clock + 1, late := s.late + 1 }
  | some (d + 2) => { s with clock := s.clock + 1, due := some (d + 1) }
  | some _ => { s with clock := s.clock + 1, due := none, proc := s.proc.raise }

def step (second : Nat) (s : State) : Action → Option State
  | .tick => if s.proc.ended.isNone then some (elapse s) else none
  | .deliver => (s.proc.deliver .increment).map (fun p => { s with proc := p })
  | .main =>
    if s.proc.ended.isNone ∧ s.proc.handler.isNone then
      match s.main with
      | .registering => some { s with proc := s.proc.install, main := .arming }
      | .arming => some { s with due := some second, main := .looping }
      | .looping => none
    else none
  | .handler => s.proc.handler.map (handleSigalrm second s)

def initial : State :=
  { proc := .fresh HandlerPc, due := none, main := .registering, counter := 0, out := [],
    clock := 0, late := 0 }

/-- The lines for the first `n` seconds. -/
def lines (n : Nat) : List UInt8 := (List.range n).flatMap (fun i => line (i + 1 : Nat))

theorem lines_succ (n : Nat) : lines (n + 1) = lines n ++ line (n + 1 : Nat) := by
  rw [lines, List.range_succ, List.flatMap_append, List.flatMap_singleton]
  rfl

/-! ### The countdown -/

/-- What the program is doing, when `n` seconds have been dealt with. -/
inductive Stage
  | registering
  | arming
  | waiting (n d : Nat)
  | pending (n : Nat)
  | handling (n : Nat) (pc : HandlerPc)
  | exited (n : Nat)

structure Countdown where
  stage : Stage
  clock : Nat
  late : Nat

namespace Stage

def proc : Stage → Process HandlerPc
  | registering => .fresh HandlerPc
  | arming => (Process.fresh HandlerPc).install
  | waiting n _ =>
    { installed := true, pending := false, handler := none, ended := none, sent := n, merged := 0,
      taken := n }
  | pending n =>
    { installed := true, pending := true, handler := none, ended := none, sent := n + 1,
      merged := 0, taken := n }
  | handling n pc =>
    { installed := true, pending := false, handler := some pc, ended := none, sent := n + 1,
      merged := 0, taken := n + 1 }
  | exited n =>
    { installed := true, pending := false, handler := none, ended := some (.exited 0), sent := n,
      merged := 0, taken := n }

def due : Stage → Option Nat
  | waiting _ d => some d
  | _ => none

def main : Stage → MainPc
  | registering => .registering
  | arming => .arming
  | _ => .looping

def counted : Stage → Nat
  | registering | arming => 0
  | waiting n _ | pending n | exited n => n
  | handling n .increment => n
  | handling n _ => n + 1

def out : Stage → List UInt8
  | registering | arming => []
  | waiting n _ | pending n => lines n
  | handling n .increment | handling n .print => lines n
  | handling n _ => lines (n + 1)
  | exited n => lines n ++ farewell

/-- A tick while the program is doing this. -/
def elapse : Stage → Stage
  | waiting n (d + 2) => waiting n (d + 1)
  | waiting n _ => pending n
  | g => g

end Stage

/-- The state of the program. -/
def Countdown.state (c : Countdown) : State :=
  { proc := c.stage.proc, due := c.stage.due, main := c.stage.main, counter := c.stage.counted,
    out := c.stage.out, clock := c.clock, late := c.late }

/-- The steps of the countdown. -/
def Countdown.next (second : Nat) (c : Countdown) : Action → Option Countdown
  | .tick =>
    match c.stage with
    | .exited _ => none
    | .waiting n d =>
      some { stage := (Stage.waiting n d).elapse, clock := c.clock + 1, late := c.late }
    | g => some { stage := g, clock := c.clock + 1, late := c.late + 1 }
  | .deliver =>
    match c.stage with
    | .pending n => some { c with stage := .handling n .increment }
    | _ => none
  | .main =>
    match c.stage with
    | .registering => some { c with stage := .arming }
    | .arming => some { c with stage := .waiting 0 second }
    | _ => none
  | .handler =>
    match c.stage with
    | .handling n .increment => some { c with stage := .handling n .print }
    | .handling n .print => some { c with stage := .handling n .test }
    | .handling n .test =>
      some { c with stage := .handling n (if n + 1 < 10 then .rearm else .finish) }
    | .handling n .rearm => some { c with stage := .waiting (n + 1) second }
    | .handling n .finish => some { c with stage := .exited (n + 1) }
    | _ => none

variable {second : Nat}

/-- **The program is the countdown.** -/
theorem step_state (c : Countdown) (a : Action) :
    step second c.state a = (c.next second a).map Countdown.state := by
  obtain ⟨g, clock, late⟩ := c
  cases a with
  | tick =>
    cases g with
    | waiting n d =>
      match d with
      | 0 | 1 | d + 2 => rfl
    | registering | arming | pending | exited => rfl
    | handling n pc => rfl
  | deliver =>
    cases g <;> rfl
  | main =>
    cases g <;> rfl
  | handler =>
    cases g with
    | handling n pc =>
      cases pc with
      | increment => rfl
      | print =>
        show some _ = some _
        simp only [handleSigalrm, Countdown.state, Stage.out, Stage.counted, lines_succ]
        rfl
      | test =>
        show some (ite (((n + 1 : Nat) : Int) < 10) _ _) =
          some (Countdown.state
            { stage := .handling n (if n + 1 < 10 then .rearm else .finish), .. })
        by_cases hn : n + 1 < 10
        · rw [if_pos (by omega), if_pos hn]
          rfl
        · rw [if_neg (by omega), if_neg hn]
          rfl
      | rearm | finish => rfl
    | registering | arming | waiting | pending | exited => rfl

/-! ### What the countdown keeps -/

namespace Countdown

/-- How the clock goes with what the program is doing. -/
def Fits (second : Nat) (c : Countdown) : Prop :=
  match c.stage with
  | .registering | .arming => c.clock = c.late
  | .waiting n d => n < 10 ∧ 0 < d ∧ d ≤ second ∧ c.clock + d = c.late + second * (n + 1)
  | .pending n => n < 10 ∧ c.clock = c.late + second * (n + 1)
  | .handling n pc => n < 10 ∧ c.clock = c.late + second * (n + 1) ∧
      (pc = .rearm → n + 1 < 10) ∧ (pc = .finish → n + 1 = 10)
  | .exited n => n = 10 ∧ c.clock = c.late + second * 10

variable {c c' : Countdown}

theorem Fits.next (h0 : 0 < second) (h : c.Fits second) {a : Action}
    (hn : c.next second a = some c') : c'.Fits second := by
  obtain ⟨g, clock, late⟩ := c
  cases a with
  | tick =>
    cases g with
    | registering | arming =>
      cases hn
      exact congrArg Nat.succ h
    | waiting n d =>
      obtain ⟨h10, hpos, hle, hclock⟩ := h
      match d, hn with
      | 1, rfl => exact ⟨h10, hclock⟩
      | d + 2, rfl =>
        refine ⟨h10, Nat.succ_pos d, Nat.le_of_succ_le hle, ?_⟩
        show clock + 1 + (d + 1) = _
        rw [Nat.add_right_comm]
        exact hclock
    | pending n =>
      obtain ⟨h10, hclock⟩ := h
      cases hn
      refine ⟨h10, ?_⟩
      show clock + 1 = late + 1 + second * (n + 1)
      rw [Nat.add_right_comm late]
      exact congrArg Nat.succ hclock
    | handling n pc =>
      obtain ⟨h10, hclock, hpc⟩ := h
      cases hn
      refine ⟨h10, ?_, hpc⟩
      show clock + 1 = late + 1 + second * (n + 1)
      rw [Nat.add_right_comm late]
      exact congrArg Nat.succ hclock
    | exited n => cases hn
  | deliver =>
    cases g with
    | pending n =>
      obtain ⟨h10, hclock⟩ := h
      cases hn
      exact ⟨h10, hclock, fun e => (by cases e), fun e => (by cases e)⟩
    | registering | arming | waiting | handling | exited => cases hn
  | main =>
    cases g with
    | registering =>
      cases hn
      exact h
    | arming =>
      cases hn
      refine ⟨by omega, h0, le_refl second, ?_⟩
      show clock + second = late + second * (0 + 1)
      rw [show clock = late from h, Nat.zero_add, Nat.mul_one]
    | waiting | pending | handling | exited => cases hn
  | handler =>
    cases g with
    | handling n pc =>
      obtain ⟨h10, hclock, hrearm, hfinish⟩ := h
      cases pc with
      | increment | print =>
        cases hn
        exact ⟨h10, hclock, fun e => (by cases e), fun e => (by cases e)⟩
      | test =>
        cases hn
        refine ⟨h10, hclock, fun e => ?_, fun e => ?_⟩
        · by_contra hn
          rw [if_neg hn] at e
          cases e
        · by_contra hn
          rw [if_pos (by omega)] at e
          cases e
      | rearm =>
        cases hn
        refine ⟨hrearm rfl, h0, le_refl second, ?_⟩
        show clock + second = late + second * (n + 1 + 1)
        rw [show clock = _ from hclock, Nat.mul_succ second (n + 1), Nat.add_assoc]
      | finish =>
        cases hn
        have h10 := hfinish rfl
        refine ⟨h10, ?_⟩
        rw [← h10]
        exact hclock
    | registering | arming | waiting | pending | exited => cases hn

theorem Fits.clock_le (h : c.Fits second) (hlive : c.state.proc.ended = none) :
    c.clock ≤ c.late + second * 10 := by
  obtain ⟨g, clock, late⟩ := c
  have hmul : ∀ n < 10, second * (n + 1) ≤ second * 10 :=
    fun n hn => Nat.mul_le_mul_left second hn
  cases g with
  | registering | arming => exact (le_of_eq h).trans (Nat.le_add_right late _)
  | waiting n d =>
    obtain ⟨h10, -, -, hclock⟩ := h
    have hn := hmul n h10
    have hclock : clock + d = late + second * (n + 1) := hclock
    show clock ≤ late + second * 10
    omega
  | pending n =>
    obtain ⟨h10, hclock⟩ := h
    exact (le_of_eq hclock).trans (Nat.add_le_add_left (hmul n h10) late)
  | handling n pc =>
    obtain ⟨h10, hclock, -⟩ := h
    exact (le_of_eq hclock).trans (Nat.add_le_add_left (hmul n h10) late)
  | exited n => cases hlive

/-- **What is shown while the program waits.** -/
theorem Fits.out_eq (h0 : 0 < second) (h : c.Fits second) (hlive : c.state.proc.ended = none)
    (hq : c.state.proc.Quiet) : c.state.out = lines ((c.clock - c.late) / second) := by
  obtain ⟨g, clock, late⟩ := c
  cases g with
  | registering | arming =>
    show [] = lines ((clock - late) / second)
    rw [show clock = late from h, Nat.sub_self, Nat.zero_div]
    rfl
  | waiting n d =>
    obtain ⟨-, hpos, hle, hclock⟩ := h
    have hclock : clock + d = late + (second * n + second) := hclock
    have hpassed : clock - late = second - d + second * n := by omega
    have hrest : second - d < second := by omega
    show lines n = lines ((clock - late) / second)
    rw [hpassed, Nat.add_mul_div_left _ _ h0, Nat.div_eq_of_lt hrest, Nat.zero_add]
  | pending => cases hq.1
  | handling => cases hq.2
  | exited => cases hlive

theorem Fits.exited (h : c.Fits second) (hend : c.state.proc.ended = some (.exited 0)) :
    c.clock = c.late + second * 10 ∧ c.state.out = lines 10 ++ farewell := by
  obtain ⟨g, clock, late⟩ := c
  cases g with
  | exited n =>
    obtain ⟨rfl, hclock⟩ := h
    exact ⟨hclock, rfl⟩
  | registering | arming | waiting | pending | handling => cases hend

end Countdown

/-! ### Its end -/

/-- A tick comes only while an alarm is asked for: the program does at once what it has to do. -/
def Prompt (s : State) (a : Action) : Prop := a = .tick → s.due.isSome = true

instance (s : State) (a : Action) : Decidable (Prompt s a) :=
  inferInstanceAs (Decidable (a = .tick → s.due.isSome = true))

/-- The steps that the handler has left. -/
def HandlerPc.left : HandlerPc → Nat
  | increment => 4
  | print => 3
  | test => 2
  | rearm | finish => 1

/-- The steps that are left when the program does not lose time. -/
def Stage.left (second : Nat) : Stage → Nat
  | registering => 10 * (second + 5) + 2
  | arming => 10 * (second + 5) + 1
  | waiting n d => (9 - n) * (second + 5) + d + 5
  | pending n => (9 - n) * (second + 5) + 5
  | handling n pc => (9 - n) * (second + 5) + pc.left
  | exited _ => 0

theorem Stage.left_le {g : Stage} {clock late : Nat}
    (h : Countdown.Fits second { stage := g, clock := clock, late := late }) :
    g.left second ≤ 10 * (second + 5) + 2 := by
  have hmul : ∀ n, (9 - n) * (second + 5) ≤ 9 * (second + 5) :=
    fun n => Nat.mul_le_mul_right _ (Nat.sub_le 9 n)
  cases g with
  | registering => exact le_refl _
  | arming => exact Nat.le_succ _
  | waiting n d =>
    obtain ⟨-, -, hle, -⟩ := h
    have hn := hmul n
    show (9 - n) * (second + 5) + d + 5 ≤ _
    omega
  | pending n =>
    have hn := hmul n
    show (9 - n) * (second + 5) + 5 ≤ _
    omega
  | handling n pc =>
    have hn := hmul n
    have hpc : pc.left ≤ 4 := by cases pc <;> decide
    show (9 - n) * (second + 5) + pc.left ≤ _
    omega
  | exited n => exact Nat.zero_le _

/-- The program has exited. -/
def Countdown.Ended (c : Countdown) : Prop :=
  match c.stage with
  | .exited _ => True
  | _ => False

theorem ended_iff {c : Countdown} : c.Ended ↔ c.state.proc.ended = some (.exited 0) := by
  obtain ⟨g, clock, late⟩ := c
  cases g with
  | exited n => exact iff_of_true trivial rfl
  | registering | arming | waiting | pending | handling =>
    exact iff_of_false id (fun e => by cases e)

/-- A step of a prompt program takes it nearer to its end. -/
theorem left_next {c c' : Countdown} {a : Action} (h : c.Fits second) (hok : Prompt c.state a)
    (hn : c.next second a = some c') : c'.stage.left second < c.stage.left second := by
  obtain ⟨g, clock, late⟩ := c
  cases a with
  | tick =>
    cases g with
    | waiting n d =>
      obtain ⟨-, hpos, -, -⟩ := h
      match d, hn with
      | 1, rfl => exact Nat.add_lt_add_right (Nat.lt_succ_self _) 5
      | d + 2, rfl => exact Nat.add_lt_add_right (Nat.lt_succ_self _) 5
    | registering | arming | pending | handling | exited => cases hok rfl
  | deliver =>
    cases g with
    | pending n =>
      cases hn
      exact Nat.lt_succ_self _
    | registering | arming | waiting | handling | exited => cases hn
  | main =>
    cases g with
    | registering =>
      cases hn
      exact Nat.lt_succ_self _
    | arming =>
      cases hn
      show 9 * (second + 5) + second + 5 < 10 * (second + 5) + 1
      omega
    | waiting | pending | handling | exited => cases hn
  | handler =>
    cases g with
    | handling n pc =>
      cases pc with
      | increment | print =>
        cases hn
        exact Nat.lt_succ_self _
      | test =>
        cases hn
        show (9 - n) * (second + 5) + HandlerPc.left (ite _ _ _) < (9 - n) * (second + 5) + 2
        split <;> exact Nat.lt_succ_self _
      | rearm =>
        cases hn
        obtain ⟨-, -, h10, -⟩ := h
        have h9 : 9 - n = 9 - (n + 1) + 1 := by
          have hn := h10 rfl
          omega
        show (9 - (n + 1)) * (second + 5) + second + 5 < (9 - n) * (second + 5) + 1
        rw [h9, Nat.succ_mul]
        omega
      | finish =>
        cases hn
        exact Nat.succ_pos _
    | registering | arming | waiting | pending | exited => cases hn

/-- **A prompt program comes to an end.** -/
theorem progress (h0 : 0 < second) :
    Progress (Countdown.next second) (fun c a => Prompt c.state a) (Countdown.Fits second)
      Countdown.Ended (fun c => c.stage.left second) := by
  refine ⟨fun c a c' h _ hn => h.next h0 hn, fun c a c' h hok hn => left_next h hok hn,
    fun c h hend => ?_⟩
  obtain ⟨g, clock, late⟩ := c
  cases g with
  | registering | arming => exact ⟨.main, _, fun e => (by cases e), rfl⟩
  | waiting n d => exact ⟨.tick, _, fun _ => rfl, rfl⟩
  | pending n => exact ⟨.deliver, _, fun e => (by cases e), rfl⟩
  | handling n pc => cases pc <;> exact ⟨.handler, _, fun e => (by cases e), rfl⟩
  | exited n => exact absurd trivial hend

/-- A prompt program loses no more time. -/
theorem late_run {c c' : Countdown} {as : List Action}
    (hr : Run (Countdown.next second) (fun c a => Prompt c.state a) c as c') :
    c'.late = c.late := by
  refine hr.invariant (P := fun u => u.late = c.late) rfl (fun u a v h hok hn => ?_)
  rw [← h]
  obtain ⟨g, clock, late⟩ := u
  cases a with
  | tick =>
    cases g with
    | waiting n d =>
      cases hn
      rfl
    | registering | arming | pending | handling | exited => cases hok rfl
  | deliver | main => cases g <;> cases hn <;> rfl
  | handler =>
    cases g with
    | handling n pc => cases pc <;> cases hn <;> rfl
    | registering | arming | waiting | pending | exited => cases hn

/-! ### The main result -/

/-- The countdown that `main` starts. -/
def Countdown.start : Countdown := { stage := .registering, clock := 0, late := 0 }

/-- Where a run of the program gets to. -/
theorem exists_countdown (h0 : 0 < second) {s : State}
    (hr : Reachable (step second) Any initial s) :
    ∃ c : Countdown, c.Fits second ∧ c.state = s := by
  obtain ⟨as, hr⟩ := hr
  obtain ⟨c, hrun, hc⟩ := (run_map_iff (m := .start) step_state).1 hr
  exact ⟨c, hrun.invariant rfl (fun _ _ _ h _ hn => h.next h0 hn), hc⟩

/-- **The timer shows the time that has passed, less what was lost, and ends after ten seconds of
it.**  It is never killed and loses no alarm.  From every state that is reached, a program that
loses no more time exits, and does so after a bounded number of steps. -/
theorem exits_after_ten_seconds (h0 : 0 < second) {s : State}
    (hr : Reachable (step second) Any initial s) :
    s.proc.merged = 0 ∧ (s.proc.ended = none ∨ s.proc.ended = some (.exited 0)) ∧
    (s.proc.ended = none → s.clock ≤ s.late + second * 10 ∧
      (s.proc.Quiet → s.out = lines ((s.clock - s.late) / second))) ∧
    (s.proc.ended = some (.exited 0) →
      s.clock = s.late + second * 10 ∧ s.out = lines 10 ++ farewell) ∧
    (∀ as t, Run (step second) Prompt s as t → as.length ≤ 10 * (second + 5) + 2) ∧
    ∃ t, Reachable (step second) Prompt s t ∧ t.proc.ended = some (.exited 0) ∧
      t.clock = s.late + second * 10 := by
  obtain ⟨c, hfits, rfl⟩ := exists_countdown h0 hr
  have hprogress := progress h0
  refine ⟨?_, ?_, fun hlive => ⟨hfits.clock_le hlive, hfits.out_eq h0 hlive⟩, hfits.exited,
    fun as t hrun => ?_, ?_⟩
  · obtain ⟨g, clock, late⟩ := c
    cases g <;> rfl
  · obtain ⟨g, clock, late⟩ := c
    cases g with
    | exited => exact Or.inr rfl
    | registering | arming | waiting | pending | handling => exact Or.inl rfl
  · obtain ⟨d, hrun', -⟩ := (run_map_iff step_state).1 hrun
    exact (hprogress.length_le hfits hrun').trans (Stage.left_le hfits)
  · obtain ⟨d, ⟨as, hrun⟩, hd, hend⟩ := hprogress.exists_final hfits
    obtain ⟨hclock, -⟩ := hd.exited (ended_iff.1 hend)
    refine ⟨d.state, ⟨as, (run_map_iff step_state).2 ⟨d, hrun, rfl⟩⟩, ended_iff.1 hend, ?_⟩
    exact hclock.trans (congrArg (· + second * 10) (late_run hrun))

/-- Two ticks to a second, one of them lost before the first alarm is asked for. -/
theorem exits_after_ten_seconds_late : ∃ s, exec (step 2) initial
      [.main, .tick, .main, .tick, .tick, .deliver, .handler, .handler, .handler, .handler] =
        some s ∧
    s.late = 1 ∧ s.out = lines ((s.clock - s.late) / 2) := by
  have hr : Reachable (step 2) Any initial _ :=
    ⟨[.main, .tick, .main, .tick, .tick, .deliver, .handler, .handler, .handler, .handler],
      exec_run rfl⟩
  exact ⟨_, rfl, rfl, ((exits_after_ten_seconds (by decide) hr).2.2.1 rfl).2 ⟨rfl, rfl⟩⟩

end EmbeddedLinux.SigalrmTimer
