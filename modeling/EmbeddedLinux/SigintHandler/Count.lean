import EmbeddedLinux.Lib.CString
import EmbeddedLinux.Lib.SignalCount
import EmbeddedLinux.Lib.Transition

/-!
# Counting interrupts

`main` installs `handle_sigint` and waits in `pause` for ever; the handler counts, prints the count,
and ends the program at the third call.  Interrupts come at any time, also before the handler is
installed, which kills the program, and while it is running, which merges them.

So the program ends when it has been interrupted three times, where interrupts that were merged
count as one: `exits_at_third`.
-/

namespace EmbeddedLinux.SigintHandler

open CString Signals Transition

/-- The limit and the texts of `handle_sigint`. -/
def sigint : CountingProgram UInt8 :=
  { limit := 3
    line := fun n => text "SIGINT received (" ++ decimal n ++ text ")\n"
    farewell := text "Received SIGINT 3 times. Exiting.\n"
    limit_pos := by decide }

/-- `sigint_count` and where the program is. -/
abbrev State := Counting UInt8

/-- A step of `handle_sigint`. -/
def handleSigint : State → Option State := Counting.handler sigint

inductive Action
  /-- `SIGINT` is sent -/
  | raise
  | deliver
  /-- `signal(SIGINT, handle_sigint)`; after it `main` only waits -/
  | main
  | handler
  deriving DecidableEq

def step (s : State) : Action → Option State
  | .raise => some s.raise
  | .deliver => s.deliver
  | .main => s.main
  | .handler => handleSigint s

def initial : State := Counting.fresh UInt8

variable {s : State}

theorem counted_run (hr : Reachable step Any initial s) : s.Counted sigint := by
  apply hr.invariant (P := fun s => s.Counted sigint) (.fresh sigint)
  intro s a t h _ hn
  cases a with
  | raise =>
    cases hn
    exact h.raise
  | deliver => exact h.deliver hn
  | main => exact h.main hn
  | handler => exact h.handler hn

/-- **The third interrupt ends the program.**  In every state that is reached, the program has
exited only after three calls of the handler, and was killed only before the handler was installed.
And when nothing is pending and no handler is running, it has exited if and only if three of the
interrupts that were sent have not been merged; as long as it has not ended, the count that has been
printed last is the number of these. -/
theorem exits_at_third (hr : Reachable step Any initial s) :
    (∀ status, s.proc.ended = some (.exited status) →
      status = 0 ∧ s.count = 3 ∧ s.out = sigint.lines 3 ++ sigint.farewell) ∧
    (s.proc.ended = some .killed → s.proc.installed = false ∧ s.out = []) ∧
    (s.proc.Quiet →
      (s.proc.ended = some (.exited 0) ↔ s.proc.sent = s.proc.merged + 3) ∧
      (s.proc.ended = none → s.count = (s.proc.sent - s.proc.merged : Nat) ∧
        s.out = sigint.lines (s.proc.sent - s.proc.merged))) := by
  have h := counted_run hr
  refine ⟨fun status he => ?_, h.out_of_killed, fun hq => ⟨?_, h.quiet hq⟩⟩
  · obtain ⟨hstatus, -, -, hcount, hout⟩ := h.exited status he
    exact ⟨hstatus, hcount, hout⟩
  · by_cases hk : s.proc.ended = some .killed
    · have hsent := h.sent_of_killed hk
      constructor
      · intro he
        cases hk.symm.trans he
      · intro hlimit
        omega
    · exact h.exited_iff hq hk

/-- An interrupt that is taken before another one is sent. -/
def interrupt : List Action := [.raise, .deliver, .handler, .handler, .handler]

/-- Four interrupts, two of them at once. -/
theorem exits_at_third_four : ∃ s, exec step initial
      (.main :: interrupt ++ [.raise] ++ interrupt ++ interrupt ++ [.handler]) = some s ∧
    s.proc.sent = 4 ∧ s.proc.merged = 1 ∧ s.proc.ended = some (.exited 0) := by
  have hr : Reachable step Any initial _ :=
    ⟨.main :: interrupt ++ [.raise] ++ interrupt ++ interrupt ++ [.handler], exec_run rfl⟩
  exact ⟨_, rfl, rfl, rfl, (((exits_at_third hr).2.2 ⟨rfl, rfl⟩).1).2 rfl⟩

end EmbeddedLinux.SigintHandler
