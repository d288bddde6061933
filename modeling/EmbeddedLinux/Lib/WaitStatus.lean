import Mathlib.Data.Nat.Bitwise

/-!
# What `wait` reports

The status of a process that has ended is one number.  The low seven bits are the signal that has
killed it, with the eighth for a core dump, and they are 0 when the process has exited; then its
exit code is in the next eight bits.  So of an exit code only the low eight bits are reported
(`wexitstatus_exited`), and no signal can be taken for an exit (`not_wifexited_signaled`).
-/

namespace WaitStatus

/-- The process has called `exit(code)`. -/
def exited (code : Int) : Nat := (code % 256).toNat <<< 8

/-- The process has been killed. -/
def signaled (sig : Nat) (core : Bool) : Nat := sig + 128 * core.toNat

/-- `WTERMSIG` -/
def wtermsig (status : Nat) : Nat := status &&& 0x7f

/-- `WIFEXITED` -/
def wifexited (status : Nat) : Bool := wtermsig status == 0

/-- `WEXITSTATUS` -/
def wexitstatus (status : Nat) : Nat := (status &&& 0xff00) >>> 8

theorem wtermsig_eq (status : Nat) : wtermsig status = status % 128 :=
  Nat.and_two_pow_sub_one_eq_mod status 7

theorem wexitstatus_eq (status : Nat) : wexitstatus status = status / 256 % 256 := by
  rw [wexitstatus, Nat.shiftRight_and_distrib, Nat.shiftRight_eq_div_pow]
  exact Nat.and_two_pow_sub_one_eq_mod _ 8

theorem exited_eq (code : Int) : exited code = (code % 256).toNat * 256 :=
  Nat.shiftLeft_eq _ _

@[simp] theorem wifexited_exited (code : Int) : wifexited (exited code) = true := by
  rw [wifexited, wtermsig_eq, exited_eq, beq_iff_eq]
  omega

/-- **The exit code that is reported.** -/
theorem wexitstatus_exited (code : Int) : (wexitstatus (exited code) : Int) = code % 256 := by
  rw [wexitstatus_eq, exited_eq]
  omega

/-- **A signal is never taken for an exit.** -/
theorem not_wifexited_signaled {sig : Nat} {core : Bool} (h1 : 1 ≤ sig) (h2 : sig ≤ 64) :
    wifexited (signaled sig core) = false := by
  rw [wifexited, wtermsig_eq, signaled, beq_eq_false_iff_ne]
  cases core <;> simp <;> omega

/-- The two kinds of status have nothing in common. -/
theorem exited_ne_signaled {code : Int} {sig : Nat} {core : Bool} (h1 : 1 ≤ sig) (h2 : sig ≤ 64) :
    exited code ≠ signaled sig core := by
  intro e
  have h := wifexited_exited code
  rw [e, not_wifexited_signaled h1 h2] at h
  cases h

end WaitStatus
