import Mathlib.Data.Bool.Basic
import Mathlib.Order.Basic

/-!
# One signal and its process

A signal that is sent to a process is pending until it is taken.  There is one bit for this, so
a signal that is sent while one is pending is merged with it.  A pending signal is taken when no
handler is running, since the handler of a signal blocks this signal: then the handler is
started, or, if none has been installed, the process is killed.

`sent`, `merged` and `taken` count what has happened and are read by no step.  They keep the
balance (`Balanced`): what was sent was merged, was taken, killed the process, or is still
pending.  When nothing is going on any more (`Quiet`), the merged ones are those that the
handler has not seen.
-/

namespace Signals

/-- How a process has ended. -/
inductive Ending
  | killed
  | exited (status : Int)
  deriving DecidableEq

structure Process (H : Type*) where
  installed : Bool
  pending : Bool
  /-- where the handler is, when it is running -/
  handler : Option H
  ended : Option Ending
  sent : Nat
  merged : Nat
  taken : Nat

/-- A process that has just been started. -/
def Process.fresh (H : Type*) : Process H :=
  { installed := false, pending := false, handler := none, ended := none, sent := 0, merged := 0,
    taken := 0 }

namespace Process

variable {H : Type*} {p q : Process H} {h : H}

/-- The signal is sent.  Nothing is counted for a process that has ended. -/
def raise (p : Process H) : Process H :=
  if p.ended.isSome then p
  else if p.pending then { p with sent := p.sent + 1, merged := p.merged + 1 }
  else { p with sent := p.sent + 1, pending := true }

/-- The pending signal is taken, with a handler that starts at `h`. -/
def deliver (h : H) (p : Process H) : Option (Process H) :=
  if p.ended.isNone ∧ p.pending = true ∧ p.handler.isNone then
    some (if p.installed then
        { p with pending := false, handler := some h, taken := p.taken + 1 }
      else { p with pending := false, ended := some .killed })
  else none

def install (p : Process H) : Process H := { p with installed := true }

/-- The handler goes to `h`, or returns. -/
def goto (p : Process H) (h : Option H) : Process H := { p with handler := h }

/-- `exit(status)` -/
def exit (p : Process H) (status : Int) : Process H :=
  { p with handler := none, ended := some (.exited status) }

section
variable (p : Process H)

@[simp] theorem raise_installed : p.raise.installed = p.installed := by
  unfold raise
  repeat' split
  all_goals rfl

@[simp] theorem raise_handler : p.raise.handler = p.handler := by
  unfold raise
  repeat' split
  all_goals rfl

@[simp] theorem raise_ended : p.raise.ended = p.ended := by
  unfold raise
  repeat' split
  all_goals rfl

@[simp] theorem raise_taken : p.raise.taken = p.taken := by
  unfold raise
  repeat' split
  all_goals rfl

end

/-- A process that has ended is not reached any more. -/
theorem raise_of_ended (h : p.ended ≠ none) : p.raise = p :=
  if_pos (Option.isSome_iff_ne_none.2 h)

theorem raise_sent (h : p.ended = none) : p.raise.sent = p.sent + 1 := by
  rw [raise, h, if_neg (by simp)]
  split <;> rfl

/-- **The balance of a signal.** -/
structure Balanced (p : Process H) : Prop where
  sum : p.sent = p.merged + p.taken + p.pending.toNat + if p.ended = some .killed then 1 else 0
  killed : p.ended = some .killed → p.pending = false ∧ p.taken = 0

theorem balanced_fresh : (fresh H).Balanced :=
  ⟨rfl, fun h => (by cases h)⟩

theorem Balanced.raise (hp : p.Balanced) : p.raise.Balanced := by
  obtain ⟨hsum, hkilled⟩ := hp
  unfold Process.raise
  split
  · exact ⟨hsum, hkilled⟩
  · rename_i hended
    have hnone : p.ended = none := by simpa using hended
    rw [hnone, if_neg (by simp)] at hsum
    split
    · refine ⟨?_, fun e => ?_⟩
      · show p.sent + 1 = p.merged + 1 + p.taken + p.pending.toNat + if p.ended = _ then 1 else 0
        rw [hnone, if_neg (by simp)]
        omega
      · rw [show p.ended = _ from e] at hnone
        cases hnone
    · rename_i hpending
      refine ⟨?_, fun e => ?_⟩
      · show p.sent + 1 = p.merged + p.taken + 1 + if p.ended = _ then 1 else 0
        rw [hnone, if_neg (by simp)]
        rw [Bool.not_eq_true] at hpending
        rw [hpending] at hsum
        simp only [Bool.toNat_false] at hsum
        omega
      · rw [show p.ended = _ from e] at hnone
        cases hnone

/-- What is taken starts the handler, or kills a process that has none. -/
theorem deliver_eq_some : p.deliver h = some q ↔
    p.ended = none ∧ p.pending = true ∧ p.handler = none ∧
      q = if p.installed then { p with pending := false, handler := some h, taken := p.taken + 1 }
        else { p with pending := false, ended := some .killed } := by
  rw [deliver, Option.ite_none_right_eq_some, Option.some_inj, Option.isNone_iff_eq_none,
    Option.isNone_iff_eq_none, and_assoc, and_assoc]
  exact ⟨fun ⟨h1, h2, h3, h4⟩ => ⟨h1, h2, h3, h4.symm⟩,
    fun ⟨h1, h2, h3, h4⟩ => ⟨h1, h2, h3, h4.symm⟩⟩

/-- Before a handler is installed nothing is taken. -/
theorem Balanced.deliver (hp : p.Balanced) (hinstalled : p.installed = false → p.taken = 0)
    (hd : p.deliver h = some q) : q.Balanced := by
  obtain ⟨hnone, hpending, -, rfl⟩ := deliver_eq_some.1 hd
  obtain ⟨hsum, -⟩ := hp
  rw [hnone, hpending, if_neg (by simp), Bool.toNat_true] at hsum
  split
  · refine ⟨?_, fun e => ?_⟩
    · show p.sent = p.merged + (p.taken + 1) + 0 + if p.ended = _ then 1 else 0
      rw [hnone, if_neg (by simp)]
      omega
    · rw [show p.ended = _ from e] at hnone
      cases hnone
  · rename_i hnot
    refine ⟨?_, fun _ => ⟨rfl, hinstalled (by simpa using hnot)⟩⟩
    show p.sent = p.merged + p.taken + 0 + if some Ending.killed = _ then 1 else 0
    rw [if_pos rfl]
    omega

theorem Balanced.install (hp : p.Balanced) : p.install.Balanced := ⟨hp.sum, hp.killed⟩

theorem Balanced.goto (hp : p.Balanced) (h : Option H) : (p.goto h).Balanced :=
  ⟨hp.sum, hp.killed⟩

theorem Balanced.exit (hp : p.Balanced) (hnone : p.ended = none) (status : Int) :
    (p.exit status).Balanced := by
  obtain ⟨hsum, -⟩ := hp
  refine ⟨?_, fun e => (by cases e)⟩
  rw [hnone] at hsum
  exact hsum

/-- Nothing is pending, and no handler is running. -/
def Quiet (p : Process H) : Prop := p.pending = false ∧ p.handler = none

instance (p : Process H) : Decidable p.Quiet :=
  decidable_of_iff (p.pending = false ∧ p.handler.isNone = true) (by
    rw [Option.isNone_iff_eq_none]; rfl)

/-- **What the handler has not seen** of a signal that has come to rest. -/
theorem Balanced.quiet (hp : p.Balanced) (hq : p.Quiet) (hlives : p.ended ≠ some .killed) :
    p.sent = p.merged + p.taken := by
  have hsum := hp.sum
  rw [hq.1, if_neg hlives] at hsum
  exact hsum

end Process

end Signals
