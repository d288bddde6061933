import Mathlib.Logic.Function.Basic

/-!
# A heap whose blocks have one owner each

`malloc` gives out any address that is not in use, also one that has been freed before, and a block
may be handed from one owner to another.  `Accounted` says that every pointer that somebody has
is to a block in use, that no two have the same one, and that no block is left
without an owner.  The four operations keep it: so nothing is freed twice, read after it has been
freed, or lost, whoever does it and in whatever order.

What an owner has stored in its block stays there as long as it is the owner
(`Accounted.other`).
-/

namespace Heap

variable {B H : Type*}

/-- The blocks in use, by their addresses. -/
abbrev Cells (B : Type*) := Nat → Option B

structure Accounted (cells : Cells B) (ptr : H → Option Nat) : Prop where
  live : ∀ x p, ptr x = some p → cells p ≠ none
  apart : ∀ x y p, ptr x = some p → ptr y = some p → x = y
  held : ∀ p, cells p ≠ none → ∃ x, ptr x = some p

/-- Nobody has a block. -/
theorem accounted_empty : Accounted (fun _ => none : Cells B) (fun _ => none : H → Option Nat) := by
  refine ⟨fun x p hx => ?_, fun x y p hx => ?_, fun p hp => absurd rfl hp⟩ <;> cases hx

variable [DecidableEq H] {cells : Cells B} {ptr : H → Option Nat} {x y : H} {p q : Nat}

namespace Accounted

/-- `malloc`, by `x`. -/
theorem malloc (h : Accounted cells ptr) (hp : cells p = none) (hx : ptr x = none) (b : B) :
    Accounted (Function.update cells p (some b)) (Function.update ptr x (some p)) := by
  have hnew : ∀ y, ptr y ≠ some p := fun y hy => h.live y p hy hp
  refine ⟨fun y q hy => ?_, fun y z q hy hz => ?_, fun q hq => ?_⟩
  · rw [Function.update_apply]
    split
    · exact Option.some_ne_none b
    · rename_i hqp
      rw [Function.update_apply] at hy
      split at hy
      · exact absurd (Option.some_inj.1 hy).symm hqp
      · exact h.live y q hy
  · rw [Function.update_apply] at hy hz
    split at hy
    · rename_i hyx
      cases hy
      split at hz
      · rename_i hzx
        rw [hyx, hzx]
      · exact absurd hz (hnew z)
    · split at hz
      · cases hz
        exact absurd hy (hnew y)
      · exact h.apart y z q hy hz
  · by_cases hqp : q = p
    · exact ⟨x, by rw [hqp, Function.update_self]⟩
    · rw [Function.update_of_ne hqp] at hq
      obtain ⟨y, hy⟩ := h.held q hq
      have hyx : y ≠ x := by
        intro e
        rw [e, hx] at hy
        cases hy
      exact ⟨y, by rw [Function.update_of_ne hyx]; exact hy⟩

omit [DecidableEq H] in
/-- A store to a block in use. -/
theorem store (h : Accounted cells ptr) (hp : cells p ≠ none) (b : B) :
    Accounted (Function.update cells p (some b)) ptr := by
  have hsame : ∀ q, Function.update cells p (some b) q ≠ none ↔ cells q ≠ none := by
    intro q
    by_cases hqp : q = p
    · rw [hqp, Function.update_self]
      exact iff_of_true (Option.some_ne_none b) hp
    · rw [Function.update_of_ne hqp]
  exact ⟨fun y q hy => (hsame q).2 (h.live y q hy), h.apart, fun q hq => h.held q ((hsame q).1 hq)⟩

/-- `x` hands its block to `y`. -/
theorem give (h : Accounted cells ptr) (hx : ptr x = some p) (hy : ptr y = none) :
    Accounted cells (Function.update (Function.update ptr x none) y (some p)) := by
  have hxy : x ≠ y := by
    intro e
    rw [e, hy] at hx
    cases hx
  -- after the step a pointer is that of `y`, or another one of somebody else
  have hcases : ∀ z q, Function.update (Function.update ptr x none) y (some p) z = some q →
      z = y ∧ q = p ∨ z ≠ y ∧ z ≠ x ∧ ptr z = some q := by
    intro z q hz
    rw [Function.update_apply] at hz
    split at hz
    · rename_i hzy
      cases hz
      exact Or.inl ⟨hzy, rfl⟩
    · rename_i hzy
      rw [Function.update_apply] at hz
      split at hz
      · cases hz
      · rename_i hzx
        exact Or.inr ⟨hzy, hzx, hz⟩
  refine ⟨fun z q hz => ?_, fun z z' q hz hz' => ?_, fun q hq => ?_⟩
  · rcases hcases z q hz with ⟨-, rfl⟩ | ⟨-, -, hz⟩
    · exact h.live x q hx
    · exact h.live z q hz
  · rcases hcases z q hz with ⟨hzy, hqp⟩ | ⟨-, hzx, hzq⟩
    · rcases hcases z' q hz' with ⟨hzy', -⟩ | ⟨-, hzx', hzq'⟩
      · exact hzy.trans hzy'.symm
      · exact absurd (h.apart z' x q hzq' (hqp ▸ hx)) hzx'
    · rcases hcases z' q hz' with ⟨-, hqp⟩ | ⟨-, -, hzq'⟩
      · exact absurd (h.apart z x q hzq (hqp ▸ hx)) hzx
      · exact h.apart z z' q hzq hzq'
  · obtain ⟨z, hz⟩ := h.held q hq
    by_cases hzx : z = x
    · rw [hzx, hx] at hz
      cases hz
      exact ⟨y, Function.update_self ..⟩
    · have hzy : z ≠ y := by
        intro e
        rw [e, hy] at hz
        cases hz
      exact ⟨z, by rw [Function.update_of_ne hzy, Function.update_of_ne hzx]; exact hz⟩

/-- `free`, by `x`. -/
theorem free (h : Accounted cells ptr) (hx : ptr x = some p) :
    Accounted (Function.update cells p none) (Function.update ptr x none) := by
  have hcases : ∀ z q, Function.update ptr x none z = some q → z ≠ x ∧ ptr z = some q := by
    intro z q hz
    rw [Function.update_apply] at hz
    split at hz
    · cases hz
    · exact ⟨‹_›, hz⟩
  refine ⟨fun z q hz => ?_, fun z z' q hz hz' => ?_, fun q hq => ?_⟩
  · obtain ⟨hzx, hz⟩ := hcases z q hz
    have hqp : q ≠ p := fun e => hzx (h.apart z x p (e ▸ hz) hx)
    rw [Function.update_of_ne hqp]
    exact h.live z q hz
  · exact h.apart z z' q (hcases z q hz).2 (hcases z' q hz').2
  · have hqp : q ≠ p := by
      intro e
      rw [e, Function.update_self] at hq
      exact hq rfl
    rw [Function.update_of_ne hqp] at hq
    obtain ⟨z, hz⟩ := h.held q hq
    have hzx : z ≠ x := by
      intro e
      rw [e, hx] at hz
      exact hqp (Option.some_inj.1 hz).symm
    exact ⟨z, by rw [Function.update_of_ne hzx]; exact hz⟩

omit [DecidableEq H] in
/-- **What an owner does to its block is not seen in the blocks of the others.** -/
theorem other (h : Accounted cells ptr) (hx : ptr x = some p) (hy : ptr y = some q) (hyx : y ≠ x)
    (b : Option B) : Function.update cells p b q = cells q := by
  have hqp : q ≠ p := fun e => hyx (h.apart y x p (e ▸ hy) hx)
  exact Function.update_of_ne hqp _ _

end Accounted

end Heap
