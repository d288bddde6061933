import Mathlib.Data.List.Basic

/-!
# Writing all of some data

A `write` takes some data in a state and returns a count, or a negative error.  A program that
wants all of its data written calls it again with the tail when the count is short.  `resubmit` is
this loop, with a bound on the number of calls; it is `none` where the bound is too small.

The loop ends when no call on data returns zero (`resubmit_ends`), and `resubmit_rule` is its
rule: an assertion about the tail and the state that every short count keeps.
-/

namespace Resubmit

variable {α σ : Type*}

def resubmit (write : List α → σ → Int × σ) : Nat → List α → σ → Option (Int × σ)
  | 0, _, _ => none
  | fuel + 1, data, s =>
    let r := write data s
    if r.1 < 0 ∨ (data.length : Int) ≤ r.1 then some r
    else resubmit write fuel (data.drop r.1.toNat) r.2

variable {write : List α → σ → Int × σ} {data : List α} {s : σ} {fuel : Nat}

/-- The first call is the last. -/
theorem resubmit_done (h : (write data s).1 < 0 ∨ (data.length : Int) ≤ (write data s).1) :
    resubmit write (fuel + 1) data s = some (write data s) := by
  rw [resubmit]
  exact if_pos h

/-- The count is short. -/
theorem resubmit_short (h : 0 ≤ (write data s).1) (hlt : (write data s).1 < data.length) :
    resubmit write (fuel + 1) data s =
      resubmit write fuel (data.drop (write data s).1.toNat) (write data s).2 := by
  rw [resubmit]
  exact if_neg (by omega)

/-- **The loop ends.** -/
theorem resubmit_ends (hpos : ∀ data s, data ≠ [] → (write data s).1 ≠ 0)
    (hfuel : data.length < fuel) : ∃ r, resubmit write fuel data s = some r := by
  induction fuel generalizing data s with
  | zero => omega
  | succ fuel ih =>
    by_cases h : (write data s).1 < 0 ∨ (data.length : Int) ≤ (write data s).1
    · exact ⟨_, resubmit_done h⟩
    · have hne : data ≠ [] := by
        rintro rfl
        exact h (Int.lt_or_le _ 0)
      have := hpos data s hne
      rw [resubmit_short (by omega) (by omega)]
      apply ih
      rw [List.length_drop]
      omega

/-- **The rule of the loop.** -/
theorem resubmit_rule {P : List α → σ → Prop} {Q : Int × σ → Prop}
    (hend : ∀ data s, P data s → (write data s).1 < 0 ∨ (data.length : Int) ≤ (write data s).1 →
      Q (write data s))
    (hshort : ∀ data s, P data s → 0 ≤ (write data s).1 → (write data s).1 < data.length →
      P (data.drop (write data s).1.toNat) (write data s).2)
    (h : P data s) {r : Int × σ} (hr : resubmit write fuel data s = some r) : Q r := by
  induction fuel generalizing data s with
  | zero => cases hr
  | succ fuel ih =>
    by_cases hdone : (write data s).1 < 0 ∨ (data.length : Int) ≤ (write data s).1
    · rw [resubmit_done hdone] at hr
      cases hr
      exact hend data s h hdone
    · rw [resubmit_short (by omega) (by omega)] at hr
      exact ih (hshort data s h (by omega) (by omega)) hr

end Resubmit
