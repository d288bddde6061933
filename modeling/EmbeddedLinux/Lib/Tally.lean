import Mathlib.Algebra.BigOperators.Group.Finset.Piecewise
import Mathlib.Algebra.BigOperators.Group.Finset.Basic
import Mathlib.Algebra.Order.BigOperators.Group.Finset
import Mathlib.Data.Fintype.BigOperators

/-!
# Counting the components of a family

`tally p f` is the number of indices `i` whose component `f i` satisfies `p i`.  A
step of a system of many processes changes one component, and `tally_update` says
what that does to a count: the invariant of such a system is a few equations
between counts, and each step adds and takes a one.
-/

namespace Tally

variable {ι α : Type*} [Fintype ι]

def tally (p : ι → α → Bool) (f : ι → α) : Nat := ∑ i, (p i (f i)).toNat

variable {p q : ι → α → Bool} {f g : ι → α}

theorem toNat_le_one (b : Bool) : b.toNat ≤ 1 := by
  cases b <;> decide

/-- **One component changes.** -/
theorem tally_update [DecidableEq ι] (p : ι → α → Bool) (f : ι → α) (i : ι) (a : α) :
    tally p (Function.update f i a) + (p i (f i)).toNat = tally p f + (p i a).toNat := by
  have hsum : ∀ j, (p j (Function.update f i a j)).toNat =
      Function.update (fun j => (p j (f j)).toNat) i (p i a).toNat j := by
    intro j
    by_cases hj : j = i
    · subst hj
      rw [Function.update_self, Function.update_self]
    · rw [Function.update_of_ne hj, Function.update_of_ne hj]
  rw [tally, Finset.sum_congr rfl (fun j _ => hsum j), Finset.sum_update_of_mem (Finset.mem_univ i),
    Finset.sdiff_singleton_eq_erase, tally, ← Finset.add_sum_erase _ _ (Finset.mem_univ i)]
  omega

theorem tally_eq_zero : tally p f = 0 ↔ ∀ i, p i (f i) = false := by
  rw [tally, Finset.sum_eq_zero_iff]
  constructor
  · intro h i
    have := h i (Finset.mem_univ i)
    cases hp : p i (f i) with
    | false => rfl
    | true =>
      rw [hp] at this
      cases this
  · intro h i _
    rw [h i]
    rfl

theorem tally_pos : 0 < tally p f ↔ ∃ i, p i (f i) = true := by
  rw [Nat.pos_iff_ne_zero, ne_eq, tally_eq_zero]
  push Not
  simp

theorem tally_pos_of {i : ι} (h : p i (f i) = true) : 0 < tally p f := tally_pos.mpr ⟨i, h⟩

/-- Two indices that count are one, where the count is at most one. -/
theorem eq_of_tally_le_one [DecidableEq ι] (h : tally p f ≤ 1) {i j : ι} (hi : p i (f i) = true)
    (hj : p j (f j) = true) : i = j := by
  by_contra hne
  have hsum := Finset.add_sum_erase Finset.univ (fun k => (p k (f k)).toNat) (Finset.mem_univ i)
  have hle : (p j (f j)).toNat ≤ ∑ k ∈ Finset.univ.erase i, (p k (f k)).toNat :=
    Finset.single_le_sum (f := fun k => (p k (f k)).toNat) (fun _ _ => Nat.zero_le _)
      (Finset.mem_erase.mpr ⟨fun e => hne e.symm, Finset.mem_univ j⟩)
  rw [hj] at hle
  simp only [hi, Bool.toNat_true] at hsum hle
  rw [tally] at h
  omega

theorem tally_congr (h : ∀ i, p i (f i) = q i (g i)) : tally p f = tally q g :=
  Finset.sum_congr rfl (fun i _ => congrArg Bool.toNat (h i))

/-- Every index counts or does not. -/
theorem tally_add_not (p : ι → α → Bool) (f : ι → α) :
    tally p f + tally (fun i a => !p i a) f = Fintype.card ι := by
  have hone : ∀ i, (p i (f i)).toNat + (!p i (f i)).toNat = 1 := by
    intro i
    cases p i (f i) <;> rfl
  rw [tally, tally, ← Finset.sum_add_distrib, Finset.sum_congr rfl (fun i _ => hone i),
    ← Finset.card_eq_sum_ones, Finset.card_univ]

/-- A count, split by a second condition. -/
theorem tally_split (p : ι → α → Bool) (f : ι → α) (r : ι → Bool) :
    tally p f = tally (fun i a => r i && p i a) f + tally (fun i a => !r i && p i a) f := by
  rw [tally, tally, tally, ← Finset.sum_add_distrib]
  apply Finset.sum_congr rfl
  intro i _
  cases r i <;> cases p i (f i) <;> rfl

end Tally
