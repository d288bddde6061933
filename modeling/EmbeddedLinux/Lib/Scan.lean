import EmbeddedLinux.Lib.Tally
import Mathlib.Data.Fintype.Fin
import Mathlib.Order.Interval.Set.OrdConnected

/-!
# Counting a table that changes while it is scanned

A table of `n` slots is read slot by slot, from the lowest, and the filled ones are
counted.  Meanwhile others fill its lowest free slot or clear its lowest filled slot, one
slot at a time.  The reader sees each slot at a different moment, and still its count
is the number of filled slots at one moment of the scan (`Between.count_mem`).

Let `c` be the count after the first `k` slots, and `ahead` the filled slots among the
others.  Then `c + ahead` is what the count will be if nothing changes any more.  A
change behind the reader leaves it; one ahead of the reader says that the slots behind
are all filled, or all free, so it moves `c + ahead` towards the true number.  Hence the
true number has been on both sides of it, and as it changes by one at a time, it has
been equal to it.
-/

namespace Scan

open Tally

variable {n : Nat}

/-- The number of filled slots. -/
def held (b : Fin n → Bool) : Nat := tally (fun _ x => x) b

/-- The number of filled slots from the slot `k` on. -/
def ahead (b : Fin n → Bool) (k : Nat) : Nat := tally (fun i x => decide (k ≤ i.val) && x) b

/-- The number of filled slots below the slot `k`. -/
def behind (b : Fin n → Bool) (k : Nat) : Nat := tally (fun i x => !decide (k ≤ i.val) && x) b

theorem held_eq (b : Fin n → Bool) (k : Nat) : held b = behind b k + ahead b k := by
  rw [Nat.add_comm]
  exact tally_split _ b (fun i => decide (k ≤ i.val))

theorem ahead_all (b : Fin n → Bool) : ahead b n = 0 := by
  rw [ahead, tally_eq_zero]
  intro i
  have : ¬ n ≤ i.val := by omega
  simp [this]

/-- Reading the slot `k` moves it behind the reader. -/
theorem ahead_succ (b : Fin n → Bool) (k : Fin n) :
    ahead b k = ahead b (k + 1) + (b k).toNat := by
  have hu := tally_update (fun (i : Fin n) x => decide (k.val ≤ i.val) && x) b k false
  have hc : tally (fun (i : Fin n) x => decide (k.val ≤ i.val) && x) (Function.update b k false) =
      ahead b (k + 1) := by
    apply tally_congr
    intro i
    by_cases hi : i = k
    · subst hi
      simp
    · rw [Function.update_of_ne hi]
      have hv : i.val ≠ k.val := fun e => hi (Fin.ext e)
      have : k.val ≤ i.val ↔ k.val + 1 ≤ i.val := by omega
      simp [this]
  rw [hc] at hu
  simp only [le_refl, decide_true, Bool.true_and, Bool.toNat_false, Nat.add_zero] at hu
  exact hu.symm

theorem behind_zero (b : Fin n → Bool) : behind b 0 = 0 := by
  rw [behind, tally_eq_zero]
  intro i
  simp

/-- Behind a reader with only filled slots behind it there are `k` filled slots. -/
theorem behind_eq {b : Fin n → Bool} {k : Nat} (hk : k ≤ n)
    (h : ∀ i : Fin n, i.val < k → b i = true) : behind b k = k := by
  induction k with
  | zero => exact behind_zero b
  | succ k ih =>
    have h1 := held_eq b k
    have h2 := held_eq b (k + 1)
    have h3 := ahead_succ b ⟨k, hk⟩
    have h4 := ih (by omega) (fun i hi => h i (by omega))
    rw [h ⟨k, hk⟩ (by simp)] at h3
    simp only [Bool.toNat_true] at h3
    omega

theorem behind_none {b : Fin n → Bool} {k : Nat} (h : ∀ i : Fin n, i.val < k → b i = false) :
    behind b k = 0 := by
  rw [behind, tally_eq_zero]
  intro i
  by_cases hi : k ≤ i.val
  · simp [hi]
  · rw [h i (by omega), Bool.and_false]

/-! ### A slot changes -/

theorem held_fill {b : Fin n → Bool} {j : Fin n} (hj : b j = false) :
    held (Function.update b j true) = held b + 1 := by
  have := tally_update (fun _ x => x) b j true
  simpa [hj, held] using this

theorem held_clear {b : Fin n → Bool} {j : Fin n} (hj : b j = true) :
    held (Function.update b j false) + 1 = held b := by
  have := tally_update (fun _ x => x) b j false
  simpa [hj, held] using this

/-- What a change of one slot does ahead of the reader. -/
theorem ahead_update (b : Fin n → Bool) (j : Fin n) (x : Bool) (k : Nat) :
    ahead (Function.update b j x) k + (decide (k ≤ j.val) && b j).toNat =
      ahead b k + (decide (k ≤ j.val) && x).toNat :=
  tally_update (fun (i : Fin n) x => decide (k ≤ i.val) && x) b j x

/-! ### The scan -/

/-- After `k` slots the count is `c`, and `W` are the numbers of filled slots there have
been since the scan began. -/
structure Between (b : Fin n → Bool) (k c : Nat) (W : Set Nat) : Prop where
  now : held b ∈ W
  connected : W.OrdConnected
  below : ∃ w ∈ W, w ≤ c + ahead b k
  above : ∃ w ∈ W, c + ahead b k ≤ w
  le : c ≤ k

/-- A number next to a member is added. -/
theorem ordConnected_insert {W : Set Nat} {m x : Nat} (hW : W.OrdConnected) (hm : m ∈ W)
    (hx : x = m + 1 ∨ m = x + 1) : (insert x W).OrdConnected := by
  refine ⟨?_⟩
  have hmem : ∀ {y z w : Nat}, y ∈ W → w ∈ W → y ≤ z → z ≤ w → z ∈ W :=
    fun hy hw h1 h2 => hW.out hy hw ⟨h1, h2⟩
  rintro y hy w hw z ⟨h1, h2⟩
  by_cases hz : z = x
  · exact Or.inl hz
  · right
    rcases hy with rfl | hy <;> rcases hw with rfl | hw
    · omega
    · exact hmem hm hw (by omega) h2
    · exact hmem hy hm h1 (by omega)
    · exact hmem hy hw h1 h2

namespace Between

variable {b : Fin n → Bool} {k c : Nat} {W : Set Nat}

/-- The first slot has been read. -/
theorem first (b : Fin (n + 1) → Bool) : Between b 1 (b 0).toNat {held b} := by
  have h : (b 0).toNat + ahead b 1 = held b := by
    have h0 := held_eq b 0
    have h1 := ahead_succ b 0
    rw [behind_zero] at h0
    simp only [Fin.val_zero, Nat.zero_add] at h0 h1
    omega
  refine ⟨rfl, Set.ordConnected_singleton, ⟨_, rfl, ?_⟩, ⟨_, rfl, ?_⟩, toNat_le_one _⟩
  · rw [h]
  · rw [h]

/-- The next slot is read. -/
theorem read {k : Fin n} (h : Between b k c W) : Between b (k + 1) (c + (b k).toNat) W := by
  have hk : c + ahead b k = c + (b k).toNat + ahead b (k + 1) := by
    rw [ahead_succ]
    omega
  have hle := h.le
  have h1 := toNat_le_one (b k)
  refine ⟨h.now, h.connected, ?_, ?_, by omega⟩
  · rw [← hk]
    exact h.below
  · rw [← hk]
    exact h.above

/-- The lowest free slot is filled. -/
theorem fill (h : Between b k c W) (hk : k ≤ n) {j : Fin n} (hj : b j = false)
    (hlow : ∀ i < j, b i = true) :
    Between (Function.update b j true) k c (insert (held (Function.update b j true)) W) := by
  have hheld := held_fill hj
  have hahead := ahead_update b j true k
  rw [hj, Bool.and_false, Bool.and_true] at hahead
  obtain ⟨w, hw, hwle⟩ := h.below
  obtain ⟨v, hv, hvle⟩ := h.above
  refine ⟨Or.inl rfl, ordConnected_insert h.connected h.now (Or.inl hheld), ?_, ?_, h.le⟩
  · refine ⟨w, Or.inr hw, ?_⟩
    simp only [Bool.toNat_false] at hahead
    omega
  · by_cases hkj : k ≤ j.val
    · -- all slots behind the reader are filled, so the true number is not below
      refine ⟨_, Or.inl rfl, ?_⟩
      have hbehind : behind (Function.update b j true) k = k := by
        refine behind_eq hk (fun i hi => ?_)
        have hne : i ≠ j := by
          rintro rfl
          omega
        rw [Function.update_of_ne hne]
        exact hlow i (Fin.lt_def.mpr (by omega))
      have hsum := held_eq (Function.update b j true) k
      have hle := h.le
      omega
    · refine ⟨v, Or.inr hv, ?_⟩
      simp only [hkj, decide_false, Bool.toNat_false] at hahead
      omega

/-- The lowest filled slot is cleared. -/
theorem clear (h : Between b k c W) {j : Fin n} (hj : b j = true) (hlow : ∀ i < j, b i = false) :
    Between (Function.update b j false) k c (insert (held (Function.update b j false)) W) := by
  have hheld := held_clear hj
  have hahead := ahead_update b j false k
  rw [hj, Bool.and_false, Bool.and_true] at hahead
  obtain ⟨w, hw, hwle⟩ := h.below
  obtain ⟨v, hv, hvle⟩ := h.above
  refine ⟨Or.inl rfl, ordConnected_insert h.connected h.now (Or.inr hheld.symm), ?_, ?_, h.le⟩
  · by_cases hkj : k ≤ j.val
    · -- no slot behind the reader is filled, so the true number is not above
      refine ⟨_, Or.inl rfl, ?_⟩
      have hbehind : behind (Function.update b j false) k = 0 := by
        refine behind_none (fun i hi => ?_)
        have hne : i ≠ j := by
          rintro rfl
          omega
        rw [Function.update_of_ne hne]
        exact hlow i (Fin.lt_def.mpr (by omega))
      have hsum := held_eq (Function.update b j false) k
      omega
    · refine ⟨w, Or.inr hw, ?_⟩
      simp only [hkj, decide_false, Bool.toNat_false] at hahead
      omega
  · refine ⟨v, Or.inr hv, ?_⟩
    simp only [Bool.toNat_false] at hahead
    omega

/-- **The count is the number of filled slots at some moment of the scan.** -/
theorem count_mem (h : Between b n c W) : c ∈ W := by
  obtain ⟨w, hw, hwle⟩ := h.below
  obtain ⟨v, hv, hvle⟩ := h.above
  rw [ahead_all, Nat.add_zero] at hwle hvle
  exact h.connected.out hw hv ⟨hwle, hvle⟩

end Between

end Scan
