import Mathlib.Data.Finmap

/-!
# A bounded map whose keys come from a counter

`IdTable V cap limit` is a finite map from integers to `V` with at most `cap`
entries.  A new entry gets the value of a counter as its key, and the counter
then moves on; it stops at `limit`.  The bounds are fields, so a table that breaks
them cannot be built, and every key lies below the counter, so a key that has been
removed is never given out again.
-/

/-- A map with at most `cap` entries, under keys below the counter `next`. -/
structure IdTable (V : Type*) (cap : ℕ) (limit : ℤ) where
  entries : Finmap (fun _ : ℤ => V)
  next : ℤ
  card_le : entries.keys.card ≤ cap
  key_lt : ∀ k ∈ entries, k < next
  next_le : next ≤ limit

namespace IdTable

variable {V : Type*} {cap : ℕ} {limit : ℤ}

def lookup (t : IdTable V cap limit) (k : ℤ) : Option V := t.entries.lookup k

/-- There is room for an entry and a key for it. -/
def CanAdd (t : IdTable V cap limit) : Prop := t.entries.keys.card < cap ∧ t.next < limit

instance (t : IdTable V cap limit) : Decidable t.CanAdd :=
  inferInstanceAs (Decidable (_ < _ ∧ _ < _))

def empty (cap : ℕ) (next : ℤ) (h : next ≤ limit) : IdTable V cap limit where
  entries := ∅
  next := next
  card_le := by simp
  key_lt := fun k hk => absurd hk Finmap.notMem_empty
  next_le := h

/-- The table with `v` under the counter's value. -/
def add (t : IdTable V cap limit) (v : V) (h : t.CanAdd) : IdTable V cap limit where
  entries := t.entries.insert t.next v
  next := t.next + 1
  card_le := by
    have hkeys : (t.entries.insert t.next v).keys = insert t.next t.entries.keys := by
      ext k
      simp only [Finmap.mem_keys, Finmap.mem_insert, Finset.mem_insert]
    rw [hkeys]
    exact le_trans (Finset.card_insert_le _ _) h.1
  key_lt := by
    intro k hk
    rw [Finmap.mem_insert] at hk
    rcases hk with rfl | hk
    · omega
    · have := t.key_lt k hk
      omega
  next_le := by
    have := h.2
    omega

/-- The table without the entry of `k`, if there is one. -/
def remove (t : IdTable V cap limit) (k : ℤ) : IdTable V cap limit where
  entries := t.entries.erase k
  next := t.next
  card_le := by
    rw [Finmap.keys_erase]
    exact le_trans (Finset.card_erase_le) t.card_le
  key_lt := fun j hj => t.key_lt j (Finmap.mem_erase.mp hj).2
  next_le := t.next_le

/-- The table without entries; the counter stays. -/
def clear (t : IdTable V cap limit) : IdTable V cap limit := empty cap t.next t.next_le

/-! ### Lookups -/

@[simp] theorem lookup_empty (next : ℤ) (h : next ≤ limit) (k : ℤ) :
    (empty cap next h : IdTable V cap limit).lookup k = none :=
  Finmap.lookup_empty k

@[simp] theorem lookup_clear (t : IdTable V cap limit) (k : ℤ) : t.clear.lookup k = none :=
  Finmap.lookup_empty k

/-- No key at or above the counter is in use. -/
theorem lookup_add (t : IdTable V cap limit) (v : V) (h : t.CanAdd) (k : ℤ) :
    (t.add v h).lookup k = if k = t.next then some v else t.lookup k := by
  by_cases hk : k = t.next
  · subst hk
    rw [if_pos rfl]
    exact Finmap.lookup_insert _
  · rw [if_neg hk]
    exact Finmap.lookup_insert_of_ne _ hk

theorem lookup_remove (t : IdTable V cap limit) (j k : ℤ) :
    (t.remove j).lookup k = if k = j then none else t.lookup k := by
  by_cases hk : k = j
  · subst hk
    rw [if_pos rfl]
    exact Finmap.lookup_erase _ _
  · rw [if_neg hk]
    exact Finmap.lookup_erase_ne hk

end IdTable
