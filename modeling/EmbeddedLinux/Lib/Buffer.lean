import Mathlib.Data.List.Basic

/-!
# Arrays with checked accesses

An array is a list of its elements, and an index an integer.  An access outside of the array has
no result.  So a function over `load`, `store` and `copyIn` that has a result on all inputs stays
inside of its arrays.
-/

namespace Buffer

variable {α : Type*}

def load (b : List α) (i : Int) : Option α := if 0 ≤ i then b[i.toNat]? else none

def store (b : List α) (i : Int) (x : α) : Option (List α) :=
  if 0 ≤ i ∧ i < b.length then some (b.set i.toNat x) else none

/-- The data at the start of the array. -/
def copyIn (b data : List α) : Option (List α) :=
  if data.length ≤ b.length then some (data ++ b.drop data.length) else none

theorem load_of_lt {b : List α} {i : Nat} (h : i < b.length) : load b i = some b[i] := by
  rw [load, if_pos (by omega), Int.toNat_natCast, List.getElem?_eq_getElem h]

theorem store_of_lt {b : List α} {i : Nat} (h : i < b.length) (x : α) :
    store b i x = some (b.set i x) :=
  if_pos (by omega)

theorem store_append (a r : List α) (x y : α) :
    store (a ++ x :: r) a.length y = some (a ++ y :: r) := by
  have hlt : (a.length : Int) < (a ++ x :: r).length := by
    rw [List.length_append, List.length_cons]
    omega
  rw [store, if_pos ⟨by omega, hlt⟩, Int.toNat_natCast, List.set_append_right _ _ (Nat.le_refl _),
    Nat.sub_self]
  rfl

theorem copyIn_of_le {b data : List α} (h : data.length ≤ b.length) :
    copyIn b data = some (data ++ b.drop data.length) :=
  if_pos h

/-- There is room behind the data. -/
theorem drop_eq_cons {b data : List α} (h : data.length < b.length) :
    ∃ x r, b.drop data.length = x :: r :=
  ⟨_, _, List.drop_eq_getElem_cons h⟩

end Buffer
