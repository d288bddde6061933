import Mathlib.Data.List.Basic

/-!
# The lines of a stream

A stream is a list whose lines end with a separator.  `linesFrom` splits it from left to right
and keeps where each line starts, so that two lines with the same elements are told apart.  Only
complete lines are given; what stands behind the last separator is the start of a line to come.

The scan is carried on from any point: `start` is where the current line has begun, and
`cur` are its elements so far.
-/

namespace Lines

variable {α : Type*}

/-- A line, with its separator, and where in the stream it starts. -/
structure Line (α : Type*) where
  start : Nat
  elems : List α
  deriving DecidableEq

variable [DecidableEq α] {sep : α}

def linesFrom (sep : α) (start : Nat) (cur : List α) : List α → List (Line α)
  | [] => []
  | x :: s =>
    if x = sep then
      { start := start, elems := cur ++ [x] } :: linesFrom sep (start + cur.length + 1) [] s
    else linesFrom sep start (cur ++ [x]) s

/-- The complete lines of a stream. -/
def completeLines (sep : α) (s : List α) : List (Line α) := linesFrom sep 0 [] s

/-- Elements that are no separator are added to the current line. -/
theorem linesFrom_append {x : List α} (h : sep ∉ x) (start : Nat) (cur s : List α) :
    linesFrom sep start cur (x ++ s) = linesFrom sep start (cur ++ x) s := by
  induction x generalizing cur with
  | nil => rw [List.nil_append, List.append_nil]
  | cons y x ih =>
    rw [List.mem_cons, not_or] at h
    rw [List.cons_append, linesFrom, if_neg (Ne.symm h.1), ih h.2, List.append_assoc]
    rfl

/-- The end of a line. -/
theorem linesFrom_sep (start : Nat) (cur s : List α) :
    linesFrom sep start cur (sep :: s) =
      { start := start, elems := cur ++ [sep] } ::
        linesFrom sep (start + cur.length + 1) [] s := by
  rw [linesFrom, if_pos rfl]

/-- The first line goes on from the current elements, and the others start behind them. -/
theorem start_of_mem {start : Nat} {cur s : List α} {l : Line α}
    (h : l ∈ linesFrom sep start cur s) :
    (l.start = start ∧ cur.length < l.elems.length) ∨ start + cur.length < l.start := by
  induction s generalizing start cur with
  | nil => cases h
  | cons x s ih =>
    rw [linesFrom] at h
    split at h
    · rcases List.mem_cons.1 h with rfl | h
      · refine Or.inl ⟨rfl, ?_⟩
        simp
      · have := ih h
        rw [List.length_nil] at this
        omega
    · have := ih h
      rw [List.length_append, List.length_singleton] at this
      omega

/-- A line has an element at least, and lies within the stream. -/
theorem end_of_mem {start : Nat} {cur s : List α} {l : Line α}
    (h : l ∈ linesFrom sep start cur s) :
    0 < l.elems.length ∧ l.start + l.elems.length ≤ start + cur.length + s.length := by
  induction s generalizing start cur with
  | nil => cases h
  | cons x s ih =>
    rw [linesFrom] at h
    rw [List.length_cons]
    split at h
    · rcases List.mem_cons.1 h with rfl | h
      · show 0 < (cur ++ [x]).length ∧ start + (cur ++ [x]).length ≤ _
        rw [List.length_append, List.length_singleton]
        omega
      · have := ih h
        rw [List.length_nil] at this
        omega
    · have := ih h
      rw [List.length_append, List.length_singleton] at this
      omega

end Lines
