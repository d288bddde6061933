import Mathlib.Data.List.Basic

/-!
# Messages on a stream without boundaries

A writer hands messages to a stream, which accepts a first part of each.  A reader gets
the accepted elements in order, cut into pieces anywhere.  `Portion` is a message with the
length of the part that was accepted.

The pieces are the messages exactly when every message was accepted whole and the
pieces have the lengths of the messages (`pieces_eq_iff`).  So a stream that may cut
where it likes gives the messages back only if the lengths are known to the reader.
-/

namespace Segment

variable {α : Type*}

/-- A message, and how many of its elements were accepted. -/
structure Portion (α : Type*) where
  msg : List α
  accepted : Nat
  le : accepted ≤ msg.length

namespace Portion

def taken (x : Portion α) : List α := x.msg.take x.accepted

theorem length_taken (x : Portion α) : x.taken.length = x.accepted := by
  rw [taken, List.length_take]
  exact Nat.min_eq_left x.le

def whole (x : Portion α) : Prop := x.accepted = x.msg.length

instance (x : Portion α) : Decidable x.whole := inferInstanceAs (Decidable (_ = _))

theorem taken_of_whole {x : Portion α} (h : x.whole) : x.taken = x.msg := by
  rw [taken, show x.accepted = x.msg.length from h, List.take_length]

end Portion

/-- What was accepted is not longer than the messages, and as long only if each was
accepted whole. -/
theorem whole_of_length {L : List (Portion α)}
    (h : (L.map Portion.taken).flatten.length = (L.map Portion.msg).flatten.length) :
    ∀ x ∈ L, x.whole := by
  have hle : ∀ L : List (Portion α),
      (L.map Portion.taken).flatten.length ≤ (L.map Portion.msg).flatten.length := by
    intro L
    induction L with
    | nil => exact Nat.le_refl _
    | cons x L ih =>
      simp only [List.map_cons, List.flatten_cons, List.length_append, Portion.length_taken]
      have := x.le
      omega
  induction L with
  | nil =>
    intro x hx
    cases hx
  | cons x L ih =>
    simp only [List.map_cons, List.flatten_cons, List.length_append, Portion.length_taken] at h
    have hx := x.le
    have hL := hle L
    intro y hy
    rcases List.mem_cons.mp hy with rfl | hy
    · show y.accepted = y.msg.length
      omega
    · exact ih (by omega) y hy

theorem taken_eq_msg {L : List (Portion α)} (h : ∀ x ∈ L, x.whole) :
    L.map Portion.taken = L.map Portion.msg :=
  List.map_congr_left (fun x hx => Portion.taken_of_whole (h x hx))

/-- **When the pieces are the messages.** -/
theorem pieces_eq_iff {L : List (Portion α)} {P : List (List α)}
    (h : P.flatten = (L.map Portion.taken).flatten) :
    P = L.map Portion.msg ↔
      (∀ x ∈ L, x.whole) ∧ P.map List.length = (L.map Portion.msg).map List.length := by
  constructor
  · intro hP
    refine ⟨whole_of_length ?_, by rw [hP]⟩
    rw [← h, hP]
  · rintro ⟨hw, hlen⟩
    rw [taken_eq_msg hw] at h
    exact List.eq_iff_flatten_eq.mpr ⟨h, hlen⟩

end Segment
