import EmbeddedLinux.Lib.Interference
import Mathlib.Algebra.Order.BigOperators.Group.Finset

/-!
# Runs that come to an end

A system makes progress when each step decreases a rank and only the final states have no step
(`Progress`).  Then no run is longer than the rank of its first state, every run that cannot be
continued has ended in a final state, and every run can be continued to one.

All this is about the states with an invariant `P` and about the steps that meet `ok`, so that a
step that may be taken for ever (waiting, the passing of time) can be left out.  For threads over a
shared memory the rank may be a sum over the threads (`sum_move_lt`).
-/

namespace Transition

variable {σ α : Type*}

structure Progress (next : σ → α → Option σ) (ok : σ → α → Prop) (P Final : σ → Prop)
    (rank : σ → Nat) : Prop where
  keep : ∀ s a t, P s → ok s a → next s a = some t → P t
  down : ∀ s a t, P s → ok s a → next s a = some t → rank t < rank s
  goes : ∀ s, P s → ¬ Final s → ∃ a t, ok s a ∧ next s a = some t

namespace Progress

variable {next : σ → α → Option σ} {ok : σ → α → Prop} {P Final : σ → Prop} {rank : σ → Nat}
  {s t : σ} {as : List α}

theorem run (hp : Progress next ok P Final rank) (hs : P s) (hr : Run next ok s as t) : P t :=
  hr.invariant hs hp.keep

/-- **A bound on the length of a run.** -/
theorem length_add_rank_le (hp : Progress next ok P Final rank) (hs : P s)
    (hr : Run next ok s as t) : as.length + rank t ≤ rank s := by
  induction hr with
  | nil => rw [List.length_nil, Nat.zero_add]
  | snoc hr hok hn ih =>
    have hdown := hp.down _ _ _ (hp.run hs hr) hok hn
    rw [List.length_append, List.length_singleton]
    omega

theorem length_le (hp : Progress next ok P Final rank) (hs : P s) (hr : Run next ok s as t) :
    as.length ≤ rank s := by
  have h := hp.length_add_rank_le hs hr
  omega

/-- **Only a final state is stuck.** -/
theorem final_of_stuck (hp : Progress next ok P Final rank) (hs : P s)
    (hstuck : ∀ a, ok s a → next s a = none) : Final s := by
  by_contra hfinal
  obtain ⟨a, t, hok, hn⟩ := hp.goes s hs hfinal
  rw [hstuck a hok] at hn
  cases hn

/-- **Every run can be continued to a final state.** -/
theorem exists_final (hp : Progress next ok P Final rank) (hs : P s) :
    ∃ t, Reachable next ok s t ∧ P t ∧ Final t := by
  induction hk : rank s using Nat.strong_induction_on generalizing s with
  | h k ih =>
    by_cases hfinal : Final s
    · exact ⟨s, .refl s, hs, hfinal⟩
    · obtain ⟨a, t, hok, hn⟩ := hp.goes s hs hfinal
      have hdown := hp.down s a t hs hok hn
      obtain ⟨u, hu, hend⟩ := ih (rank t) (by omega) (hp.keep s a t hs hok hn) rfl
      exact ⟨u, ((Reachable.refl s).step hok hn).trans hu, hend⟩

end Progress

end Transition

namespace Interference

variable {T M L : Type*} [Fintype T] [DecidableEq T]

/-- A thread that decreases a rank of its own decreases the sum. -/
theorem sum_move_lt {s : State T M L} {t : T} {m : M} {l : L} {rank : T → L → Nat}
    (h : rank t l < rank t (s.pc t)) :
    ∑ u, rank u ((s.move t m l).pc u) < ∑ u, rank u (s.pc u) := by
  apply Finset.sum_lt_sum
  · intro u _
    by_cases hu : u = t
    · subst hu
      rw [State.move_self]
      exact le_of_lt h
    · rw [State.move_of_ne hu]
  · refine ⟨t, Finset.mem_univ t, ?_⟩
    rw [State.move_self]
    exact h

end Interference
