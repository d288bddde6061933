import Mathlib.Data.Set.Basic
import Mathlib.Data.List.Basic

/-!
# Runs of a transition system

A system is a function `next s a`, the state after the step `a` from `s`, or
`none` when `a` is not possible there.  All nondeterminism (which thread moves,
what a call returns) is in the choice of `a`.

`Run next ok s as t` says that the steps `as` lead from `s` to `t`, and that each
of them meets the condition `ok` in the state it is taken from.  With `Any` for
`ok` these are all the runs; a smaller `ok` gives the runs that keep clear of
some of the steps.  A run grows at its end, so an invariant is an induction on
the run (`Run.invariant`), and what is known of the state before the last step is
at hand.

`exec` computes the end of a run, so that a run on a fixed input is checked by
evaluation; `exec_run` and `run_exec` say it agrees with `Run`.
-/

namespace Transition

variable {σ τ α : Type*}

/-- The condition that every step meets. -/
def Any : σ → α → Prop := fun _ _ => True

/-- The steps `as` lead from the first state to the last, each meeting `ok`. -/
inductive Run (next : σ → α → Option σ) (ok : σ → α → Prop) : σ → List α → σ → Prop
  | nil (s : σ) : Run next ok s [] s
  | snoc {s t u : σ} {as : List α} {a : α} : Run next ok s as t → ok t a → next t a = some u →
      Run next ok s (as ++ [a]) u

/-- Some run from `s` ends in `t`. -/
def Reachable (next : σ → α → Option σ) (ok : σ → α → Prop) (s t : σ) : Prop :=
  ∃ as, Run next ok s as t

/-- The state after the steps `as`, if all of them are possible. -/
def exec (next : σ → α → Option σ) : σ → List α → Option σ
  | s, [] => some s
  | s, a :: as => (next s a).bind (fun t => exec next t as)

section
variable {next : σ → α → Option σ} {ok : σ → α → Prop} {s t u : σ} {as bs : List α}

/-! ### Invariants -/

/-- **The induction on a run.**  What holds at the start and is kept by every
step that meets `ok` holds at the end. -/
theorem Run.invariant {P : σ → Prop} (hr : Run next ok s as t) (h0 : P s)
    (hstep : ∀ t a u, P t → ok t a → next t a = some u → P u) : P t := by
  induction hr with
  | nil => exact h0
  | snoc _ hok hn ih => exact hstep _ _ _ ih hok hn

theorem Reachable.invariant {P : σ → Prop} (hr : Reachable next ok s t) (h0 : P s)
    (hstep : ∀ t a u, P t → ok t a → next t a = some u → P u) : P t := by
  obtain ⟨as, hr⟩ := hr
  exact hr.invariant h0 hstep

/-- A weaker condition has all the runs of a stronger one. -/
theorem Run.mono {ok' : σ → α → Prop} (hr : Run next ok s as t) (h : ∀ s a, ok s a → ok' s a) :
    Run next ok' s as t := by
  induction hr with
  | nil => exact .nil _
  | snoc _ hok hn ih => exact .snoc ih (h _ _ hok) hn

theorem Reachable.mono {ok' : σ → α → Prop} (hr : Reachable next ok s t)
    (h : ∀ s a, ok s a → ok' s a) : Reachable next ok' s t := by
  obtain ⟨as, hr⟩ := hr
  exact ⟨as, hr.mono h⟩

/-- **Two conditions with the same runs.**  They agree on every step from a state with `P`,
and such a step keeps `P`. -/
theorem Run.iff_of_invariant {P : σ → Prop} {ok' : σ → α → Prop} (h0 : P s)
    (hok : ∀ t a u, P t → next t a = some u → (ok t a ↔ ok' t a))
    (hstep : ∀ t a u, P t → ok' t a → next t a = some u → P u) :
    Run next ok s as t ↔ Run next ok' s as t := by
  constructor
  · intro hr
    suffices h : Run next ok' s as t ∧ P t from h.1
    induction hr with
    | nil => exact ⟨.nil _, h0⟩
    | snoc _ hstepOk hn ih =>
      have hstepOk' := (hok _ _ _ ih.2 hn).1 hstepOk
      exact ⟨.snoc ih.1 hstepOk' hn, hstep _ _ _ ih.2 hstepOk' hn⟩
  · intro hr
    suffices h : Run next ok s as t ∧ P t from h.1
    induction hr with
    | nil => exact ⟨.nil _, h0⟩
    | snoc _ hstepOk hn ih =>
      have hstepOk' := (hok _ _ _ ih.2 hn).2 hstepOk
      exact ⟨.snoc ih.1 hstepOk' hn, hstep _ _ _ ih.2 hstepOk hn⟩

/-! ### Putting runs together -/

theorem Run.append (h1 : Run next ok s as t) (h2 : Run next ok t bs u) :
    Run next ok s (as ++ bs) u := by
  induction h2 with
  | nil => rw [List.append_nil]; exact h1
  | snoc _ hok hn ih => rw [← List.append_assoc]; exact .snoc ih hok hn

theorem Run.single {a : α} (hok : ok s a) (hn : next s a = some t) : Run next ok s [a] t :=
  .snoc (.nil s) hok hn

theorem Run.cons {a : α} (hok : ok s a) (hn : next s a = some t) (h : Run next ok t as u) :
    Run next ok s (a :: as) u :=
  (Run.single hok hn).append h

theorem Reachable.refl (s : σ) : Reachable next ok s s := ⟨[], .nil s⟩

theorem Reachable.run (h1 : Reachable next ok s t) (h2 : Run next ok t as u) :
    Reachable next ok s u := by
  obtain ⟨bs, h1⟩ := h1
  exact ⟨bs ++ as, h1.append h2⟩

theorem Reachable.step {a : α} (h : Reachable next ok s t) (hok : ok t a)
    (hn : next t a = some u) : Reachable next ok s u :=
  h.run (.single hok hn)

theorem Reachable.trans (h1 : Reachable next ok s t) (h2 : Reachable next ok t u) :
    Reachable next ok s u := by
  obtain ⟨bs, h2⟩ := h2
  exact h1.run h2

/-- **The induction on a run** whose states are known to be reached. -/
theorem Reachable.invariant_reached {P : σ → Prop} (hr : Reachable next ok s t) (h0 : P s)
    (hstep : ∀ t a u, Reachable next ok s t → P t → ok t a → next t a = some u → P u) : P t := by
  have h : Reachable next ok s t ∧ P t :=
    hr.invariant (P := fun t => Reachable next ok s t ∧ P t) ⟨.refl s, h0⟩
      (fun t a u ht hok hn => ⟨ht.1.step hok hn, hstep t a u ht.1 ht.2 hok hn⟩)
  exact h.2

/-! ### Evaluating a run -/

theorem exec_append : exec next s (as ++ bs) = (exec next s as).bind (fun t => exec next t bs) := by
  induction as generalizing s with
  | nil => rfl
  | cons a as ih =>
    rw [List.cons_append, exec, exec, Option.bind_assoc]
    congr 1
    funext t
    exact ih

/-- What `exec` computes is a run. -/
theorem exec_run (h : exec next s as = some t) : Run next Any s as t := by
  induction as generalizing s with
  | nil => cases h; exact .nil _
  | cons a as ih =>
    rw [exec, Option.bind_eq_some_iff] at h
    obtain ⟨u, hn, hu⟩ := h
    exact .cons trivial hn (ih hu)

/-- Every run is what `exec` computes, so its end is determined by its steps. -/
theorem run_exec (h : Run next ok s as t) : exec next s as = some t := by
  induction h with
  | nil => rfl
  | snoc _ _ hn ih => rw [exec_append, ih]; simp [exec, hn]

/-- `next`, possible only where the step meets `ok`. -/
def guarded (next : σ → α → Option σ) (ok : σ → α → Prop) [∀ s a, Decidable (ok s a)] :
    σ → α → Option σ :=
  fun s a => if ok s a then next s a else none

/-- A run under a condition, checked by evaluation. -/
theorem exec_guarded [∀ s a, Decidable (ok s a)] (h : exec (guarded next ok) s as = some t) :
    Run next ok s as t := by
  induction as generalizing s with
  | nil => cases h; exact .nil _
  | cons a as ih =>
    rw [exec, Option.bind_eq_some_iff] at h
    obtain ⟨u, hn, hu⟩ := h
    rw [guarded] at hn
    split at hn
    · rename_i hok
      exact .cons hok hn (ih hu)
    · cases hn

/-! ### Simulation -/

/-- The steps `as` of a relation lead from the first state to the last. -/
inductive Steps (next' : τ → α → τ → Prop) : τ → List α → τ → Prop
  | nil (m : τ) : Steps next' m [] m
  | snoc {m n k : τ} {as : List α} {a : α} : Steps next' m as n → next' n a k →
      Steps next' m (as ++ [a]) k

/-- **Simulation.**  Where every step from related states is matched by a step of
`next'` that ends in related states, every run is matched step by step. -/
theorem Run.simulate {R : σ → τ → Prop} {next' : τ → α → τ → Prop} {m : τ}
    (hr : Run next ok s as t) (h0 : R s m)
    (hsim : ∀ s m a t, R s m → ok s a → next s a = some t → ∃ m', next' m a m' ∧ R t m') :
    ∃ m', Steps next' m as m' ∧ R t m' := by
  induction hr with
  | nil => exact ⟨m, .nil m, h0⟩
  | snoc _ hok hn ih =>
    obtain ⟨m₁, hm₁, hrel⟩ := ih
    obtain ⟨m₂, hm₂, hrel'⟩ := hsim _ _ _ _ hrel hok hn
    exact ⟨m₂, .snoc hm₁ hm₂, hrel'⟩

/-- **One machine inside another.**  Where a step from `f m` is the step of `next'` from `m`, the
runs from `f m` are those of `next'` from `m`. -/
theorem run_map_iff {f : τ → σ} {next' : τ → α → Option τ} {m : τ}
    (h : ∀ m a, next (f m) a = (next' m a).map f) :
    Run next ok (f m) as t ↔ ∃ n, Run next' (fun m a => ok (f m) a) m as n ∧ f n = t := by
  constructor
  · intro hr
    induction hr with
    | nil => exact ⟨m, .nil m, rfl⟩
    | snoc _ hok hn ih =>
      obtain ⟨n, hr', rfl⟩ := ih
      rw [h, Option.map_eq_some_iff] at hn
      obtain ⟨k, hk, rfl⟩ := hn
      exact ⟨k, .snoc hr' hok hk, rfl⟩
  · intro hr
    obtain ⟨n, hr, rfl⟩ := hr
    induction hr with
    | nil => exact .nil _
    | snoc _ hok hn ih => exact .snoc ih hok (by rw [h, hn]; rfl)

end

end Transition
