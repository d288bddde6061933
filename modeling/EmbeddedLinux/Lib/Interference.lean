import EmbeddedLinux.Lib.Transition
import Mathlib.Logic.Function.Basic

/-!
# Threads over a shared memory

Each thread has a local state of its own, its place in its program and what it has read so
far.  A step of a thread reads and changes the memory and this local state; what the rest of the
world decides in the step is its input.  Runs interleave the steps of any threads, of which
there may be any number.

`Outline` is the proof rule of Owicki and Gries.  There is an invariant of the memory, and for each
thread an assertion about its local state and the memory.  The steps of a thread keep the
invariant and its own assertion (`own`), and do not interfere with the assertions of the others
(`others`).  Then all of them hold in every state that is reached (`Outline.run`).

A condition `ok` on the steps leaves out some of the runs.
-/

namespace Interference

open Transition

variable {T M L E : Type*}

structure State (T M L : Type*) where
  mem : M
  pc : T → L

variable [DecidableEq T]

/-- The thread `t` goes to `l`, and leaves the memory `m`. -/
def State.move (s : State T M L) (t : T) (m : M) (l : L) : State T M L :=
  { mem := m, pc := Function.update s.pc t l }

@[simp] theorem State.move_mem (s : State T M L) (t : T) (m : M) (l : L) :
    (s.move t m l).mem = m := rfl

theorem State.move_self (s : State T M L) (t : T) (m : M) (l : L) : (s.move t m l).pc t = l :=
  Function.update_self ..

theorem State.move_of_ne {t u : T} (h : u ≠ t) (s : State T M L) (m : M) (l : L) :
    (s.move t m l).pc u = s.pc u :=
  Function.update_of_ne h ..

theorem State.move_move (s : State T M L) (t : T) (m m' : M) (l l' : L) :
    (s.move t m l).move t m' l' = s.move t m' l' := by
  rw [State.move, State.move, Function.update_idem]
  rfl

/-- A thread that stays where it is. -/
theorem State.move_same (s : State T M L) (t : T) : s.move t s.mem (s.pc t) = s := by
  rw [State.move, Function.update_eq_self]

/-- The step of the thread `a.1` with the input `a.2`. -/
def next (step : T → E → M → L → Option (M × L)) (s : State T M L) (a : T × E) :
    Option (State T M L) :=
  (step a.1 a.2 s.mem (s.pc a.1)).map (fun r => s.move a.1 r.1 r.2)

/-- A condition on the steps of the threads, as one on the steps of a run. -/
def When (ok : T → E → M → L → Prop) (s : State T M L) (a : T × E) : Prop :=
  ok a.1 a.2 s.mem (s.pc a.1)

instance {ok : T → E → M → L → Prop} [∀ t e m l, Decidable (ok t e m l)] (s : State T M L)
    (a : T × E) : Decidable (When ok s a) :=
  inferInstanceAs (Decidable (ok a.1 a.2 s.mem (s.pc a.1)))

/-- The invariant, and the assertions of all threads. -/
def Holds (I : M → Prop) (A : T → L → M → Prop) (s : State T M L) : Prop :=
  I s.mem ∧ ∀ t, A t (s.pc t) s.mem

/-- **A proof outline.** -/
structure Outline (step : T → E → M → L → Option (M × L)) (ok : T → E → M → L → Prop)
    (I : M → Prop) (A : T → L → M → Prop) : Prop where
  own : ∀ t e m l m' l', I m → A t l m → ok t e m l → step t e m l = some (m', l') →
    I m' ∧ A t l' m'
  others : ∀ t e m l m' l' u k, u ≠ t → I m → A t l m → A u k m → ok t e m l →
    step t e m l = some (m', l') → A u k m'

variable {step : T → E → M → L → Option (M × L)} {ok : T → E → M → L → Prop}
  {I : M → Prop} {A : T → L → M → Prop} {s s' : State T M L} {as : List (T × E)}

theorem next_eq_some {a : T × E} : next step s a = some s' ↔
    ∃ m l, step a.1 a.2 s.mem (s.pc a.1) = some (m, l) ∧ s' = s.move a.1 m l := by
  unfold next
  rw [Option.map_eq_some_iff]
  constructor
  · rintro ⟨⟨m, l⟩, h, rfl⟩
    exact ⟨m, l, h, rfl⟩
  · rintro ⟨m, l, h, rfl⟩
    exact ⟨(m, l), h, rfl⟩

/-- One step of one thread. -/
theorem Outline.keep (ho : Outline step ok I A) (hs : Holds I A s) {a : T × E}
    (hok : When ok s a) (hn : next step s a = some s') : Holds I A s' := by
  obtain ⟨t, e⟩ := a
  obtain ⟨m, l, hstep, rfl⟩ := next_eq_some.1 hn
  obtain ⟨hI, hA⟩ := hs
  obtain ⟨hI', hA'⟩ := ho.own t e _ _ m l hI (hA t) hok hstep
  refine ⟨hI', fun u => ?_⟩
  by_cases hut : u = t
  · subst hut
    rw [State.move_self]
    exact hA'
  · rw [State.move_of_ne hut]
    exact ho.others t e _ _ m l u _ hut hI (hA t) (hA u) hok hstep

/-- **What an outline proves.** -/
theorem Outline.run (ho : Outline step ok I A) (hs : Holds I A s)
    (hr : Run (next step) (When ok) s as s') : Holds I A s' :=
  hr.invariant hs (fun _ _ _ hs hok hn => ho.keep hs hok hn)

theorem Outline.reachable (ho : Outline step ok I A) (hs : Holds I A s)
    (hr : Reachable (next step) (When ok) s s') : Holds I A s' := by
  obtain ⟨as, hr⟩ := hr
  exact ho.run hs hr

/-- Without a condition. -/
theorem Outline.any (ho : Outline step (fun _ _ _ _ => True) I A) (hs : Holds I A s)
    (hr : Reachable (next step) Any s s') : Holds I A s' :=
  ho.reachable hs (hr.mono (fun _ _ _ => trivial))

/-! ### One thread alone -/

/-- The thread `t` takes the steps with the inputs `es`, and no other thread moves. -/
def solo (step : T → E → M → L → Option (M × L)) (t : T) : List E → M → L → Option (M × L)
  | [], m, l => some (m, l)
  | e :: es, m, l => (step t e m l).bind (fun r => solo step t es r.1 r.2)

/-- A call that a thread carries out alone is part of a run, and leaves the other threads where
they are. -/
theorem reachable_solo {t : T} {es : List E} {m : M} {l : L}
    (h : solo step t es s.mem (s.pc t) = some (m, l)) :
    Reachable (next step) Any s (s.move t m l) := by
  induction es generalizing s with
  | nil =>
    cases h
    rw [State.move_same]
    exact .refl s
  | cons e es ih =>
    rw [solo, Option.bind_eq_some_iff] at h
    obtain ⟨⟨m', l'⟩, hstep, hrest⟩ := h
    have hn : next step s (t, e) = some (s.move t m' l') := next_eq_some.2 ⟨m', l', hstep, rfl⟩
    have hpc : (s.move t m' l').pc t = l' := State.move_self ..
    obtain ⟨as, hr⟩ := ih (s := s.move t m' l') (by rw [hpc]; exact hrest)
    rw [State.move_move] at hr
    exact ⟨_, hr.cons trivial hn⟩

end Interference
