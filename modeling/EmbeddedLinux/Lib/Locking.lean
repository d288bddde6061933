import EmbeddedLinux.Lib.Transition

/-!
# Threads that share one lock

A thread's program is a tree of statements: `lock` and `unlock`, other statements, each of
which gives the thread a value, and a jump to a label or the end.  Threads are interleaved
statement by statement.  A statement may start a thread, or wait for the end of one.  A
request to cancel a thread is acted on when its next statement is a cancellation point; the
thread then runs what it has pushed as cleanups, and ends.

`Fits` is the discipline: on every path through a program the lock is taken and released
in turns, it is not held at a jump or at the end, nor at a cancellation point of a thread
that can be cancelled, and a statement that needs the lock is reached only with it.  A
machine whose bodies all fit keeps `Sound` in every run (`Sound.step`): the owner of the lock
is the one thread that has taken it once more than it has released it, and it has not ended
and has not been cancelled.
-/

namespace Locking

open Transition

/-- A program, with statements `S`, the values `Res s` a statement may give, and labels `L`. -/
inductive Prog (S : Type*) (Res : S → Type) (L : Type)
  | lock (k : Prog S Res L)
  | unlock (k : Prog S Res L)
  | stmt (s : S) (k : Res s → Prog S Res L)
  /-- from here on, a cancellation runs `cleanup` first -/
  | push (cleanup : List S) (k : Prog S Res L)
  /-- the cleanup pushed last is taken off and run -/
  | pop (k : Prog S Res L)
  | goto (l : L)
  | exit

inductive Event
  | lock
  | unlock
  deriving DecidableEq

/-- Threads `T`, a memory `M`, and what the environment decides at a statement, `E`. -/
structure Machine (S : Type*) (Res : S → Type) (L T M E : Type) where
  body : L → Prog S Res L
  /-- the value and the memory after a statement, if it can end this way -/
  exec : (s : S) → E → M → Option (Res s × M)
  /-- the thread that is started, and where -/
  starts : (s : S) → Res s → Option (T × L)
  /-- the thread whose end is waited for -/
  awaits : S → Option T
  /-- the cancellation points -/
  point : S → Bool
  /-- a request to cancel a thread -/
  pending : M → T → Bool

structure Thread (S : Type*) (Res : S → Type) (L : Type) where
  prog : Prog S Res L
  /-- the cleanups, the last one first -/
  cleanups : List (List S)
  cancelled : Bool

structure State (S : Type*) (Res : S → Type) (L T M : Type) where
  mem : M
  owner : Option T
  threads : T → Option (Thread S Res L)
  /-- the lock events, in their order; read by no step -/
  log : List (T × Event)

inductive Action (T E : Type)
  | run (t : T) (e : E)
  /-- a request to cancel is acted on -/
  | cancel (t : T)

variable {S : Type*} {Res : S → Type} {L T M E : Type}

namespace Prog

def IsExit : Prog S Res L → Bool
  | exit => true
  | _ => false

/-- Some statements, whatever values they give. -/
def seq : List S → Prog S Res L → Prog S Res L
  | [], k => k
  | s :: ss, k => .stmt s (fun _ => seq ss k)

/-- `body` for each element of a list in turn; its program goes on with the next element. -/
def forEach {A : Type} (body : A → Prog S Res L → Prog S Res L) :
    List A → Prog S Res L → Prog S Res L
  | [], k => k
  | a :: as, k => body a (forEach body as k)

/-- The lock events on some way through the program, up to a jump or the end. -/
def Path : Prog S Res L → List Event → Prop
  | lock k, es => ∃ es', es = .lock :: es' ∧ k.Path es'
  | unlock k, es => ∃ es', es = .unlock :: es' ∧ k.Path es'
  | stmt _ k, es => ∃ r, (k r).Path es
  | push _ k, es | pop k, es => k.Path es
  | goto _, es | exit, es => es = []

/-- On every way through the program, the lock events have the property. -/
def Makes (p : Prog S Res L) (P : List Event → Prop) : Prop := ∀ es, p.Path es → P es

variable {P : List Event → Prop}

theorem makes_lock {k : Prog S Res L} (h : k.Makes (fun es => P (.lock :: es))) :
    (lock k).Makes P := by
  rintro es ⟨es', rfl, hes⟩
  exact h es' hes

theorem makes_unlock {k : Prog S Res L} (h : k.Makes (fun es => P (.unlock :: es))) :
    (unlock k).Makes P := by
  rintro es ⟨es', rfl, hes⟩
  exact h es' hes

theorem makes_stmt {x : S} {k : Res x → Prog S Res L} (h : ∀ r, (k r).Makes P) :
    (stmt x k).Makes P := by
  rintro es ⟨r, hes⟩
  exact h r es hes

theorem makes_exit (h : P []) : (exit : Prog S Res L).Makes P := by
  rintro es rfl
  exact h

/-- The rule of the loop: `P` for what follows gives `P` for the body. -/
theorem makes_forEach {A : Type} {body : A → Prog S Res L → Prog S Res L}
    (hbody : ∀ a k, k.Makes P → (body a k).Makes P) {k : Prog S Res L} (hk : k.Makes P)
    (as : List A) : (forEach body as k).Makes P := by
  induction as with
  | nil => exact hk
  | cons a as ih => exact hbody a _ ih

end Prog

/-- A thread at the start of a program. -/
def Thread.start (p : Prog S Res L) : Thread S Res L :=
  { prog := p, cleanups := [], cancelled := false }

namespace State

variable [DecidableEq T]

def setThread (s : State S Res L T M) (t : T) (th : Thread S Res L) : State S Res L T M :=
  { s with threads := Function.update s.threads t (some th) }

@[simp] theorem setThread_owner (s : State S Res L T M) (t : T) (th : Thread S Res L) :
    (s.setThread t th).owner = s.owner := rfl

theorem threads_self (s : State S Res L T M) (t : T) (th : Thread S Res L) :
    (s.setThread t th).threads t = some th := Function.update_self ..

theorem threads_of_ne {t u : T} (h : u ≠ t) (s : State S Res L T M) (th : Thread S Res L) :
    (s.setThread t th).threads u = s.threads u := Function.update_of_ne h ..

/-- What holds of the thread that has moved, and of all others, holds of every thread. -/
theorem forall_setThread {P : T → Thread S Res L → Prop} {s : State S Res L T M} {t : T}
    {th : Thread S Res L} (hself : P t th)
    (hothers : ∀ u uh, u ≠ t → s.threads u = some uh → P u uh) :
    ∀ u uh, (s.setThread t th).threads u = some uh → P u uh := by
  intro u uh hu
  by_cases hut : u = t
  · subst hut
    rw [threads_self, Option.some_inj] at hu
    subst hu
    exact hself
  · rw [threads_of_ne hut] at hu
    exact hothers u uh hut hu

def ended (s : State S Res L T M) (t : T) : Bool :=
  match s.threads t with
  | some th => th.prog.IsExit
  | none => false

/-- The lock events of a thread. -/
def events (s : State S Res L T M) (t : T) : List Event :=
  s.log.filterMap (fun e => if e.1 = t then some e.2 else none)

theorem events_setThread (s : State S Res L T M) (t u : T) (th : Thread S Res L) :
    (s.setThread t th).events u = s.events u := rfl

/-- The thread has taken the lock more often than it has released it. -/
def Holds (s : State S Res L T M) (t : T) : Prop :=
  (s.events t).count .unlock < (s.events t).count .lock

/-- The next statement of the thread takes the lock. -/
def Requests (s : State S Res L T M) (t : T) : Prop :=
  ∃ th k, s.threads t = some th ∧ th.prog = .lock k

/-- The thread has ended, or has been cancelled. -/
def Gone (s : State S Res L T M) (t : T) : Prop :=
  ∃ th, s.threads t = some th ∧ (th.prog = .exit ∨ th.cancelled = true)

end State

section Step

variable [DecidableEq T] (m : Machine S Res L T M E)

/-- What waits for no thread, or for one that has ended, is not held up. -/
def Machine.ready (s : State S Res L T M) (x : S) : Bool :=
  match m.awaits x with
  | some t => s.ended t
  | none => true

/-- A statement of thread `t` has given `r`. -/
def Machine.finish (s : State S Res L T M) (t : T) (th : Thread S Res L) (x : S)
    (k : Res x → Prog S Res L) (r : Res x) (mem : M) : Option (State S Res L T M) :=
  let s' := { s with mem := mem }.setThread t { th with prog := k r }
  match m.starts x r with
  | none => some s'
  | some (t', l) =>
    -- a new thread has a number that no thread has
    if (s'.threads t').isNone then some (s'.setThread t' (Thread.start (m.body l))) else none

def Machine.step (s : State S Res L T M) : Action T E → Option (State S Res L T M)
  | .run t e =>
    match s.threads t with
    | none => none
    | some th =>
      match th.prog with
      | .lock k =>
        if s.owner = none then
          some ({ s with owner := some t, log := s.log ++ [(t, Event.lock)] }.setThread t
            { th with prog := k })
        else none
      | .unlock k =>
        some ({ s with owner := none, log := s.log ++ [(t, Event.unlock)] }.setThread t
          { th with prog := k })
      | .stmt x k =>
        if m.ready s x then
          match m.exec x e s.mem with
          | none => none
          | some (r, mem) => m.finish s t th x k r mem
        else none
      | .push cleanup k =>
        some (s.setThread t { th with prog := k, cleanups := cleanup :: th.cleanups })
      | .pop k =>
        some (s.setThread t
          { th with prog := Prog.seq (th.cleanups.headD []) k, cleanups := th.cleanups.tail })
      | .goto l => some (s.setThread t { th with prog := m.body l })
      | .exit => none
  | .cancel t =>
    match s.threads t with
    | none => none
    | some th =>
      match th.prog with
      | .stmt x _ =>
        if m.point x && m.pending s.mem t && !th.cancelled then
          some (s.setThread t
            { prog := Prog.seq th.cleanups.flatten .exit, cleanups := [], cancelled := true })
        else none
      | _ => none

/-- **What a step can do.** -/
inductive Machine.Moves (m : Machine S Res L T M E) (s : State S Res L T M) :
    Action T E → State S Res L T M → Prop
  | lock {t : T} {e : E} {th : Thread S Res L} {k : Prog S Res L} (ht : s.threads t = some th)
      (hp : th.prog = .lock k) (hfree : s.owner = none) :
      Moves m s (.run t e) ({ s with owner := some t, log := s.log ++ [(t, Event.lock)] }.setThread
        t { th with prog := k })
  | unlock {t : T} {e : E} {th : Thread S Res L} {k : Prog S Res L} (ht : s.threads t = some th)
      (hp : th.prog = .unlock k) :
      Moves m s (.run t e) ({ s with owner := none, log := s.log ++ [(t, Event.unlock)] }.setThread
        t { th with prog := k })
  | stmt {t : T} {e : E} {th : Thread S Res L} {x : S} {k : Res x → Prog S Res L} {r : Res x}
      {mem : M} {s' : State S Res L T M} (ht : s.threads t = some th) (hp : th.prog = .stmt x k)
      (hexec : m.exec x e s.mem = some (r, mem)) (hfinish : m.finish s t th x k r mem = some s') :
      Moves m s (.run t e) s'
  | push {t : T} {e : E} {th : Thread S Res L} {cleanup : List S} {k : Prog S Res L}
      (ht : s.threads t = some th) (hp : th.prog = .push cleanup k) :
      Moves m s (.run t e)
        (s.setThread t { th with prog := k, cleanups := cleanup :: th.cleanups })
  | pop {t : T} {e : E} {th : Thread S Res L} {k : Prog S Res L} (ht : s.threads t = some th)
      (hp : th.prog = .pop k) :
      Moves m s (.run t e) (s.setThread t
        { th with prog := Prog.seq (th.cleanups.headD []) k, cleanups := th.cleanups.tail })
  | goto {t : T} {e : E} {th : Thread S Res L} {l : L} (ht : s.threads t = some th)
      (hp : th.prog = .goto l) :
      Moves m s (.run t e) (s.setThread t { th with prog := m.body l })
  | cancel {t : T} {th : Thread S Res L} {x : S} {k : Res x → Prog S Res L}
      (ht : s.threads t = some th) (hp : th.prog = .stmt x k) (hpoint : m.point x = true)
      (hpending : m.pending s.mem t = true) :
      Moves m s (.cancel t) (s.setThread t
        { prog := Prog.seq th.cleanups.flatten .exit, cleanups := [], cancelled := true })

variable {m} {s s' : State S Res L T M}

theorem Machine.step_moves {a : Action T E} (h : m.step s a = some s') : m.Moves s a s' := by
  cases a with
  | run t e =>
    cases ht : s.threads t with
    | none => simp [Machine.step, ht] at h
    | some th =>
      cases hp : th.prog with
      | lock k =>
        simp only [Machine.step, ht, hp, Option.ite_none_right_eq_some] at h
        obtain ⟨hfree, ⟨⟩⟩ := h
        exact .lock ht hp hfree
      | unlock k =>
        simp only [Machine.step, ht, hp] at h
        cases h
        exact .unlock ht hp
      | stmt x k =>
        simp only [Machine.step, ht, hp, Option.ite_none_right_eq_some] at h
        cases hexec : m.exec x e s.mem with
        | none =>
          rw [hexec] at h
          cases h.2
        | some rm =>
          rw [hexec] at h
          exact .stmt ht hp hexec h.2
      | push cleanup k =>
        simp only [Machine.step, ht, hp] at h
        cases h
        exact .push ht hp
      | pop k =>
        simp only [Machine.step, ht, hp] at h
        cases h
        exact .pop ht hp
      | goto l =>
        simp only [Machine.step, ht, hp] at h
        cases h
        exact .goto ht hp
      | exit => simp [Machine.step, ht, hp] at h
  | cancel t =>
    cases ht : s.threads t with
    | none => simp [Machine.step, ht] at h
    | some th =>
      cases hp : th.prog with
      | stmt x k =>
        simp only [Machine.step, ht, hp, Option.ite_none_right_eq_some, Bool.and_eq_true] at h
        obtain ⟨⟨⟨hpoint, hpending⟩, -⟩, ⟨⟩⟩ := h
        exact .cancel ht hp hpoint hpending
      | lock _ | unlock _ | push _ _ | pop _ | goto _ | exit => simp [Machine.step, ht, hp] at h

/-- The thread goes on, and a thread with a new number may have been started. -/
theorem Machine.finish_cases {t : T} {th : Thread S Res L} {x : S} {k : Res x → Prog S Res L}
    {r : Res x} {mem : M} (h : m.finish s t th x k r mem = some s') :
    s' = { s with mem := mem }.setThread t { th with prog := k r } ∨
      ∃ t' l, m.starts x r = some (t', l) ∧
        ({ s with mem := mem }.setThread t { th with prog := k r }).threads t' = none ∧
        s' = ({ s with mem := mem }.setThread t { th with prog := k r }).setThread t'
          (Thread.start (m.body l)) := by
  unfold Machine.finish at h
  cases hst : m.starts x r with
  | none =>
    rw [hst] at h
    exact Or.inl (Option.some_inj.1 h).symm
  | some start =>
    simp only [hst, Option.isNone_iff_eq_none, Option.ite_none_right_eq_some] at h
    exact Or.inr ⟨start.1, start.2, rfl, h.1, (Option.some_inj.1 h.2).symm⟩

end Step

/-! ### The discipline -/

/-- The statements that need the lock, the threads that can be cancelled, and the labels such
threads may be at. -/
structure Discipline (S : Type*) (L T : Type) where
  needs : S → Bool
  cancellable : T → Bool
  mayCancel : L → Bool

/-- A program that fits: `c`, for a thread that can be cancelled; `held`, with the lock. -/
def Fits (m : Machine S Res L T M E) (d : Discipline S L T) (c : Bool) :
    Bool → Prog S Res L → Prop
  | held, .lock k => held = false ∧ Fits m d c true k
  | held, .unlock k => held = true ∧ Fits m d c false k
  | held, .stmt x k => (c = true → m.point x = true → held = false) ∧
      (d.needs x = true → held = true) ∧ ∀ r, Fits m d c held (k r)
  | held, .push cleanup k => held = false ∧ (∀ x ∈ cleanup, d.needs x = false) ∧ Fits m d c held k
  | held, .pop k => held = false ∧ Fits m d c held k
  | held, .goto l => held = false ∧ (c = true → d.mayCancel l = true)
  | held, .exit => held = false

/-- All bodies fit, and only threads that can be cancelled are. -/
structure Disciplined (m : Machine S Res L T M E) (d : Discipline S L T) : Prop where
  bodies : ∀ l, Fits m d (d.mayCancel l) false (m.body l)
  starts : ∀ x r t l, m.starts x r = some (t, l) → d.cancellable t = true → d.mayCancel l = true
  pending : ∀ mem t, m.pending mem t = true → d.cancellable t = true

/-- `n` times the lock is taken and released. -/
def pairs (n : Nat) : List Event := (List.replicate n [Event.lock, Event.unlock]).flatten

theorem pairs_succ (n : Nat) : pairs (n + 1) = .lock :: .unlock :: pairs n := rfl

theorem pairs_append (n : Nat) : pairs n ++ [.lock, .unlock] = pairs (n + 1) := by
  induction n with
  | zero => rfl
  | succ n ih => rw [pairs_succ, List.cons_append, List.cons_append, ih, ← pairs_succ]

theorem count_pairs (n : Nat) (e : Event) : (pairs n).count e = n := by
  induction n with
  | zero => rfl
  | succ n ih =>
    rw [pairs_succ]
    cases e <;> simp [ih]

/-- What is allowed to a thread that can be cancelled is allowed to any. -/
theorem Fits.weaken {m : Machine S Res L T M E} {d : Discipline S L T} {c held : Bool}
    {p : Prog S Res L} (h : Fits m d true held p) : Fits m d c held p := by
  induction p generalizing held with
  | lock k ih => exact ⟨h.1, ih h.2⟩
  | unlock k ih => exact ⟨h.1, ih h.2⟩
  | stmt x k ih => exact ⟨fun _ => h.1 rfl, h.2.1, fun r => ih r (h.2.2 r)⟩
  | push cleanup k ih => exact ⟨h.1, h.2.1, ih h.2.2⟩
  | pop k ih => exact ⟨h.1, ih h.2⟩
  | goto l => exact ⟨h.1, fun _ => h.2 rfl⟩
  | exit => exact h

/-- A label that a thread may be at. -/
theorem Disciplined.fits_body {m : Machine S Res L T M E} {d : Discipline S L T}
    (hd : Disciplined m d) {c : Bool} {l : L} (h : c = true → d.mayCancel l = true) :
    Fits m d c false (m.body l) := by
  have hl := hd.bodies l
  cases c with
  | true =>
    rw [h rfl] at hl
    exact hl
  | false =>
    cases hc : d.mayCancel l with
    | true =>
      rw [hc] at hl
      exact hl.weaken
    | false =>
      rw [hc] at hl
      exact hl

section Fits

variable {m : Machine S Res L T M E} {d : Discipline S L T} {c held : Bool}

/-- **On every path the lock is taken and released in turns**, and released in the end. -/
theorem Fits.path {p : Prog S Res L} (h : Fits m d c held p) {es : List Event} (hes : p.Path es) :
    ∃ n, (held = false ∧ es = pairs n) ∨ (held = true ∧ es = .unlock :: pairs n) := by
  induction p generalizing held es with
  | lock k ih =>
    obtain ⟨hfree, hk⟩ := h
    obtain ⟨es', rfl, hes'⟩ := hes
    obtain ⟨n, ⟨h, -⟩ | ⟨-, rfl⟩⟩ := ih hk hes'
    · cases h
    · exact ⟨n + 1, Or.inl ⟨hfree, rfl⟩⟩
  | unlock k ih =>
    obtain ⟨hheld, hk⟩ := h
    obtain ⟨es', rfl, hes'⟩ := hes
    obtain ⟨n, ⟨-, rfl⟩ | ⟨h, -⟩⟩ := ih hk hes'
    · exact ⟨n, Or.inr ⟨hheld, rfl⟩⟩
    · cases h
  | stmt x k ih =>
    obtain ⟨-, -, hk⟩ := h
    obtain ⟨r, hes⟩ := hes
    exact ih r (hk r) hes
  | push cleanup k ih => exact ih h.2.2 hes
  | pop k ih => exact ih h.2 hes
  | goto l => exact ⟨0, Or.inl ⟨h.1, hes⟩⟩
  | exit => exact ⟨0, Or.inl ⟨h, hes⟩⟩

theorem fits_lock {k : Prog S Res L} (hk : Fits m d c true k) : Fits m d c false (.lock k) :=
  ⟨rfl, hk⟩

theorem fits_unlock {k : Prog S Res L} (hk : Fits m d c false k) : Fits m d c true (.unlock k) :=
  ⟨rfl, hk⟩

/-- The rule of the loop. -/
theorem fits_forEach {A : Type} {body : A → Prog S Res L → Prog S Res L}
    (hbody : ∀ a k, Fits m d c held k → Fits m d c held (body a k)) {k : Prog S Res L}
    (hk : Fits m d c held k) (as : List A) : Fits m d c held (Prog.forEach body as k) := by
  induction as with
  | nil => exact hk
  | cons a as ih => exact hbody a _ ih

/-- Statements that do not need the lock, run without it. -/
theorem fits_seq {xs : List S} (hxs : ∀ x ∈ xs, d.needs x = false) {k : Prog S Res L}
    (hk : Fits m d c false k) : Fits m d c false (Prog.seq xs k) := by
  induction xs with
  | nil => exact hk
  | cons x xs ih =>
    rw [List.forall_mem_cons] at hxs
    refine ⟨fun _ _ => rfl, fun h => ?_, fun _ => ih hxs.2⟩
    rw [hxs.1] at h
    cases h

end Fits

/-! ### The invariant -/

/-- What a cancelled thread still runs: no `lock` and no `unlock`. -/
def Quiet : Prog S Res L → Prop
  | .stmt _ k => ∀ r, Quiet (k r)
  | .exit => True
  | _ => False

theorem quiet_seq (xs : List S) : Quiet (Prog.seq xs .exit : Prog S Res L) := by
  induction xs with
  | nil => trivial
  | cons x xs ih => exact fun _ => ih

section Sound

variable (m : Machine S Res L T M E) (d : Discipline S L T)

/-- One thread, with or without the lock. -/
structure ThreadSound (t : T) (held : Bool) (th : Thread S Res L) : Prop where
  fits : Fits m d (d.cancellable t) held th.prog
  cleanups : ∀ xs ∈ th.cleanups, ∀ x ∈ xs, d.needs x = false
  cancelled : th.cancelled = true → Quiet th.prog ∧ held = false

section

variable {m d} {t : T} {th : Thread S Res L}

/-- What a cancelled thread runs is left by no lock event and no jump. -/
theorem ThreadSound.next {held : Bool} (h : ThreadSound m d t held th) {p : Prog S Res L}
    (hfits : Fits m d (d.cancellable t) held p) (hquiet : Quiet th.prog → Quiet p) :
    ThreadSound m d t held { th with prog := p } where
  fits := hfits
  cleanups := h.cleanups
  cancelled hc := ⟨hquiet (h.cancelled hc).1, (h.cancelled hc).2⟩

/-- A thread that has its next statement outside `Quiet` has not been cancelled. -/
theorem ThreadSound.not_cancelled {held : Bool} (h : ThreadSound m d t held th)
    (hquiet : ¬ Quiet th.prog) : th.cancelled = false := by
  rw [Bool.eq_false_iff]
  exact fun hc => hquiet (h.cancelled hc).1

end

variable [DecidableEq T]

/-- **The invariant.**  Every thread fits, with the lock if it is the owner; the owner is a
thread; and every thread has taken and released the lock in turns. -/
structure Sound (s : State S Res L T M) : Prop where
  threads : ∀ t th, s.threads t = some th →
    ThreadSound m d t (decide (s.owner = some t)) th
  owner : ∀ t, s.owner = some t → (s.threads t).isSome = true
  log : ∀ t, ∃ n, s.events t = pairs n ++ if s.owner = some t then [.lock] else []

variable {m d} {s : State S Res L T M} {t : T} {th th' : Thread S Res L}

/-- A thread that was not there does not own the lock. -/
theorem Sound.absent (hs : Sound m d s) (ht : s.threads t = none) : s.owner ≠ some t := by
  intro howner
  have h := hs.owner t howner
  rw [ht] at h
  cases h

/-- A thread moves, or is started, and leaves the lock as it is. -/
theorem Sound.move (hs : Sound m d s) (mem : M)
    (h' : ThreadSound m d t (decide (s.owner = some t)) th') :
    Sound m d ({ s with mem := mem }.setThread t th') := by
  refine ⟨State.forall_setThread h' (fun u uh _ hu => hs.threads u uh hu), ?_, hs.log⟩
  · intro u hu
    by_cases hut : u = t
    · subst hut
      rw [State.threads_self]
      rfl
    · rw [State.threads_of_ne hut]
      exact hs.owner u hu

/-- The lock events of a thread, after one more event. -/
theorem events_append (s : State S Res L T M) (owner : Option T) (t u : T) (e : Event) :
    State.events { s with owner := owner, log := s.log ++ [(t, e)] } u =
      s.events u ++ if t = u then [e] else [] := by
  rw [State.events, State.events, List.filterMap_append]
  by_cases h : t = u <;> simp [h]

/-- The free lock is taken. -/
theorem Sound.take (hs : Sound m d s) (hfree : s.owner = none)
    (h' : ThreadSound m d t true th') :
    Sound m d ({ s with owner := some t, log := s.log ++ [(t, Event.lock)] }.setThread t th') := by
  refine ⟨?_, ?_, ?_⟩
  · refine State.forall_setThread (by simpa using h') (fun u uh hut hu => ?_)
    have h := hs.threads u uh hu
    have hne : ¬ t = u := fun e => hut e.symm
    simpa [hfree, hne] using h
  · intro u hu
    by_cases hut : u = t
    · subst hut
      rw [State.threads_self]
      rfl
    · exact absurd (Option.some_inj.1 hu).symm hut
  · intro u
    obtain ⟨n, hn⟩ := hs.log u
    rw [hfree, if_neg (by simp), List.append_nil] at hn
    refine ⟨n, ?_⟩
    rw [State.events_setThread, events_append, hn]
    simp

/-- The lock is released by its owner. -/
theorem Sound.release (hs : Sound m d s) (howner : s.owner = some t)
    (h' : ThreadSound m d t false th') :
    Sound m d ({ s with owner := none, log := s.log ++ [(t, Event.unlock)] }.setThread t th') := by
  refine ⟨?_, ?_, ?_⟩
  · refine State.forall_setThread (by simpa using h') (fun u uh hut hu => ?_)
    have h := hs.threads u uh hu
    have hne : ¬ t = u := fun e => hut e.symm
    simpa [howner, hne] using h
  · intro u hu
    cases hu
  · intro u
    obtain ⟨n, hn⟩ := hs.log u
    rw [howner] at hn
    rw [State.events_setThread, events_append, hn]
    by_cases htu : t = u
    · refine ⟨n + 1, ?_⟩
      simp [htu, ← pairs_append]
    · exact ⟨n, by simp [htu]⟩

/-- A statement that does not touch the lock. -/
theorem Sound.finish (hd : Disciplined m d) (hs : Sound m d s) {x : S}
    {k : Res x → Prog S Res L} {r : Res x} {mem : M} {s' : State S Res L T M}
    (h' : ThreadSound m d t (decide (s.owner = some t)) { th with prog := k r })
    (hstep : m.finish s t th x k r mem = some s') : Sound m d s' := by
  have hmove := hs.move mem h'
  obtain rfl | ⟨t', l, hst, hnone, rfl⟩ := Machine.finish_cases hstep
  · exact hmove
  · have hown := hmove.absent hnone
    refine hmove.move _ ⟨?_, ?_, ?_⟩
    · rw [decide_eq_false hown]
      exact hd.fits_body (hd.starts x r t' l hst)
    · intro xs hxs
      cases hxs
    · intro hc
      cases hc

/-- **Every step keeps the invariant.** -/
theorem Sound.step (hd : Disciplined m d) (hs : Sound m d s) {a : Action T E}
    {s' : State S Res L T M} (hstep : m.step s a = some s') : Sound m d s' := by
  cases Machine.step_moves hstep with
  | lock ht hp hfree =>
    have hth := hs.threads _ _ ht
    have hfits := hth.fits
    have hc := hth.not_cancelled (by rw [hp]; exact fun h => h)
    rw [hp] at hfits
    refine hs.take hfree ⟨hfits.2, hth.cleanups, fun h => ?_⟩
    rw [hc] at h
    cases h
  | unlock ht hp =>
    have hth := hs.threads _ _ ht
    have hfits := hth.fits
    have hc := hth.not_cancelled (by rw [hp]; exact fun h => h)
    rw [hp] at hfits
    refine hs.release (of_decide_eq_true hfits.1) ⟨hfits.2, hth.cleanups, fun h => ?_⟩
    rw [hc] at h
    cases h
  | @stmt _ _ _ _ _ r _ _ ht hp hexec hfinish =>
    have hth := hs.threads _ _ ht
    have hfits := hth.fits
    rw [hp] at hfits
    refine hs.finish hd (hth.next (hfits.2.2 _) ?_) hfinish
    rw [hp]
    exact fun h => h r
  | push ht hp =>
    have hth := hs.threads _ _ ht
    have hfits := hth.fits
    have hc := hth.not_cancelled (by rw [hp]; exact fun h => h)
    rw [hp] at hfits
    refine hs.move s.mem ⟨hfits.2.2, ?_, fun h => ?_⟩
    · rw [List.forall_mem_cons]
      exact ⟨hfits.2.1, hth.cleanups⟩
    · rw [hc] at h
      cases h
  | @pop _ _ th _ ht hp =>
    have hth := hs.threads _ _ ht
    have hfits := hth.fits
    have hc := hth.not_cancelled (by rw [hp]; exact fun h => h)
    rw [hp] at hfits
    obtain ⟨hfree, hk⟩ := hfits
    refine hs.move s.mem ⟨?_, ?_, fun h => ?_⟩
    · rw [hfree] at hk ⊢
      refine fits_seq ?_ hk
      cases hcl : th.cleanups with
      | nil => exact fun x hx => by cases hx
      | cons xs rest => exact hth.cleanups xs (by rw [hcl]; exact List.mem_cons_self)
    · exact fun xs hxs => hth.cleanups xs (List.mem_of_mem_tail hxs)
    · rw [hc] at h
      cases h
  | goto ht hp =>
    have hth := hs.threads _ _ ht
    have hfits := hth.fits
    have hc := hth.not_cancelled (by rw [hp]; exact fun h => h)
    rw [hp] at hfits
    obtain ⟨hfree, hl⟩ := hfits
    refine hs.move s.mem ⟨?_, hth.cleanups, fun h => ?_⟩
    · rw [hfree]
      exact hd.fits_body hl
    · rw [hc] at h
      cases h
  | @cancel t _ _ _ ht hp hpoint hpending =>
    have hth := hs.threads _ _ ht
    have hfits := hth.fits
    rw [hp] at hfits
    -- the thread is at a cancellation point, so it does not hold the lock
    have hfree := hfits.1 (hd.pending s.mem t hpending) hpoint
    refine hs.move s.mem ⟨?_, ?_, fun _ => ⟨quiet_seq _, hfree⟩⟩
    · rw [hfree]
      refine fits_seq ?_ rfl
      intro y hy
      obtain ⟨xs, hxs, hy⟩ := List.mem_flatten.1 hy
      exact hth.cleanups xs hxs y hy
    · intro xs hxs
      cases hxs

/-! ### What the invariant says -/

/-- The thread that holds the lock by its own events is the owner. -/
theorem Sound.holds_iff (hs : Sound m d s) : s.Holds t ↔ s.owner = some t := by
  obtain ⟨n, hn⟩ := hs.log t
  rw [State.Holds, hn, List.count_append, List.count_append, count_pairs, count_pairs]
  split <;> simp [*]

/-- **At most one thread holds the lock.** -/
theorem Sound.holds_unique (hs : Sound m d s) {u : T} (ht : s.Holds t) (hu : s.Holds u) :
    t = u := by
  rw [hs.holds_iff] at ht hu
  rw [ht] at hu
  exact Option.some_inj.1 hu

/-- **The lock is not requested by the thread that holds it.** -/
theorem Sound.requests (hs : Sound m d s) (h : s.Requests t) : ¬ s.Holds t := by
  obtain ⟨th, k, ht, hp⟩ := h
  have hfits := (hs.threads t th ht).fits
  rw [hp] at hfits
  rw [hs.holds_iff]
  exact of_decide_eq_false hfits.1

/-- **A thread that has ended or has been cancelled does not hold the lock.** -/
theorem Sound.gone (hs : Sound m d s) (h : s.Gone t) : ¬ s.Holds t := by
  obtain ⟨th, ht, hp | hc⟩ := h
  · have hfits := (hs.threads t th ht).fits
    rw [hp] at hfits
    rw [hs.holds_iff]
    exact of_decide_eq_false hfits
  · rw [hs.holds_iff]
    exact of_decide_eq_false ((hs.threads t th ht).cancelled hc).2

end Sound

end Locking
