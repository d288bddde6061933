import EmbeddedLinux.Lib.Transition
import EmbeddedLinux.Lib.WaitStatus
import Mathlib.Logic.Function.Basic

/-!
# Processes that fork and wait

A process runs a program (`Code`), one call after another, or it has ended and is a zombie, which
keeps its status for its parent.  When a process ends, its children are given to the `reaper`, which
collects the zombies among them at some time.  A process may be killed at any time, and a program
that is started by `exec` may be any program.

A number may be given again when its process has been collected.

`ran` and `collected` say which files a process has started, and which statuses `wait` has given to
it.  No step reads them.

The rules at the end are for a program that forks once.  Its parent has no child, or just one
(`Alone`, `Pair`), whatever the other processes do; a `Contract` says what holds of the parent's
record, and of the two, and `Contract.run` that it holds in every run until the parent itself is
collected.
-/

namespace Processes

open Transition WaitStatus

/-- A program over strings `S`, with what is done with the result of each call. -/
inductive Code (S : Type)
  | print (line : S) (k : Code S)
  | sleep (k : Code S)
  | getpid (k : Int → Code S)
  | getppid (k : Int → Code S)
  | fork (k : Int → Code S)
  /-- the status, or `none` when there is no child to wait for -/
  | wait (k : Option Nat → Code S)
  | setenv (name value : S) (k : Code S)
  | getenv (name : S) (k : Option S → Code S)
  /-- `k` is what follows when it fails. -/
  | exec (file : S) (k : Code S)
  | exit (code : Int)

inductive Life (S : Type)
  | running (code : Code S)
  | zombie (status : Nat)

/-- The numbers of processes. -/
abbrev Pid (N : Nat) := Fin N

structure Proc (N : Nat) (S : Type) where
  parent : Pid N
  env : S → Option S
  /-- the lines it has printed -/
  out : List S
  ran : List S
  collected : List Nat
  life : Life S

/-- A call of one process that changes no other record, but for the parent of its children when it
ends. -/
inductive Move (S : Type)
  /-- any other call; `success` is for `setenv` -/
  | next (success : Bool)
  | forkFails
  | waitFails
  /-- `exec` starts the program, or fails. -/
  | exec (image : Option (Code S))
  | kill (sig : Nat) (core : Bool)

inductive Action (N : Nat) (S : Type)
  | solo (p : Pid N) (m : Move S)
  /-- `p` gets the child `c`. -/
  | fork (p c : Pid N)
  /-- `p` collects its child `c`. -/
  | wait (p c : Pid N)
  /-- the reaper collects `c`. -/
  | collect (c : Pid N)

structure System (N : Nat) (S : Type) where
  reaper : Pid N
  proc : Pid N → Option (Proc N S)

variable {N : Nat} {S : Type}

namespace Proc

def goto (e : Proc N S) (k : Code S) : Proc N S := { e with life := .running k }

def adopt (e : Proc N S) (q : Pid N) : Proc N S := { e with parent := q }

def ended (e : Proc N S) : Bool :=
  match e.life with
  | .running _ => false
  | .zombie _ => true

/-- A process that starts. -/
def fresh (parent : Pid N) (env : S → Option S) (code : Code S) : Proc N S :=
  { parent := parent, env := env, out := [], ran := [], collected := [], life := .running code }

/-- The record of a new child, which goes on with `k`. -/
def child (e : Proc N S) (p : Pid N) (k : Code S) : Proc N S := fresh p e.env k

/-- `wait` has returned the status of a child. -/
def collect (e : Proc N S) (k : Option Nat → Code S) (status : Nat) : Proc N S :=
  { e with collected := e.collected ++ [status], life := .running (k (some status)) }

/-- The record of `self` after one of its calls. -/
def move [DecidableEq S] (self : Pid N) (childless : Bool) (e : Proc N S) :
    Move S → Option (Proc N S)
  | .next success =>
    match e.life with
    | .running (.print line k) => some { e with out := e.out ++ [line], life := .running k }
    | .running (.sleep k) => some (e.goto k)
    | .running (.getpid k) => some (e.goto (k self.val))
    | .running (.getppid k) => some (e.goto (k e.parent.val))
    | .running (.setenv name value k) =>
      some (if success then { e with env := Function.update e.env name (some value),
                                     life := .running k }
        else e.goto k)
    | .running (.getenv name k) => some (e.goto (k (e.env name)))
    | .running (.exit code) => some { e with life := .zombie (exited code) }
    | _ => none
  | .forkFails =>
    match e.life with
    | .running (.fork k) => some (e.goto (k (-1)))
    | _ => none
  | .waitFails =>
    match e.life with
    | .running (.wait k) => if childless then some (e.goto (k none)) else none
    | _ => none
  | .exec image =>
    match e.life with
    | .running (.exec file k) =>
      some (match image with
        | some code => { e with ran := e.ran ++ [file], life := .running code }
        | none => e.goto k)
    | _ => none
  | .kill sig core =>
    match e.life with
    | .running _ =>
      if 1 ≤ sig ∧ sig ≤ 64 then some { e with life := .zombie (signaled sig core) } else none
    | .zombie _ => none

end Proc

namespace System

/-- A process, and no other one but the reaper. -/
def single (reaper m : Pid N) (e : Proc N S) : System N S :=
  { reaper := reaper, proc := fun p => if p = m then some e else none }

/-- The children of a process that has ended are given to the reaper. -/
def inherit (s : System N S) (p : Pid N) (e : Proc N S) : Proc N S :=
  if e.parent = p then e.adopt s.reaper else e

/-- The record of `p` is now `e`. -/
def put (s : System N S) (p : Pid N) (e : Proc N S) : System N S :=
  { s with
    proc := Function.update
      (fun q => if e.ended then (s.proc q).map (s.inherit p) else s.proc q) p (some e) }

def set (s : System N S) (p : Pid N) (e : Option (Proc N S)) : System N S :=
  { s with proc := Function.update s.proc p e }

def childless (s : System N S) (p : Pid N) : Bool :=
  decide (∀ q, (s.proc q).all (fun e => e.parent ≠ p) = true)

variable {s : System N S} {p q : Pid N} {e : Proc N S} {x : Option (Proc N S)}

theorem put_self : (s.put p e).proc p = some e := by
  simp only [put, Function.update_self]

theorem put_of_ne (h : q ≠ p) :
    (s.put p e).proc q = if e.ended then (s.proc q).map (s.inherit p) else s.proc q := by
  simp only [put, Function.update_of_ne h]

theorem set_self : (s.set p x).proc p = x := by
  simp only [set, Function.update_self]

theorem set_of_ne (h : q ≠ p) : (s.set p x).proc q = s.proc q := by
  simp only [set, Function.update_of_ne h]

end System

variable [DecidableEq S]

def step (s : System N S) : Action N S → Option (System N S)
  | .solo p m =>
    (s.proc p).bind (fun e => (e.move p (s.childless p) m).map (s.put p))
  | .fork p c =>
    match s.proc p with
    | some e =>
      match e.life with
      | .running (.fork k) =>
        if (s.proc c).isNone ∧ c ≠ s.reaper ∧ 0 < c.val then
          some ((s.set p (some (e.goto (k c.val)))).set c (some (e.child p (k 0))))
        else none
      | _ => none
    | none => none
  | .wait p c =>
    match s.proc p, s.proc c with
    | some e, some z =>
      match e.life, z.life with
      | .running (.wait k), .zombie status =>
        if z.parent = p then some ((s.set c none).set p (some (e.collect k status))) else none
      | _, _ => none
    | _, _ => none
  | .collect c =>
    match s.proc c with
    | some e => if e.ended ∧ e.parent = s.reaper then some (s.set c none) else none
    | none => none

/-! ### What a step does -/

variable {s t : System N S} {a : Action N S} {p q c m : Pid N} {e e' z : Proc N S}

theorem step_cases (h : step s a = some t) :
    (∃ p mv e e', a = .solo p mv ∧ s.proc p = some e ∧
      e.move p (s.childless p) mv = some e' ∧ t = s.put p e') ∨
    (∃ p c e k, a = .fork p c ∧ s.proc p = some e ∧ e.life = .running (.fork k) ∧
      s.proc c = none ∧ c ≠ s.reaper ∧ 0 < c.val ∧
      t = (s.set p (some (e.goto (k c.val)))).set c (some (e.child p (k 0)))) ∨
    (∃ p c e z k status, a = .wait p c ∧ s.proc p = some e ∧ e.life = .running (.wait k) ∧
      s.proc c = some z ∧ z.life = .zombie status ∧ z.parent = p ∧
      t = (s.set c none).set p (some (e.collect k status))) ∨
    ∃ c z, a = .collect c ∧ s.proc c = some z ∧ z.ended = true ∧ z.parent = s.reaper ∧
      t = s.set c none := by
  cases a with
  | solo p mv =>
    obtain ⟨e, he, h⟩ := Option.bind_eq_some_iff.1 h
    obtain ⟨e', he', rfl⟩ := Option.map_eq_some_iff.1 h
    exact Or.inl ⟨p, mv, e, e', rfl, he, he', rfl⟩
  | fork p c =>
    rw [step] at h
    split at h
    · rename_i e he
      split at h
      · rename_i k hk
        split at h
        · rename_i hc
          obtain ⟨hnone, hreaper, hpos⟩ := hc
          cases h
          exact Or.inr (Or.inl ⟨p, c, e, k, rfl, he, hk, Option.isNone_iff_eq_none.1 hnone,
            hreaper, hpos, rfl⟩)
        · cases h
      · cases h
    · cases h
  | wait p c =>
    rw [step] at h
    split at h
    · rename_i e z he hz
      split at h
      · rename_i k status hk hstatus
        split at h
        · rename_i hp
          cases h
          exact Or.inr (Or.inr (Or.inl ⟨p, c, e, z, k, status, rfl, he, hk, hz, hstatus, hp, rfl⟩))
        · cases h
      · cases h
    · cases h
  | collect c =>
    rw [step] at h
    split at h
    · rename_i z hz
      split at h
      · rename_i hc
        cases h
        exact Or.inr (Or.inr (Or.inr ⟨c, z, rfl, hz, hc.1, hc.2, rfl⟩))
      · cases h
    · cases h

theorem step_reaper (h : step s a = some t) : t.reaper = s.reaper := by
  obtain ⟨_, _, _, _, -, -, -, rfl⟩ | ⟨_, _, _, _, -, -, -, -, -, -, rfl⟩ |
    ⟨_, _, _, _, _, _, -, -, -, -, -, -, rfl⟩ | ⟨_, _, -, -, -, -, rfl⟩ := step_cases h
  all_goals rfl

/-! ### The record of one process -/

/-- The steps in which `m` is not collected, and whose calls meet `ok`. -/
def Meets (ok : Pid N → Move S → Prop) (m : Pid N) : Action N S → Prop
  | .solo p mv => ok p mv
  | .fork _ _ => True
  | .wait _ c => c ≠ m
  | .collect c => c ≠ m

instance (ok : Pid N → Move S → Prop) [∀ p mv, Decidable (ok p mv)] (m : Pid N) :
    (a : Action N S) → Decidable (Meets ok m a)
  | .solo p mv => inferInstanceAs (Decidable (ok p mv))
  | .fork _ _ => .isTrue trivial
  | .wait _ c | .collect c => inferInstanceAs (Decidable (c ≠ m))

/-- What the call `a` of `self` does to its record. -/
inductive Own (s : System N S) (self : Pid N) (e : Proc N S) : Action N S → Proc N S → Prop
  | move {mv : Move S} {e' : Proc N S} : e.move self (s.childless self) mv = some e' →
      Own s self e (.solo self mv) e'
  | fork {k : Int → Code S} {c : Pid N} : e.life = .running (.fork k) → 0 < c.val →
      Own s self e (.fork self c) (e.goto (k c.val))
  | wait {k : Option Nat → Code S} {c : Pid N} {z : Proc N S} {status : Nat} :
      e.life = .running (.wait k) → s.proc c = some z → z.life = .zombie status →
      z.parent = self → Own s self e (.wait self c) (e.collect k status)

variable {ok : Pid N → Move S → Prop}

theorem move_parent {childless : Bool} {mv : Move S} (h : e.move p childless mv = some e') :
    e'.parent = e.parent := by
  unfold Proc.move at h
  repeat' split at h
  all_goals cases h
  all_goals rfl

theorem Own.parent_eq (h : Own s p e a e') : e'.parent = e.parent := by
  cases h with
  | move h => exact move_parent h
  | fork | wait => rfl

/-- What a process has started stays so. -/
theorem move_ran {b : Bool} {mv : Move S} (h : e.move p b mv = some e') : e.ran <+: e'.ran := by
  unfold Proc.move at h
  repeat' split at h
  all_goals cases h
  all_goals first
    | exact List.prefix_rfl
    | exact List.prefix_append _ _

/-- **What becomes of a record.**  It changes by a call of the process itself, or the process gets
another parent, because its parent has ended. -/
theorem record_step (h : step s a = some t) (hok : Meets ok m a) (hm : s.proc m = some e) :
    t.proc m = some e ∨ (∃ mv z, a = .solo e.parent mv ∧ t.proc e.parent = some z ∧
      z.ended = true ∧ t.proc m = some (e.adopt s.reaper)) ∨
      ∃ e', Own s m e a e' ∧ t.proc m = some e' := by
  obtain ⟨p, mv, x, x', rfl, hx, hmove, rfl⟩ | ⟨p, c, x, k, rfl, hx, hk, hc, -, hpos, rfl⟩ |
    ⟨p, c, x, z, k, status, rfl, hx, hk, hz, hstatus, hparent, rfl⟩ | ⟨c, z, rfl, -, -, -, rfl⟩ :=
      step_cases h
  · by_cases hp : m = p
    · subst hp
      cases hm.symm.trans hx
      exact Or.inr (Or.inr ⟨x', .move hmove, System.put_self⟩)
    · rw [System.put_of_ne hp, hm]
      split
      · rename_i hended
        rw [Option.map_some, System.inherit]
        split
        · rename_i hparent
          rw [hparent]
          exact Or.inr (Or.inl ⟨mv, x', rfl, System.put_self, hended, rfl⟩)
        · exact Or.inl rfl
      · exact Or.inl rfl
  · have hmc : m ≠ c := by
      intro e'
      rw [e', hc] at hm
      cases hm
    rw [System.set_of_ne hmc]
    by_cases hp : m = p
    · subst hp
      cases hm.symm.trans hx
      exact Or.inr (Or.inr ⟨_, .fork hk hpos, System.set_self⟩)
    · rw [System.set_of_ne hp]
      exact Or.inl hm
  · have hmc : m ≠ c := Ne.symm hok
    by_cases hp : m = p
    · subst hp
      cases hm.symm.trans hx
      exact Or.inr (Or.inr ⟨_, .wait hk hz hstatus hparent, System.set_self⟩)
    · rw [System.set_of_ne hp, System.set_of_ne hmc]
      exact Or.inl hm
  · rw [System.set_of_ne (Ne.symm hok)]
    exact Or.inl hm

/-- **Where a record comes from.**  It is that of a new child, or it had the same parent before, or
it has been given to the reaper. -/
theorem parent_step (h : step s a = some t) (hq : t.proc q = some z) :
    (∃ p, a = .fork p q ∧ z.parent = p ∧ q ≠ s.reaper) ∨
    ∃ y, s.proc q = some y ∧ (z.parent = y.parent ∨ z.parent = s.reaper) := by
  obtain ⟨p, mv, x, x', rfl, hx, hmove, rfl⟩ | ⟨p, c, x, k, rfl, hx, -, -, hc', -, rfl⟩ |
    ⟨p, c, x, y, k, status, rfl, hx, -, -, -, -, rfl⟩ | ⟨c, y, rfl, -, -, -, rfl⟩ := step_cases h
  · by_cases hp : q = p
    · subst hp
      rw [System.put_self] at hq
      cases hq
      exact Or.inr ⟨x, hx, Or.inl (move_parent hmove)⟩
    · rw [System.put_of_ne hp] at hq
      split at hq
      · obtain ⟨y, hy, rfl⟩ := Option.map_eq_some_iff.1 hq
        refine Or.inr ⟨y, hy, ?_⟩
        rw [System.inherit]
        split
        · exact Or.inr rfl
        · exact Or.inl rfl
      · exact Or.inr ⟨z, hq, Or.inl rfl⟩
  · by_cases hc : q = c
    · subst hc
      rw [System.set_self] at hq
      cases hq
      exact Or.inl ⟨p, rfl, rfl, hc'⟩
    · rw [System.set_of_ne hc] at hq
      by_cases hp : q = p
      · subst hp
        rw [System.set_self] at hq
        cases hq
        exact Or.inr ⟨x, hx, Or.inl rfl⟩
      · rw [System.set_of_ne hp] at hq
        exact Or.inr ⟨z, hq, Or.inl rfl⟩
  · by_cases hp : q = p
    · subst hp
      rw [System.set_self] at hq
      cases hq
      exact Or.inr ⟨x, hx, Or.inl rfl⟩
    · rw [System.set_of_ne hp] at hq
      by_cases hc : q = c
      · subst hc
        rw [System.set_self] at hq
        cases hq
      · rw [System.set_of_ne hc] at hq
        exact Or.inr ⟨z, hq, Or.inl rfl⟩
  · by_cases hc : q = c
    · subst hc
      rw [System.set_self] at hq
      cases hq
    · rw [System.set_of_ne hc] at hq
      exact Or.inr ⟨z, hq, Or.inl rfl⟩

/-! ### The next call of a process -/

/-- The process is killed. -/
inductive Killed (e : Proc N S) : Move S → Proc N S → Prop
  | intro {sig : Nat} {core : Bool} : 1 ≤ sig → sig ≤ 64 →
      Killed e (.kill sig core) { e with life := .zombie (signaled sig core) }

/-- The call that comes next in the program has been made, but not a `fork` or `wait` that
succeeds. -/
def Called (self : Pid N) (childless : Bool) (e : Proc N S) (mv : Move S) (e' : Proc N S) :
    Code S → Prop
  | .print line k => e' = { e with out := e.out ++ [line], life := .running k }
  | .sleep k => e' = e.goto k
  | .getpid k => e' = e.goto (k self.val)
  | .getppid k => e' = e.goto (k e.parent.val)
  | .fork k => e' = e.goto (k (-1))
  | .wait k => childless = true ∧ e' = e.goto (k none)
  | .setenv name value k => ∃ success, mv = .next success ∧ e' = if success then
      { e with env := Function.update e.env name (some value), life := .running k } else e.goto k
  | .getenv name k => e' = e.goto (k (e.env name))
  | .exec file k => e' = e.goto k ∨
      ∃ image, e' = { e with ran := e.ran ++ [file], life := .running image }
  | .exit code => e' = { e with life := .zombie (exited code) }

variable {b : Bool} {mv : Move S}

omit [DecidableEq S] in
theorem Killed.ended (h : Killed e mv e') : e'.ended = true := by
  cases h
  rfl

theorem move_zombie {status : Nat} (hl : e.life = .zombie status) : e.move p b mv = none := by
  cases mv <;> simp only [Proc.move, hl]

omit [DecidableEq S] in
theorem life_of_ended (h : e.ended = true) : ∃ status, e.life = .zombie status := by
  unfold Proc.ended at h
  split at h
  · cases h
  · exact ⟨_, ‹_›⟩

/-- A zombie makes no call. -/
theorem not_own_of_ended (h : e.ended = true) : ¬ Own s p e a e' := by
  obtain ⟨status, hl⟩ := life_of_ended h
  intro hown
  cases hown with
  | move hmove =>
    rw [move_zombie hl] at hmove
    cases hmove
  | fork hk | wait hk =>
    rw [hl] at hk
    cases hk

/-- **A process that runs makes its next call, or is killed.** -/
theorem move_running {code : Code S} (hl : e.life = .running code)
    (h : e.move p b mv = some e') : Called p b e mv e' code ∨ Killed e mv e' := by
  cases mv with
  | kill sig core =>
    simp only [Proc.move, hl, Option.ite_none_right_eq_some, Option.some_inj] at h
    obtain ⟨⟨h1, h2⟩, rfl⟩ := h
    exact Or.inr ⟨h1, h2⟩
  | exec image =>
    cases code <;> simp only [Proc.move, hl, reduceCtorEq, Option.some_inj] at h
    left
    cases image with
    | none => exact Or.inl h.symm
    | some image => exact Or.inr ⟨image, h.symm⟩
  | next | forkFails | waitFails =>
    left
    cases code <;> simp_all [Proc.move, Called, eq_comm]

/-- A program without `fork`, `wait` and `exec`. -/
inductive Straight : Code S → Prop
  | print {line : S} {k : Code S} : Straight k → Straight (.print line k)
  | sleep {k : Code S} : Straight k → Straight (.sleep k)
  | getpid {k : Int → Code S} : (∀ pid, Straight (k pid)) → Straight (.getpid k)
  | getppid {k : Int → Code S} : (∀ pid, Straight (k pid)) → Straight (.getppid k)
  | setenv {name value : S} {k : Code S} : Straight k → Straight (.setenv name value k)
  | getenv {name : S} {k : Option S → Code S} : (∀ value, Straight (k value)) →
      Straight (.getenv name k)
  | exit {code : Int} : Straight (.exit code)

/-- All that the process still has to do is straight. -/
def Proc.Straight (e : Proc N S) : Prop := ∀ code, e.life = .running code → Processes.Straight code

omit [DecidableEq S] in
theorem Killed.straight (h : Killed e mv e') : e'.Straight := by
  cases h
  exact fun _ hl => (by cases hl)

omit [DecidableEq S] in
theorem straight_of_life {code : Code S} (hl : e.life = .running code) (h : Straight code) :
    e.Straight := by
  intro code' hl'
  cases hl.symm.trans hl'
  exact h

theorem straight_move (h : e.Straight) (hmove : e.move p b mv = some e') : e'.Straight := by
  cases hl : e.life with
  | zombie status =>
    rw [move_zombie hl] at hmove
    cases hmove
  | running code =>
    have hcode := h code hl
    obtain hcalled | hkill := move_running hl hmove
    · cases hcode with
      | print hk | sleep hk =>
        cases hcalled
        exact straight_of_life rfl hk
      | getpid hk | getppid hk | getenv hk =>
        cases hcalled
        exact straight_of_life rfl (hk _)
      | setenv hk =>
        obtain ⟨success, -, rfl⟩ := hcalled
        split
        · exact straight_of_life rfl hk
        · exact straight_of_life rfl hk
      | exit =>
        cases hcalled
        exact fun _ hl => (by cases hl)
    · exact hkill.straight

/-! ### A parent and its child -/

/-- The reaper has no record, and so it does not end. -/
def Closed (s : System N S) : Prop := s.proc s.reaper = none

/-- The parent of every process runs, or is the reaper. -/
def Tended (s : System N S) : Prop :=
  ∀ c z, s.proc c = some z → z.parent ≠ c ∧
    (z.parent = s.reaper ∨ ∃ x, s.proc z.parent = some x ∧ x.ended = false)

/-- The children of `m` meet `P`. -/
def Children (s : System N S) (m : Pid N) (P : Pid N → Prop) : Prop :=
  ∀ q z, s.proc q = some z → z.parent = m → P q

/-- `m` has the record `e` and no child. -/
structure Alone (s : System N S) (m : Pid N) (e : Proc N S) : Prop where
  record : s.proc m = some e
  children : Children s m (fun _ => False)

/-- `m` has the record `e`, and `c`, with the record `z`, is its only child. -/
structure Pair (s : System N S) (m c : Pid N) (e z : Proc N S) : Prop where
  record : s.proc m = some e
  child : s.proc c = some z
  parent : z.parent = m
  children : Children s m (· = c)
  ne : c ≠ m

theorem closed_step (hs : Closed s) (h : step s a = some t) : Closed t := by
  rw [Closed, step_reaper h, Option.eq_none_iff_forall_ne_some]
  intro z hz
  obtain ⟨p, -, -, hne⟩ | ⟨y, hy, -⟩ := parent_step h hz
  · exact hne rfl
  · rw [hs] at hy
    cases hy

theorem closed_run {ok' : System N S → Action N S → Prop} (hs : Closed s)
    (hr : Reachable step ok' s t) : Closed t :=
  hr.invariant hs (fun _ _ _ h _ hn => closed_step h hn)

omit [DecidableEq S] in
theorem Closed.ne (hs : Closed s) (hm : s.proc m = some e) : m ≠ s.reaper := by
  rintro rfl
  rw [hs] at hm
  cases hm

omit [DecidableEq S] in
theorem closed_single {r : Pid N} (h : r ≠ m) : Closed (System.single r m e) := if_neg h

omit [DecidableEq S] in
theorem alone_single {r : Pid N} (h : e.parent ≠ m) : Alone (System.single r m e) m e := by
  refine ⟨if_pos rfl, fun q z hq hz => ?_⟩
  change (if q = m then some e else none) = some z at hq
  split at hq
  · cases hq
    exact h hz
  · cases hq

/-- What runs before and after a step, other than the process that makes it. -/
theorem runs_step (h : step s a = some t) (hp : s.proc p = some e) (hrun : e.ended = false) :
    (∃ x, t.proc p = some x ∧ x.ended = false) ∨ ∃ mv x, a = .solo p mv ∧ t.proc p = some x ∧
      x.ended = true ∧ t = s.put p x := by
  by_cases hok : Meets (fun _ _ => True) p a
  · obtain he | ⟨_, _, -, -, -, he⟩ | ⟨e', hown, he⟩ := record_step h hok hp
    · exact Or.inl ⟨e, he, hrun⟩
    · exact Or.inl ⟨_, he, hrun⟩
    · cases hown with
      | @move mv _ hmove =>
        cases hended : e'.ended with
        | false => exact Or.inl ⟨e', he, hended⟩
        | true =>
          rw [step, hp, Option.bind_some, hmove] at h
          cases h
          exact Or.inr ⟨mv, e', rfl, he, hended, rfl⟩
      | fork | wait => exact Or.inl ⟨_, he, rfl⟩
  · -- a process that runs is not collected
    obtain ⟨_, _, _, _, rfl, -⟩ | ⟨_, _, _, _, rfl, -⟩ |
      ⟨q, c, x, z, k, status, rfl, -, -, hz, hstatus, -⟩ | ⟨c, z, rfl, hz, hended, -⟩ :=
        step_cases h
    · exact absurd trivial hok
    · exact absurd trivial hok
    · have hc : c = p := not_not.1 hok
      cases hc
      cases hp.symm.trans hz
      rw [Proc.ended, hstatus] at hrun
      cases hrun
    · have hc : c = p := not_not.1 hok
      cases hc
      cases hp.symm.trans hz
      cases hrun.symm.trans hended

/-- **No process has a parent that has ended.** -/
theorem tended_step (hclosed : Closed s) (hs : Tended s) (h : step s a = some t) : Tended t := by
  have hclosed' := closed_step hclosed h
  intro c z hc
  obtain ⟨p, rfl, rfl, -⟩ | ⟨y, hy, hparent | hparent⟩ := parent_step h hc
  · obtain ⟨_, _, _, _, ha, -⟩ | ⟨p, c', x, k, ha, hx, hk, hnone, -, -, rfl⟩ |
      ⟨_, _, _, _, _, _, ha, -⟩ | ⟨_, _, ha, -⟩ := step_cases h
    · cases ha
    · cases ha
      have hne : z.parent ≠ c := by
        intro e
        rw [e, hnone] at hx
        cases hx
      exact ⟨hne, Or.inr ⟨_, (System.set_of_ne hne).trans System.set_self, rfl⟩⟩
    · cases ha
    · cases ha
  · obtain ⟨hne, htended⟩ := hs c y hy
    rw [hparent]
    refine ⟨hne, ?_⟩
    obtain hr | ⟨x, hx, hrun⟩ := htended
    · exact Or.inl (hr.trans (step_reaper h).symm)
    · obtain hx' | ⟨mv, x', rfl, hx', hended, rfl⟩ := runs_step h hx hrun
      · exact Or.inr hx'
      · -- the parent has ended, so the child has been given to the reaper
        rw [System.put_of_ne hne.symm, hended, hy, if_pos rfl, Option.map_some, System.inherit,
          if_pos rfl] at hc
        cases hc
        exact Or.inl hparent.symm
  · have hne : z.parent ≠ c := by
      rintro rfl
      rw [hparent, ← step_reaper h, hclosed'] at hc
      cases hc
    exact ⟨hne, Or.inl (hparent.trans (step_reaper h).symm)⟩

theorem tended_run {ok' : System N S → Action N S → Prop} (hclosed : Closed s) (hs : Tended s)
    (hr : Reachable step ok' s t) : Tended t := by
  have hboth := hr.invariant (P := fun u => Closed u ∧ Tended u) ⟨hclosed, hs⟩
    (fun _ _ _ h _ hn => ⟨closed_step h.1 hn, tended_step h.1 h.2 hn⟩)
  exact hboth.2

omit [DecidableEq S] in
theorem tended_single {r : Pid N} (h : e.parent = r) (hne : r ≠ m) :
    Tended (System.single r m e) := by
  intro c z hc
  change (if c = m then some e else none) = some z at hc
  split at hc
  · rename_i hcm
    cases hc
    rw [h, hcm]
    exact ⟨hne, Or.inl rfl⟩
  · cases hc

/-- Only `fork` adds to the children of a process. -/
theorem children_step {P : Pid N → Prop} (hs : Closed s) (hm : s.proc m = some e)
    (h : step s a = some t) (hfork : ∀ c, a = .fork m c → P c) (hc : Children s m P) :
    Children t m P := by
  intro q z hq hz
  obtain ⟨p, ha, hp, -⟩ | ⟨y, hy, hparent | hparent⟩ := parent_step h hq
  · exact hfork q (by rw [ha, ← hp, hz])
  · exact hc q y hy (hparent.symm.trans hz)
  · exact absurd (hz.symm.trans hparent) (hs.ne hm)

omit [DecidableEq S] in
theorem Alone.childless (h : Alone s m e) : s.childless m = true := by
  refine decide_eq_true (fun q => ?_)
  cases hq : s.proc q with
  | none => rfl
  | some z => exact decide_eq_true (fun hz => h.children q z hq hz)

omit [DecidableEq S] in
theorem Pair.childless (h : Pair s m c e z) : s.childless m = false := by
  refine decide_eq_false (fun hall => ?_)
  have hc := hall c
  rw [h.child] at hc
  exact of_decide_eq_true hc h.parent

theorem alone_step (hs : Closed s) (hm : Alone s m e) (h : step s a = some t) (hok : Meets ok m a) :
    (∃ e', Alone t m e' ∧ ((∃ q, e' = e.adopt q) ∨
      ∃ mv, ok m mv ∧ e.move m true mv = some e')) ∨
    ∃ c k, e.life = .running (.fork k) ∧ 0 < c.val ∧
      Pair t m c (e.goto (k c.val)) (e.child m (k 0)) := by
  have halone : ∀ e', (∀ c, a ≠ .fork m c) → t.proc m = some e' → Alone t m e' :=
    fun e' hfork he' => ⟨he', children_step hs hm.record h (fun c hc => hfork c hc) hm.children⟩
  by_cases hfork : ∃ c, a = .fork m c
  · obtain ⟨c, rfl⟩ := hfork
    obtain ⟨_, _, _, _, ha, -⟩ | ⟨p, c', x, k, ha, hx, hk, hnone, -, hpos, rfl⟩ |
      ⟨_, _, _, _, _, _, ha, -⟩ | ⟨_, _, ha, -⟩ := step_cases h
    · cases ha
    · cases ha
      cases hm.record.symm.trans hx
      have hne : c ≠ m := by
        rintro rfl
        rw [hnone] at hx
        cases hx
      refine Or.inr ⟨c, k, hk, hpos, ?_, System.set_self, rfl, ?_, hne⟩
      · rw [System.set_of_ne hne.symm]
        exact System.set_self
      · refine children_step hs hm.record h (fun c' hc' => ?_)
          (fun q y hq hy => (hm.children q y hq hy).elim)
        cases hc'
        rfl
    · cases ha
    · cases ha
  · rw [not_exists] at hfork
    left
    obtain he | ⟨_, _, -, -, -, he⟩ | ⟨e', hown, he⟩ := record_step h hok hm.record
    · exact ⟨e, halone e hfork he, Or.inl ⟨e.parent, rfl⟩⟩
    · exact ⟨_, halone _ hfork he, Or.inl ⟨s.reaper, rfl⟩⟩
    · refine ⟨e', halone e' hfork he, Or.inr ?_⟩
      cases hown with
      | move hmove =>
        rw [hm.childless] at hmove
        exact ⟨_, hok, hmove⟩
      | fork => exact absurd rfl (hfork _)
      | wait _ hz _ hparent => exact (hm.children _ _ hz hparent).elim

/-- A call of the parent that is not about its child. -/
theorem pair_move {mv : Move S} (hs : Closed s) (hp : Pair s m c e z)
    (h : step s (.solo m mv) = some t) :
    ∃ e', e.move m false mv = some e' ∧ (e'.ended = false ∧ Pair t m c e' z ∨
      e'.ended = true ∧ Alone t m e' ∧ t.proc c = some (z.adopt s.reaper)) := by
  have hchildren := children_step hs hp.record h (fun _ ha => (by cases ha)) hp.children
  rw [step, hp.record, Option.bind_some, hp.childless] at h
  obtain ⟨e', hmove, rfl⟩ := Option.map_eq_some_iff.1 h
  refine ⟨e', hmove, ?_⟩
  have hc : (s.put m e').proc c = if e'.ended then some (z.adopt s.reaper) else some z := by
    rw [System.put_of_ne hp.ne, hp.child, Option.map_some, System.inherit, if_pos hp.parent]
  cases hended : e'.ended with
  | false =>
    rw [hended] at hc
    exact Or.inl ⟨rfl, System.put_self, hc, hp.parent, hchildren, hp.ne⟩
  | true =>
    rw [hended] at hc
    refine Or.inr ⟨rfl, ⟨System.put_self, fun q y hq hy => ?_⟩, hc⟩
    have hqc := hchildren q y hq hy
    subst hqc
    rw [hc] at hq
    cases hq
    exact hs.ne hp.record hy.symm

/-- The parent collects its child. -/
theorem pair_wait (hs : Closed s) (hp : Pair s m c e z) (h : step s (.wait m c) = some t) :
    ∃ k status, e.life = .running (.wait k) ∧ z.life = .zombie status ∧
      Alone t m (e.collect k status) := by
  have hchildren := children_step hs hp.record h (fun _ ha => (by cases ha)) hp.children
  obtain ⟨_, _, _, _, ha, -⟩ | ⟨_, _, _, _, ha, -⟩ | ⟨p, c', x, y, k, status, ha, hx, hk, hy,
    hstatus, -, rfl⟩ | ⟨_, _, ha, -⟩ := step_cases h
  · cases ha
  · cases ha
  · cases ha
    cases hp.record.symm.trans hx
    cases hp.child.symm.trans hy
    refine ⟨k, status, hk, hstatus, System.set_self, fun q y' hq hy' => ?_⟩
    have hqc := hchildren q y' hq hy'
    subst hqc
    rw [System.set_of_ne hp.ne, System.set_self] at hq
    cases hq
  · cases ha

theorem pair_step (hs : Closed s) (hp : Pair s m c e z) (h : step s a = some t)
    (hok : Meets ok m a) (hfork : ∀ k, e.life ≠ .running (.fork k)) :
    (∃ q z', Pair t m c (e.adopt q) z' ∧ (z' = z ∨ Own s c z a z')) ∨
    (∃ mv e', ok m mv ∧ e.move m false mv = some e' ∧ (e'.ended = false ∧ Pair t m c e' z ∨
      e'.ended = true ∧ Alone t m e' ∧ t.proc c = some (z.adopt s.reaper))) ∨
    ∃ k status, e.life = .running (.wait k) ∧ z.life = .zombie status ∧
      Alone t m (e.collect k status) := by
  by_cases hmove : ∃ mv, a = .solo m mv
  · obtain ⟨mv, rfl⟩ := hmove
    obtain ⟨e', he', hends⟩ := pair_move hs hp h
    exact Or.inr (Or.inl ⟨mv, e', hok, he', hends⟩)
  by_cases hwait : a = .wait m c
  · subst hwait
    exact Or.inr (Or.inr (pair_wait hs hp h))
  -- the parent does nothing, and its child stays
  left
  have hokc : Meets ok c a := by
    obtain ⟨_, _, _, _, rfl, -⟩ | ⟨_, _, _, _, rfl, -⟩ |
      ⟨p, c', _, y, _, _, rfl, -, -, hy, -, hparent, -⟩ | ⟨c', y, rfl, hy, -, hparent, -⟩ :=
        step_cases h
    · exact hok
    · trivial
    · rintro rfl
      cases hp.child.symm.trans hy
      exact hwait (by rw [← hparent, hp.parent])
    · rintro rfl
      cases hp.child.symm.trans hy
      exact hs.ne hp.record (hp.parent.symm.trans hparent)
  have hchildren : Children t m (· = c) := by
    refine children_step hs hp.record h (fun c' ha => ?_) hp.children
    obtain ⟨_, _, _, _, rfl, -⟩ | ⟨p, _, x, k, rfl, hx, hk, -⟩ | ⟨_, _, _, _, _, _, rfl, -⟩ |
      ⟨_, _, rfl, -⟩ := step_cases h
    · cases ha
    · cases ha
      cases hp.record.symm.trans hx
      exact absurd hk (hfork k)
    · cases ha
    · cases ha
  have hparent : ∃ q, t.proc m = some (e.adopt q) := by
    obtain he | ⟨_, _, -, -, -, he⟩ | ⟨e', hown, he⟩ := record_step h hok hp.record
    · exact ⟨e.parent, he⟩
    · exact ⟨_, he⟩
    · cases hown with
      | move => exact absurd ⟨_, rfl⟩ hmove
      | fork hk => exact absurd hk (hfork _)
      | wait _ hz _ hparent =>
        cases hp.children _ _ hz hparent
        exact absurd rfl hwait
  obtain ⟨q, he⟩ := hparent
  obtain hz | ⟨mv, _, ha, -⟩ | ⟨z', hown, hz⟩ := record_step h hokc hp.child
  · exact ⟨q, z, ⟨he, hz, hp.parent, hchildren, hp.ne⟩, Or.inl rfl⟩
  · rw [hp.parent] at ha
    exact absurd ⟨mv, ha⟩ hmove
  · exact ⟨q, z', ⟨he, hz, hown.parent_eq.trans hp.parent, hchildren, hp.ne⟩, Or.inr hown⟩

/-! ### The contract of a program that forks once -/

/-- `A` holds of a parent without a child, and `B` of a parent and its child `c`. -/
structure Contract (ok : Pid N → Move S → Prop) (m : Pid N) (A : Proc N S → Prop)
    (B : Pid N → Proc N S → Proc N S → Prop) : Prop where
  /-- who the parent of the parent is does not matter -/
  adopt : ∀ e q, A e → A (e.adopt q)
  adoptPair : ∀ c e z q, B c e z → B c (e.adopt q) z
  alone : ∀ e mv e', A e → ok m mv → e.move m true mv = some e' → A e'
  fork : ∀ e k c, A e → e.life = .running (.fork k) → 0 < c.val →
    B c (e.goto (k c.val)) (e.child m (k 0))
  once : ∀ c e z k, B c e z → e.life ≠ .running (.fork k)
  goes : ∀ c e z mv e', B c e z → ok m mv → e.move m false mv = some e' → e'.ended = false →
    B c e' z
  ends : ∀ c e z mv e', B c e z → ok m mv → e.move m false mv = some e' → e'.ended = true → A e'
  child : ∀ s a c e z z', c ≠ m → B c e z → Meets ok m a → Own s c z a z' → B c e z'
  wait : ∀ c e z k status, B c e z → e.life = .running (.wait k) → z.life = .zombie status →
    A (e.collect k status)

/-- The parent's record, and that of its child, are as the contract says. -/
def Holds (m : Pid N) (A : Proc N S → Prop) (B : Pid N → Proc N S → Proc N S → Prop)
    (s : System N S) : Prop :=
  ∃ e, (Alone s m e ∧ A e) ∨ ∃ c z, Pair s m c e z ∧ B c e z

variable {A : Proc N S → Prop} {B : Pid N → Proc N S → Proc N S → Prop}

theorem Contract.step (hc : Contract ok m A B) (hs : Closed s) (hh : Holds m A B s)
    (h : step s a = some t) (hok : Meets ok m a) : Holds m A B t := by
  obtain ⟨e, ⟨hm, hA⟩ | ⟨c, z, hp, hB⟩⟩ := hh
  · obtain ⟨e', hm', ⟨q, rfl⟩ | ⟨mv, hmv, hmove⟩⟩ | ⟨c, k, hk, hpos, hp⟩ := alone_step hs hm h hok
    · exact ⟨_, Or.inl ⟨hm', hc.adopt e q hA⟩⟩
    · exact ⟨e', Or.inl ⟨hm', hc.alone e mv e' hA hmv hmove⟩⟩
    · exact ⟨_, Or.inr ⟨c, _, hp, hc.fork e k c hA hk hpos⟩⟩
  · obtain ⟨q, z', hp', hz⟩ | ⟨mv, e', hmv, hmove, hends⟩ | ⟨k, status, hk, hz, hm⟩ :=
      pair_step hs hp h hok (fun k => hc.once c e z k hB)
    · refine ⟨_, Or.inr ⟨c, z', hp', hc.adoptPair c e z' q ?_⟩⟩
      obtain rfl | hown := hz
      · exact hB
      · exact hc.child s a c e z z' hp.ne hB hok hown
    · obtain ⟨hended, hp'⟩ | ⟨hended, hm', -⟩ := hends
      · exact ⟨e', Or.inr ⟨c, z, hp', hc.goes c e z mv e' hB hmv hmove hended⟩⟩
      · exact ⟨e', Or.inl ⟨hm', hc.ends c e z mv e' hB hmv hmove hended⟩⟩
    · exact ⟨_, Or.inl ⟨hm, hc.wait c e z k status hB hk hz⟩⟩

/-- **A contract holds in every run.** -/
theorem Contract.run (hc : Contract ok m A B) (hs : Closed s) (hh : Holds m A B s)
    (hr : Reachable Processes.step (fun _ a => Meets ok m a) s t) : Holds m A B t := by
  have hboth := hr.invariant (P := fun u => Closed u ∧ Holds m A B u) ⟨hs, hh⟩
    (fun _ _ _ h hok hn => ⟨closed_step h.1 hn, hc.step h.1 h.2 hn hok⟩)
  exact hboth.2

/-- **A fork with a straight parent.**  `P` is what holds of the child. -/
theorem straight_contract {k : Int → Code S} {P : Pid N → Proc N S → Prop}
    (hparent : ∀ pid, pid ≠ 0 → Straight (k pid)) (hchild : ∀ c env, P c (.fresh m env (k 0)))
    (hown : ∀ s a c z z', c ≠ m → P c z → Meets ok m a → Own s c z a z' → P c z') :
    Contract ok m (fun e => e.life = .running (.fork k) ∨ e.Straight)
      (fun c e z => e.Straight ∧ e.ended = false ∧ P c z) where
  adopt e q h := h
  adoptPair c e z q h := h
  alone e mv e' h _ hmove := by
    obtain hl | h := h
    · obtain rfl | hkill := move_running hl hmove
      · exact Or.inr (straight_of_life rfl (hparent (-1) (by decide)))
      · exact Or.inr hkill.straight
    · exact Or.inr (straight_move h hmove)
  fork e k' c h hl hpos := by
    obtain hl' | h := h
    · cases hl.symm.trans hl'
      exact ⟨straight_of_life rfl (hparent c.val (by omega)), rfl, hchild c e.env⟩
    · cases h _ hl
  once c e z k h hl := by cases h.1 _ hl
  goes c e z mv e' h _ hmove hrun := ⟨straight_move h.1 hmove, hrun, h.2.2⟩
  ends c e z mv e' h _ hmove _ := Or.inr (straight_move h.1 hmove)
  child s a c e z z' hne h hok hz := ⟨h.1, h.2.1, hown s a c z z' hne h.2.2 hok hz⟩
  wait c e z k status h hl _ := by cases h.1 _ hl

end Processes
