import EmbeddedLinux.Lib.Tally
import EmbeddedLinux.Lib.Transition
import Mathlib.Data.Fintype.Fin

/-!
# One tray of the restaurant program

`SharedBuffer` and the two routines `add_item` and `remove_item`, step by step: each
`sem_wait`, each test of a slot, the store and each `sem_post` is one step, and
between two of them any other process may move.  The two routines are one shape with
their semaphores and values exchanged, which is `Routine`.

`Tray` is a buffer with the processes that are inside a call on it.  `TrayStep` says what
can happen to it: a process enters a call, or one that is inside takes a step.  Two
history variables count the stores of `add_item` and the clears of `remove_item`.
-/

namespace EmbeddedLinux.Restaurant

open Tally

/-- `BUFFER_SIZE` -/
abbrev bufferSize : Nat := 10

namespace Item

def empty : Int := 0
def vegan : Int := 1
def nonVegan : Int := 2

end Item

/-- The semaphores of a tray. -/
inductive Sem
  | mutex
  | full
  | empty
  deriving DecidableEq

structure SharedBuffer where
  items : Fin bufferSize → Int
  sem : Sem → Nat

namespace SharedBuffer

/-- A buffer as `main` sets it up. -/
def init : SharedBuffer :=
  { items := fun _ => Item.empty
    sem := fun
      | .mutex => 1
      | .full => 0
      | .empty => bufferSize }

/-- `sem_wait`, which returns when it has taken a unit. -/
def semWait (b : SharedBuffer) (s : Sem) : Option SharedBuffer :=
  if 0 < b.sem s then some { b with sem := Function.update b.sem s (b.sem s - 1) } else none

def semPost (b : SharedBuffer) (s : Sem) : SharedBuffer :=
  { b with sem := Function.update b.sem s (b.sem s + 1) }

def store (b : SharedBuffer) (i : Fin bufferSize) (x : Int) : SharedBuffer :=
  { b with items := Function.update b.items i x }

/-- The number of slots that are not `EMPTY`. -/
def filled (b : SharedBuffer) : Nat := tally (fun _ x => x != Item.empty) b.items

end SharedBuffer

/-- What `add_item` and `remove_item` differ in. -/
structure Routine where
  /-- the semaphore waited for first -/
  first : Sem
  /-- the value the loop looks for -/
  find : Int
  /-- the value stored there -/
  put : Int
  /-- the semaphore posted last -/
  last : Sem

def addItem (itemType : Int) : Routine :=
  { first := .empty, find := Item.empty, put := itemType, last := .full }

def removeItem (itemType : Int) : Routine :=
  { first := .full, find := itemType, put := Item.empty, last := .empty }

/-- Where a process is inside a routine. -/
inductive Pos
  /-- at the first `sem_wait` -/
  | first
  /-- at `sem_wait(&buffer->mutex)` -/
  | lock
  /-- at the test of the loop with this `i` -/
  | test (i : Nat)
  /-- the test has succeeded: at the store -/
  | write (i : Fin bufferSize)
  /-- at `printf` and `sem_post(&buffer->mutex)` -/
  | unlock
  /-- at the last `sem_post` -/
  | last
  deriving DecidableEq

/-- One step of a routine: the buffer, and where the process is then, or `none` when it
has returned.  No step is possible at a `sem_wait` on a semaphore of value 0. -/
def Routine.step (r : Routine) (b : SharedBuffer) : Pos → Option (SharedBuffer × Option Pos)
  | .first => (b.semWait r.first).map (fun b' => (b', some .lock))
  | .lock => (b.semWait .mutex).map (fun b' => (b', some (.test 0)))
  | .test i =>
    if h : i < bufferSize then
      if b.items ⟨i, h⟩ = r.find then some (b, some (.write ⟨i, h⟩))
      else some (b, some (.test (i + 1)))
    else some (b, some .unlock)
  | .write i => some (b.store i r.put, some .unlock)
  | .unlock => some (b.semPost .mutex, some .last)
  | .last => some (b.semPost r.last, none)

/-- A buffer, and where each process is inside a call on it. -/
structure Tray (ι : Type*) where
  buf : SharedBuffer
  pos : ι → Option Pos
  stores : Nat
  clears : Nat

section
variable {ι : Type*} [DecidableEq ι]

/-- The routine of a process that adds, or removes, items of the type `t`. -/
def routine (adds : ι → Bool) (t : Int) (i : ι) : Routine :=
  if adds i then addItem t else removeItem t

def Pos.isWrite : Pos → Bool
  | .write _ => true
  | _ => false

/-- Process `i` has taken a step from `p`. -/
def Tray.move (adds : ι → Bool) (w : Tray ι) (i : ι) (p : Pos) (b : SharedBuffer)
    (q : Option Pos) : Tray ι :=
  { buf := b
    pos := Function.update w.pos i q
    stores := w.stores + (p.isWrite && adds i).toNat
    clears := w.clears + (p.isWrite && !adds i).toNat }

/-- Process `i` has called its routine. -/
def Tray.enter (w : Tray ι) (i : ι) : Tray ι :=
  { w with pos := Function.update w.pos i (some .first) }

theorem Tray.move_pos (adds : ι → Bool) (w : Tray ι) (i j : ι) (p : Pos) (b : SharedBuffer)
    (q : Option Pos) : (w.move adds i p b q).pos j = if j = i then q else w.pos j :=
  Function.update_apply _ _ _ _

theorem Tray.enter_pos (w : Tray ι) (i j : ι) :
    (w.enter i).pos j = if j = i then some .first else w.pos j :=
  Function.update_apply _ _ _ _

inductive TrayStep (adds : ι → Bool) (t : Int) : Tray ι → Tray ι → Prop
  | enter {w : Tray ι} {i : ι} (hp : w.pos i = none) : TrayStep adds t w (w.enter i)
  | move {w : Tray ι} {i : ι} {p : Pos} {b : SharedBuffer} {q : Option Pos}
      (hp : w.pos i = some p) (hs : (routine adds t i).step w.buf p = some (b, q)) :
      TrayStep adds t w (w.move adds i p b q)

end

/-! ### What a step of a routine can do -/

theorem SharedBuffer.semWait_eq_some {b b' : SharedBuffer} {s : Sem} :
    b.semWait s = some b' ↔
      0 < b.sem s ∧ b' = { b with sem := Function.update b.sem s (b.sem s - 1) } := by
  rw [SharedBuffer.semWait]
  split
  · rename_i h
    rw [Option.some.injEq]
    exact ⟨fun e => ⟨h, e.symm⟩, fun e => e.2.symm⟩
  · rename_i h
    exact ⟨fun e => (by cases e), fun e => absurd e.1 h⟩

/-- Only a `sem_wait` can block. -/
theorem Routine.step_eq_none {r : Routine} {b : SharedBuffer} {p : Pos} (h : r.step b p = none) :
    p = .first ∧ b.sem r.first = 0 ∨ p = .lock ∧ b.sem .mutex = 0 := by
  cases p with
  | first =>
    left
    rw [Routine.step, Option.map_eq_none_iff, SharedBuffer.semWait] at h
    split at h
    · cases h
    · exact ⟨rfl, by omega⟩
  | lock =>
    right
    rw [Routine.step, Option.map_eq_none_iff, SharedBuffer.semWait] at h
    split at h
    · cases h
    · exact ⟨rfl, by omega⟩
  | test i =>
    rw [Routine.step] at h
    split at h
    · split at h <;> cases h
    · cases h
  | write i => cases h
  | unlock => cases h
  | last => cases h

/-- **Every step of a routine**, with what it does to the buffer. -/
theorem Routine.step_cases {r : Routine} {b b' : SharedBuffer} {p : Pos} {q : Option Pos}
    (h : r.step b p = some (b', q)) :
    (p = .first ∧ q = some .lock ∧ 0 < b.sem r.first ∧
      b' = { b with sem := Function.update b.sem r.first (b.sem r.first - 1) }) ∨
    (p = .lock ∧ q = some (.test 0) ∧ 0 < b.sem .mutex ∧
      b' = { b with sem := Function.update b.sem .mutex (b.sem .mutex - 1) }) ∨
    (∃ i : Fin bufferSize, p = .test i ∧ b' = b ∧
      (b.items i = r.find ∧ q = some (.write i) ∨ b.items i ≠ r.find ∧ q = some (.test (i + 1)))) ∨
    (∃ i, p = .test i ∧ bufferSize ≤ i ∧ b' = b ∧ q = some .unlock) ∨
    (∃ i, p = .write i ∧ b' = b.store i r.put ∧ q = some .unlock) ∨
    (p = .unlock ∧ b' = b.semPost .mutex ∧ q = some .last) ∨
    (p = .last ∧ b' = b.semPost r.last ∧ q = none) := by
  cases p with
  | first =>
    left
    rw [Routine.step, Option.map_eq_some_iff] at h
    obtain ⟨c, hc, he⟩ := h
    obtain ⟨hpos, rfl⟩ := SharedBuffer.semWait_eq_some.mp hc
    cases he
    exact ⟨rfl, rfl, hpos, rfl⟩
  | lock =>
    right; left
    rw [Routine.step, Option.map_eq_some_iff] at h
    obtain ⟨c, hc, he⟩ := h
    obtain ⟨hpos, rfl⟩ := SharedBuffer.semWait_eq_some.mp hc
    cases he
    exact ⟨rfl, rfl, hpos, rfl⟩
  | test i =>
    right; right
    rw [Routine.step] at h
    split at h
    · rename_i hi
      left
      split at h
      · rename_i hf
        cases h
        exact ⟨⟨i, hi⟩, rfl, rfl, Or.inl ⟨hf, rfl⟩⟩
      · rename_i hf
        cases h
        exact ⟨⟨i, hi⟩, rfl, rfl, Or.inr ⟨hf, rfl⟩⟩
    · rename_i hi
      right; left
      cases h
      exact ⟨i, rfl, not_lt.mp hi, rfl, rfl⟩
  | write i =>
    right; right; right; right; left
    cases h
    exact ⟨i, rfl, rfl, rfl⟩
  | unlock =>
    right; right; right; right; right; left
    cases h
    exact ⟨rfl, rfl, rfl⟩
  | last =>
    right; right; right; right; right; right
    cases h
    exact ⟨rfl, rfl, rfl⟩

end EmbeddedLinux.Restaurant
