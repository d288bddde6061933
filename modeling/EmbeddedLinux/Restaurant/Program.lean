import EmbeddedLinux.Restaurant.Counts
import Mathlib.Data.Fin.VecNotation

/-!
# The restaurant program

Any number of processes in the roles that `main` starts: a chef of a tray sleeps and adds
an item to it, over and over; a customer of a tray removes an item and sleeps; and
`customer3` removes from the two trays by turns.  The parent sleeps and scans both
trays with `print_buffer_state`, one slot at a time and without the mutex.

A run of the program is, at each tray, a run of `TrayStep` (`step_tray`), so the
invariant `Sound` holds of both trays in every reachable state (`sound_run`).
-/

namespace EmbeddedLinux.Restaurant

open Tally Transition

/-- The trays, by the type of their items. -/
inductive Dish
  | vegan
  | nonVegan
  deriving DecidableEq

def Dish.itemType : Dish → Int
  | .vegan => Item.vegan
  | .nonVegan => Item.nonVegan

theorem Dish.itemType_ne (d : Dish) : d.itemType ≠ Item.empty := by
  cases d <;> decide

def Dish.other : Dish → Dish
  | .vegan => .nonVegan
  | .nonVegan => .vegan

inductive Role
  | chef (d : Dish)
  | customer (d : Dish)
  | customer3
  deriving DecidableEq

def chefDonatello : Role := .chef .nonVegan
def chefPortecelli : Role := .chef .vegan
def customer1 : Role := .customer .nonVegan
def customer2 : Role := .customer .vegan
def customer3 : Role := .customer3

/-- The processes `main` forks, in order. -/
def mainRoles : Fin 5 → Role := ![chefDonatello, chefPortecelli, customer1, customer2, customer3]

def donatello : Fin 5 := 0
def portecelli : Fin 5 := 1

/-- The role calls `add_item`; the others call `remove_item`. -/
def Role.adds : Role → Bool
  | .chef _ => true
  | _ => false

/-- Where a process is in the loop of its role. -/
inductive Pc
  /-- in `sleep`, before a call on the tray -/
  | sleeping (d : Dish)
  /-- inside a call on the tray -/
  | inside (d : Dish) (p : Pos)

/-- A chef sleeps first, a customer calls first. -/
def Role.start : Role → Pc
  | .chef d => .sleeping d
  | .customer d => .inside d .first
  | .customer3 => .inside .vegan .first

/-- The tray of the next call, after one on `d`. -/
def Role.next : Role → Dish → Dish
  | .customer3, d => d.other
  | _, d => d

/-- Where a process is after a step inside a call on `d`; `none`: the call has returned. -/
def Role.after (r : Role) (d : Dish) : Option Pos → Pc
  | some q => .inside d q
  | none => .sleeping (r.next d)

/-- Where the parent is. -/
inductive ScanPc
  /-- in `sleep` -/
  | sleeping
  /-- in `print_buffer_state`, at the test of slot `i` of tray `d` -/
  | reading (d : Dish) (i : Fin bufferSize) (count : Dish → Nat)
  /-- at `printf` -/
  | printing (count : Dish → Nat)

/-- One step of the parent. -/
def ScanPc.step (tray : Dish → SharedBuffer) : ScanPc → ScanPc
  | .sleeping => .reading .vegan 0 (fun _ => 0)
  | .reading d i count =>
    let count' := Function.update count d (count d + ((tray d).items i != Item.empty).toNat)
    match d with
    | .vegan => .reading .nonVegan i count'
    | .nonVegan =>
      if h : i.val + 1 < bufferSize then .reading .vegan ⟨i.val + 1, h⟩ count' else .printing count'
  | .printing _ => .sleeping

/-- The trays and the processes.  `stores` and `clears` count the stores of `add_item`
and the clears of `remove_item`; no step reads them. -/
structure State (ι : Type*) where
  tray : Dish → SharedBuffer
  pc : ι → Pc
  scan : ScanPc
  stores : Dish → Nat
  clears : Dish → Nat

/-- Who takes the step. -/
inductive Action (ι : Type*)
  | proc (i : ι)
  | parent

section
variable {ι : Type*} [DecidableEq ι]

/-- The routine that a role calls on a tray. -/
def Role.routine (r : Role) (d : Dish) : Routine :=
  if r.adds then addItem d.itemType else removeItem d.itemType

/-- The state after process `i` has taken a step from `p` inside a call on `d`. -/
def State.move (role : ι → Role) (s : State ι) (i : ι) (d : Dish) (p : Pos) (b : SharedBuffer)
    (q : Option Pos) : State ι :=
  { s with
    tray := Function.update s.tray d b
    pc := Function.update s.pc i ((role i).after d q)
    stores := Function.update s.stores d (s.stores d + (p.isWrite && (role i).adds).toNat)
    clears := Function.update s.clears d (s.clears d + (p.isWrite && !(role i).adds).toNat) }

def step (role : ι → Role) (s : State ι) : Action ι → Option (State ι)
  | .proc i =>
    match s.pc i with
    | .sleeping d => some { s with pc := Function.update s.pc i (.inside d .first) }
    | .inside d p =>
      (((role i).routine d).step (s.tray d) p).map (fun (b, q) => s.move role i d p b q)
  | .parent => some { s with scan := s.scan.step s.tray }

/-- After the initialisation in `main`, with the processes forked. -/
def initial (role : ι → Role) : State ι :=
  { tray := fun _ => SharedBuffer.init
    pc := fun i => (role i).start
    scan := .sleeping
    stores := fun _ => 0
    clears := fun _ => 0 }

/-- What a step is: the parent's, a call by a process that has slept, or a step of a
process inside a call. -/
theorem step_cases {role : ι → Role} {s t : State ι} {a : Action ι} (h : step role s a = some t) :
    (a = .parent ∧ t = { s with scan := s.scan.step s.tray }) ∨
    (∃ i d, a = .proc i ∧ s.pc i = .sleeping d ∧
      t = { s with pc := Function.update s.pc i (.inside d .first) }) ∨
    ∃ i d p b q, a = .proc i ∧ s.pc i = .inside d p ∧
      ((role i).routine d).step (s.tray d) p = some (b, q) ∧ t = s.move role i d p b q := by
  cases a with
  | parent =>
    left
    cases h
    exact ⟨rfl, rfl⟩
  | proc i =>
    right
    rw [step] at h
    split at h
    · rename_i d hd
      left
      cases h
      exact ⟨i, d, rfl, hd, rfl⟩
    · rename_i d p hp
      right
      rw [Option.map_eq_some_iff] at h
      obtain ⟨⟨b, q⟩, hs, rfl⟩ := h
      exact ⟨i, d, p, b, q, rfl, hp, hs, rfl⟩

/-! ### One tray of the program -/

/-- Where a process is inside a call on the tray `d`. -/
def Pc.at (d : Dish) : Pc → Option Pos
  | .inside d' p => if d' = d then some p else none
  | .sleeping _ => none

theorem Pc.at_eq_some {d : Dish} {pc : Pc} {p : Pos} : pc.at d = some p ↔ pc = .inside d p := by
  cases pc with
  | sleeping d' => simp [Pc.at]
  | inside d' p' =>
    rw [Pc.at]
    split
    · rename_i e
      subst e
      simp
    · rename_i e
      simp [e]

theorem Role.after_at (r : Role) (d : Dish) (q : Option Pos) : (r.after d q).at d = q := by
  cases q with
  | none => rfl
  | some q => exact if_pos rfl

theorem Pc.at_of_ne {d d' : Dish} (h : d' ≠ d) (p : Pos) : (Pc.inside d' p).at d = none := if_neg h

theorem Role.after_at_of_ne (r : Role) {d d' : Dish} (h : d' ≠ d) (q : Option Pos) :
    (r.after d' q).at d = none := by
  cases q with
  | none => rfl
  | some q => exact if_neg h

/-- What a state says of the tray `d`. -/
def State.at (s : State ι) (d : Dish) : Tray ι :=
  { buf := s.tray d
    pos := fun i => (s.pc i).at d
    stores := s.stores d
    clears := s.clears d }

theorem State.at_pc (s : State ι) (i : ι) (pc : Pc) (d : Dish) :
    (fun j => (Function.update s.pc i pc j).at d) =
      Function.update (fun j => (s.pc j).at d) i (pc.at d) := by
  funext j
  by_cases hj : j = i
  · subst hj
    rw [Function.update_self, Function.update_self]
  · rw [Function.update_of_ne hj, Function.update_of_ne hj]

/-- A process that stays outside calls on `d` changes nothing there. -/
theorem State.at_pc_same {s : State ι} {i : ι} {pc : Pc} {d : Dish} (h : pc.at d = (s.pc i).at d) :
    (fun j => (Function.update s.pc i pc j).at d) = fun j => (s.pc j).at d := by
  rw [State.at_pc, h]
  exact Function.update_eq_self i _

/-- **Each step of the program** is a step at one tray at most. -/
theorem step_tray {role : ι → Role} {s t : State ι} {a : Action ι} (h : step role s a = some t)
    (d : Dish) : t.at d = s.at d ∨
      TrayStep (fun i => (role i).adds) d.itemType (s.at d) (t.at d) := by
  obtain ⟨-, rfl⟩ | ⟨i, d', -, hi, rfl⟩ | ⟨i, d', p, b, q, -, hi, hs, rfl⟩ := step_cases h
  · exact Or.inl rfl
  · by_cases hd : d' = d
    · subst hd
      right
      have hpos : (s.at d').pos i = none := by
        show (s.pc i).at d' = none
        rw [hi]
        rfl
      have he : ({ s with pc := Function.update s.pc i (.inside d' .first) } : State ι).at d' =
          (s.at d').enter i := by
        have hat : (Pc.inside d' .first).at d' = some .first := if_pos rfl
        rw [State.at, State.at_pc, hat]
        rfl
      rw [he]
      exact TrayStep.enter hpos
    · left
      have hsame : (Pc.inside d' .first).at d = (s.pc i).at d := by
        rw [hi]
        exact if_neg hd
      rw [State.at, State.at_pc_same hsame]
      rfl
  · by_cases hd : d' = d
    · subst hd
      right
      have hpos : (s.at d').pos i = some p := Pc.at_eq_some.mpr hi
      have he : (s.move role i d' p b q).at d' =
          (s.at d').move (fun i => (role i).adds) i p b q := by
        rw [State.at, Tray.move, Tray.mk.injEq]
        refine ⟨Function.update_self _ _ _, ?_, Function.update_self _ _ _,
          Function.update_self _ _ _⟩
        show (fun j => (Function.update s.pc i _ j).at d') = _
        rw [State.at_pc, Role.after_at]
        rfl
      rw [he]
      exact TrayStep.move hpos hs
    · left
      rw [State.at, State.at, Tray.mk.injEq]
      have hne : d ≠ d' := fun e => hd e.symm
      refine ⟨Function.update_of_ne hne _ _, ?_, Function.update_of_ne hne _ _,
        Function.update_of_ne hne _ _⟩
      apply State.at_pc_same
      rw [hi, Role.after_at_of_ne _ hd, Pc.at_of_ne hd]

variable [Fintype ι]

omit [DecidableEq ι] in
theorem sound_initial (role : ι → Role) (d : Dish) :
    Sound (fun i => (role i).adds) d.itemType ((initial role).at d) := by
  refine Sound.init _ rfl ?_ rfl rfl
  intro i
  show (role i).start.at d = none ∨ (role i).start.at d = some .first
  cases role i with
  | chef d' => exact Or.inl rfl
  | customer d' =>
    by_cases hd : d' = d
    · exact Or.inr (if_pos hd)
    · exact Or.inl (if_neg hd)
  | customer3 =>
    by_cases hd : Dish.vegan = d
    · exact Or.inr (if_pos hd)
    · exact Or.inl (if_neg hd)

theorem sound_step {role : ι → Role} {s t : State ι} {a : Action ι} {d : Dish}
    (h : Sound (fun i => (role i).adds) d.itemType (s.at d)) (hn : step role s a = some t) :
    Sound (fun i => (role i).adds) d.itemType (t.at d) := by
  rcases step_tray hn d with he | hs
  · rw [he]
    exact h
  · exact h.step d.itemType_ne hs

/-- **The invariant of both trays** in every reachable state. -/
theorem sound_run {role : ι → Role} {s : State ι} (hr : Reachable (step role) Any (initial role) s)
    (d : Dish) : Sound (fun i => (role i).adds) d.itemType (s.at d) :=
  hr.invariant (P := fun s => Sound (fun i => (role i).adds) d.itemType (s.at d))
    (sound_initial role d) (fun _ _ _ h _ hn => sound_step h hn)

end

end EmbeddedLinux.Restaurant
