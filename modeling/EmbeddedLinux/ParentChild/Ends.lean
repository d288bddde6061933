import EmbeddedLinux.Lib.CString
import EmbeddedLinux.Lib.Progress
import EmbeddedLinux.Lib.SignalCount

/-!
# Five signals to a child

The parent sends `SIGUSR1` to its child five times, waits for it and prints that it has exited.  The
child installs a handler that counts to five and exits, and spins.  The parent does not know how far
the child is: `sleep` gives it time, and nothing else does.

Every run comes to an end after a bounded number of steps, in one of three ways
(`child_exits_or_waits`): the child has counted all five; or the first signal came before the
handler was there and has killed it; or some of the signals were merged, the child has printed a
line for each of the others, and the parent waits for ever.
-/

namespace EmbeddedLinux.ParentChild

open CString Signals Transition

/-- The limit and the texts of `handle_sigusr1`. -/
def sigusr1 : CountingProgram UInt8 :=
  { limit := 5
    line := fun n => text "Child: Received signal from parent (" ++ decimal n ++ text ")\n"
    farewell := text "Child: Received 5 signals. Exiting.\n"
    limit_pos := by decide }

/-- A step of `handle_sigusr1`. -/
def handleSigusr1 : Counting UInt8 → Option (Counting UInt8) := Counting.handler sigusr1

/-- Where the parent is in `main`. -/
inductive ParentPc
  | forking
  | sleeping (i : Nat)
  | killing (i : Nat)
  | waiting
  | printing
  | ended (status : Int)
  deriving DecidableEq

structure State where
  child : Option (Counting UInt8)
  parent : ParentPc
  /-- what the parent has printed -/
  out : List UInt8

inductive Action
  | fork (success : Bool)
  | parent
  /-- the child takes a signal -/
  | deliver
  /-- `signal(SIGUSR1, handle_sigusr1)`; after it the child only spins -/
  | main
  | handler
  deriving DecidableEq

def done : List UInt8 := text "Parent: Child exited. Program done.\n"

/-- A step of the parent after `fork`. -/
def parent (s : State) : Option State :=
  match s.parent with
  | .sleeping i => some { s with parent := .killing i }
  | .killing i =>
    some { s with child := s.child.map Counting.raise,
                  parent := if i + 1 < 5 then .sleeping (i + 1) else .waiting }
  | .waiting =>
    if s.child.any (fun c => c.proc.ended.isSome) then some { s with parent := .printing } else none
  | .printing => some { s with out := s.out ++ done, parent := .ended 0 }
  | .forking | .ended _ => none

def step (s : State) : Action → Option State
  | .fork success =>
    if s.parent = .forking then
      some (if success then { s with child := some (.fresh UInt8), parent := .sleeping 0 }
        else { s with parent := .ended 1 })
    else none
  | .parent => parent s
  | .deliver => (s.child.bind Counting.deliver).map (fun c => { s with child := some c })
  | .main => (s.child.bind Counting.main).map (fun c => { s with child := some c })
  | .handler => (s.child.bind handleSigusr1).map (fun c => { s with child := some c })

def initial : State := { child := none, parent := .forking, out := [] }

/-! ### The invariant -/

/-- The signals that the parent has sent. -/
def ParentPc.kills : ParentPc → Nat
  | forking => 0
  | sleeping i | killing i => i
  | waiting | printing | ended _ => 5

/-- What goes with the place of the parent. -/
def AtParent (c : Counting UInt8) (out : List UInt8) : ParentPc → Prop
  | .forking => False
  | .sleeping i | .killing i => i < 5 ∧ out = []
  | .waiting => out = []
  | .printing => c.proc.ended ≠ none ∧ out = []
  | .ended status => c.proc.ended ≠ none ∧ status = 0 ∧ out = done

/-- A parent that has a child. -/
structure Family (c : Counting UInt8) (s : State) : Prop where
  counted : c.Counted sigusr1
  sent_le : c.proc.sent ≤ s.parent.kills
  sent : c.proc.ended = none → c.proc.sent = s.parent.kills
  place : AtParent c s.out s.parent

def Inv (s : State) : Prop :=
  match s.child with
  | none => (s.parent = .forking ∨ s.parent = .ended 1) ∧ s.out = []
  | some c => Family c s

variable {s t : State} {c c' : Counting UInt8}

/-- A child that ends stays where it is. -/
theorem AtParent.mono {out : List UInt8} {pc : ParentPc} (h : AtParent c out pc)
    (hc : c.proc.ended ≠ none → c'.proc.ended ≠ none) : AtParent c' out pc := by
  cases pc with
  | printing => exact ⟨hc h.1, h.2⟩
  | ended status => exact ⟨hc h.1, h.2⟩
  | forking | sleeping | killing | waiting => exact h

/-- A step of the child that sends nothing. -/
theorem Family.child (h : Family c s) (hc : c'.Counted sigusr1) (hsent : c'.proc.sent = c.proc.sent)
    (hlive : c.proc.ended = none) : Family c' { s with child := some c' } := by
  refine ⟨hc, ?_, fun _ => ?_, h.place.mono (fun e => absurd hlive e)⟩
  · rw [hsent]
    exact h.sent_le
  · rw [hsent]
    exact h.sent hlive

/-- What a step does: the parent forks, the parent goes on, or the child takes a step of its own. -/
theorem step_cases {a : Action} (hn : step s a = some t) :
    (∃ success : Bool, s.parent = .forking ∧ t = if success then
        { s with child := some (.fresh UInt8), parent := .sleeping 0 } else
        { s with parent := .ended 1 }) ∨
    parent s = some t ∨
    ∃ c c', s.child = some c ∧ Counting.Own sigusr1 c c' ∧ t = { s with child := some c' } := by
  have hchild : ∀ f, (∀ c c', f c = some c' → Counting.Own sigusr1 c c') →
      (s.child.bind f).map (fun c => { s with child := some c }) = some t →
      ∃ c c', s.child = some c ∧ Counting.Own sigusr1 c c' ∧ t = { s with child := some c' } := by
    intro f hf hn
    obtain ⟨c', hc', rfl⟩ := Option.map_eq_some_iff.1 hn
    obtain ⟨c, hc, hfc⟩ := Option.bind_eq_some_iff.1 hc'
    exact ⟨c, c', hc, hf c c' hfc, rfl⟩
  cases a with
  | fork success =>
    obtain ⟨hforking, ht⟩ := Option.ite_none_right_eq_some.1 hn
    exact Or.inl ⟨success, hforking, (Option.some_inj.1 ht).symm⟩
  | parent => exact Or.inr (Or.inl hn)
  | deliver => exact Or.inr (Or.inr (hchild _ (fun _ _ h => .deliver h) hn))
  | main => exact Or.inr (Or.inr (hchild _ (fun _ _ h => .main h) hn))
  | handler => exact Or.inr (Or.inr (hchild _ (fun _ _ h => .handler h) hn))

theorem Inv.initial : Inv initial := ⟨Or.inl rfl, rfl⟩

/-- A step of the parent. -/
theorem Inv.parent (h : Inv s) (hn : parent s = some t) : Inv t := by
  obtain ⟨child, pc, out⟩ := s
  cases child with
  | none =>
    obtain ⟨rfl | rfl, -⟩ := h
    · cases hn
    · cases hn
  | some c =>
    obtain ⟨hcounted, hle, hsent, hplace⟩ := h
    cases pc with
    | forking => cases hn
    | sleeping i =>
      cases hn
      exact ⟨hcounted, hle, hsent, hplace⟩
    | killing i =>
      cases hn
      obtain ⟨hi, hout⟩ := hplace
      -- the number of signals is the place of the parent after it
      have hkills : (if i + 1 < 5 then ParentPc.sleeping (i + 1) else .waiting).kills = i + 1 := by
        split
        · rfl
        · show 5 = i + 1
          omega
      refine ⟨hcounted.raise, ?_, fun hlive => ?_, ?_⟩
      · show c.proc.raise.sent ≤ ParentPc.kills _
        rw [hkills]
        by_cases hlive : c.proc.ended = none
        · rw [Process.raise_sent hlive]
          exact Nat.succ_le_succ hle
        · rw [Process.raise_of_ended hlive]
          exact Nat.le_succ_of_le hle
      · rw [show c.raise.proc.ended = c.proc.ended from Process.raise_ended c.proc] at hlive
        show c.proc.raise.sent = ParentPc.kills _
        rw [hkills, Process.raise_sent hlive]
        exact congrArg Nat.succ (hsent hlive)
      · show AtParent c.raise out (ite _ _ _)
        split
        · exact ⟨‹_›, hout⟩
        · exact hout
    | waiting =>
      obtain ⟨hended, ht⟩ := Option.ite_none_right_eq_some.1 hn
      cases ht
      exact ⟨hcounted, hle, hsent, Option.isSome_iff_ne_none.1 hended, hplace⟩
    | printing =>
      cases hn
      obtain ⟨hended, hout⟩ := hplace
      refine ⟨hcounted, hle, hsent, hended, rfl, ?_⟩
      show out ++ done = done
      rw [show out = [] from hout, List.nil_append]
    | ended status => cases hn

theorem Inv.step (h : Inv s) {a : Action} (hn : step s a = some t) : Inv t := by
  obtain ⟨success, hforking, rfl⟩ | hparent | ⟨c, c', hc, hown, rfl⟩ := step_cases hn
  · obtain ⟨child, pc, out⟩ := s
    cases hforking
    cases child with
    | none =>
      obtain ⟨-, hout⟩ := h
      cases success with
      | false => exact ⟨Or.inr rfl, hout⟩
      | true => exact ⟨.fresh sigusr1, Nat.zero_le _, fun _ => rfl, by decide, hout⟩
    | some c => exact absurd h.place id
  · exact h.parent hparent
  · rw [Inv, hc] at h
    exact Family.child h (h.counted.own hown) hown.sent (h.counted.ended_own hown)

theorem inv_run (hr : Reachable EmbeddedLinux.ParentChild.step Any initial s) : Inv s :=
  hr.invariant .initial (fun _ _ _ h _ hn => h.step hn)

/-! ### The end of a run -/

/-- The steps that the parent has left, with those that its signals give to the child. -/
def ParentPc.left : ParentPc → Nat
  | forking => 40
  | sleeping i => 7 * (5 - i) + 3
  | killing i => 7 * (5 - i) + 2
  | waiting => 2
  | printing => 1
  | ended _ => 0

def State.left (s : State) : Nat := s.parent.left + s.child.elim 0 Counting.left

/-- The parent has ended, or waits for a child that spins for ever. -/
def Final (s : State) : Prop :=
  match s.child, s.parent with
  | none, pc => pc = .ended 1
  | some _, .ended _ => True
  | some c, .waiting => c.proc.ended = none ∧ c.proc.installed = true ∧ c.proc.Quiet
  | some _, _ => False

theorem parent_left (h : Inv s) (hn : parent s = some t) : t.left < s.left := by
  obtain ⟨child, pc, out⟩ := s
  cases child with
  | none =>
    obtain ⟨rfl | rfl, -⟩ := h
    · cases hn
    · cases hn
  | some c =>
    cases pc with
    | forking | ended status => cases hn
    | sleeping i =>
      cases hn
      exact Nat.add_lt_add_right (Nat.lt_succ_self _) _
    | killing i =>
      cases hn
      have hi : i < 5 := h.place.1
      have hraise : c.raise.left ≤ c.left + 5 := Counting.left_raise_le
      show ParentPc.left (ite _ _ _) + c.raise.left < 7 * (5 - i) + 2 + c.left
      split
      · show 7 * (5 - (i + 1)) + 3 + _ < _
        omega
      · show 2 + _ < _
        omega
    | waiting =>
      obtain ⟨-, ht⟩ := Option.ite_none_right_eq_some.1 hn
      cases ht
      exact Nat.add_lt_add_right (Nat.lt_succ_self 1) _
    | printing =>
      cases hn
      exact Nat.add_lt_add_right Nat.zero_lt_one _

/-- The parent goes on, but for a child that lives. -/
theorem exists_parent (h : Family c s) (hc : s.child = some c)
    (hnot : ∀ status, s.parent ≠ .ended status)
    (hwait : s.parent = .waiting → c.proc.ended ≠ none) : ∃ t, parent s = some t := by
  obtain ⟨child, pc, out⟩ := s
  cases hc
  cases pc with
  | forking => exact absurd h.place id
  | sleeping i | killing i | printing => exact ⟨_, rfl⟩
  | waiting => exact ⟨_, if_pos (Option.isSome_iff_ne_none.2 (hwait rfl))⟩
  | ended status => exact absurd rfl (hnot status)

/-- What the child can do is a step of the system. -/
theorem exists_child (hc : s.child = some c) (hown : Counting.Own sigusr1 c c') :
    ∃ a, step s a = some { s with child := some c' } := by
  cases hown with
  | deliver hown =>
    refine ⟨.deliver, ?_⟩
    rw [step, hc, Option.bind_some, hown]
    rfl
  | main hown =>
    refine ⟨.main, ?_⟩
    rw [step, hc, Option.bind_some, hown]
    rfl
  | handler hown =>
    refine ⟨.handler, ?_⟩
    rw [step, hc, Option.bind_some, handleSigusr1, hown]
    rfl

/-- **Every run comes to an end.** -/
theorem progress : Progress step Any Inv Final State.left := by
  refine ⟨fun s a t h _ hn => h.step hn, fun s a t h _ hn => ?_, fun s h hnot => ?_⟩
  · obtain ⟨success, hforking, rfl⟩ | hparent | ⟨c, c', hc, hown, rfl⟩ := step_cases hn
    · obtain ⟨child, pc, out⟩ := s
      cases hforking
      cases child with
      | none =>
        cases success with
        | false => exact Nat.succ_pos _
        | true => exact Nat.lt_succ_self _
      | some c => exact absurd h.place id
    · exact parent_left h hparent
    · rw [Inv, hc] at h
      rw [State.left, State.left, hc]
      exact Nat.add_lt_add_left (h.counted.left_own hown) _
  · obtain ⟨child, pc, out⟩ := s
    cases child with
    | none =>
      obtain ⟨rfl | rfl, -⟩ := h
      · exact ⟨.fork true, _, trivial, rfl⟩
      · exact absurd rfl hnot
    | some c =>
      by_cases hwait : pc = .waiting ∧ c.proc.ended = none
      · obtain ⟨rfl, hlive⟩ := hwait
        obtain ⟨c', hown⟩ := Counting.exists_own (k := sigusr1) hlive (fun h => hnot ⟨hlive, h⟩)
        obtain ⟨a, ha⟩ := exists_child (s := { child := some c, parent := .waiting, out := out })
          rfl hown
        exact ⟨a, _, trivial, ha⟩
      · obtain ⟨t, ht⟩ := exists_parent h rfl (fun status => by rintro rfl; exact hnot trivial)
          (fun hpc hlive => hwait ⟨hpc, hlive⟩)
        exact ⟨.parent, t, trivial, ht⟩

/-- **How it ends.**  A run has at most forty steps.  Where no step is possible any more, the fork
has failed; or the child has exited after five lines, or was killed before it had its handler, and
the parent has printed that it is gone; or the parent waits for ever for a child that has not seen
as many of the five signals as were merged. -/
theorem child_exits_or_waits (hr : Reachable step Any initial s) :
    (∀ as t, Run step Any s as t → as.length ≤ 40) ∧
    ((∀ a, step s a = none) →
      s.child = none ∧ s.parent = .ended 1 ∧ s.out = [] ∨
      ∃ c, s.child = some c ∧
        (c.proc.ended = some (.exited 0) ∧ c.proc.merged = 0 ∧
            c.out = sigusr1.lines 5 ++ sigusr1.farewell ∧ s.parent = .ended 0 ∧ s.out = done ∨
          c.proc.ended = some .killed ∧ c.proc.installed = false ∧ c.out = [] ∧
            s.parent = .ended 0 ∧ s.out = done ∨
          c.proc.ended = none ∧ 0 < c.proc.merged ∧ c.out = sigusr1.lines (5 - c.proc.merged) ∧
            s.parent = .waiting ∧ s.out = [])) := by
  have h := inv_run hr
  refine ⟨fun as t hrun => ?_, fun hstuck => ?_⟩
  · obtain ⟨bs, hr⟩ := hr
    have hle : (bs ++ as).length ≤ 40 := progress.length_le Inv.initial (hr.append hrun)
    rw [List.length_append] at hle
    omega
  · have hfinal := progress.final_of_stuck h (fun a _ => hstuck a)
    obtain ⟨child, pc, out⟩ := s
    cases child with
    | none => exact Or.inl ⟨rfl, hfinal, h.2⟩
    | some c =>
      refine Or.inr ⟨c, rfl, ?_⟩
      cases pc with
      | ended status =>
        obtain ⟨hended, rfl, hout⟩ := h.place
        cases he : c.proc.ended with
        | none => exact absurd he hended
        | some ending =>
          cases ending with
          | killed =>
            obtain ⟨hin, hempty⟩ := h.counted.out_of_killed he
            exact Or.inr (Or.inl ⟨rfl, hin, hempty, rfl, hout⟩)
          | exited status =>
            obtain ⟨rfl, -, htaken, -, hlines⟩ := h.counted.exited status he
            have hle : c.proc.sent ≤ 5 := h.sent_le
            have hsum := h.counted.balanced.sum
            rw [htaken] at hsum
            have hlimit : sigusr1.limit = 5 := rfl
            exact Or.inl ⟨rfl, by omega, hlines, rfl, hout⟩
      | waiting =>
        obtain ⟨hlive, -, hq⟩ := hfinal
        have hsent : c.proc.sent = 5 := h.sent hlive
        obtain ⟨-, hlines⟩ := h.counted.quiet hq hlive
        rw [hsent] at hlines
        obtain ⟨hlt, -⟩ := h.counted.shows hq (fun status => by rw [hlive]; simp)
        have hsum := h.counted.balanced.quiet hq (by rw [hlive]; simp)
        have hlimit : sigusr1.limit = 5 := rfl
        exact Or.inr (Or.inr ⟨hlive, by omega, hlines, rfl, h.place⟩)
      | forking | sleeping | killing | printing => exact absurd hfinal id

/-- A signal that the child takes before another one is sent. -/
def signal : List Action := [.parent, .parent, .deliver, .handler, .handler, .handler]

/-- Four of five signals have been seen. -/
def fourSeen : State :=
  { child := some
      { proc :=
          { installed := true, pending := false, handler := none, ended := none, sent := 5,
            merged := 1, taken := 4 }
        count := 4
        out := sigusr1.lines 4 }
    parent := .waiting
    out := [] }

/-- Two of the signals are sent at once, and the parent waits for ever. -/
theorem child_exits_or_waits_merged : exec step initial
      ([.fork true, .main, .parent, .parent] ++ signal ++ signal ++ signal ++ signal) =
        some fourSeen ∧
    (∀ a, step fourSeen a = none) ∧ ∀ as t, Run step Any fourSeen as t → as.length ≤ 40 := by
  have hexec : exec step initial
      ([.fork true, .main, .parent, .parent] ++ signal ++ signal ++ signal ++ signal) =
        some fourSeen := by rfl
  have hstuck : ∀ a, step fourSeen a = none := fun a => by cases a <;> rfl
  obtain ⟨hbound, hends⟩ := child_exits_or_waits ⟨_, exec_run hexec⟩
  obtain ⟨hnone, -⟩ | ⟨c, hc, -⟩ := hends hstuck
  · cases hnone
  · exact ⟨hexec, hstuck, hbound⟩

end EmbeddedLinux.ParentChild
