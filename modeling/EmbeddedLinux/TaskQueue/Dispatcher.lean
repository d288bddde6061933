import EmbeddedLinux.Lib.Numeral
import EmbeddedLinux.TaskQueue.Worker

/-!
# The priority argument of the dispatcher

`task_dispatcher` turns its first argument into a number with `atoi`, which is `strtol` cut to
an `int`, and this into an `unsigned int`, and compares it with 31.  A negative number
becomes a large one and is refused.  But `atoi` gives a number for every string: 0 where it finds
none, what it finds where other text follows, and the low bits of a number that is too large.

So the test refuses what it should for the numerals whose low bits are above 31, and lets
everything else pass (`priority_as_typed_iff`).
-/

namespace EmbeddedLinux.TaskQueue

open CString Stdio

/-- An `int` as an `unsigned int`. -/
def toUnsigned (n : Int) : Nat := (n % 4294967296).toNat

/-- What is done with the queue. -/
inductive Call
  | mqOpen
  | mqSend (task : List UInt8) (prio : Nat)
  | mqClose
  deriving DecidableEq

/-- The calls that fail, each with what `perror` prints for it. -/
structure Failures where
  mqOpen : Option (List UInt8)
  mqSend : Option (List UInt8)

structure Outcome where
  calls : List Call
  out : List UInt8
  err : List UInt8
  status : Nat
  deriving DecidableEq

/-- `main` of `task_dispatcher`: `args` are the arguments after `argv[0]`. -/
def dispatcherMain (argv0 : List UInt8) (args : List (List UInt8)) (f : Failures) : Outcome :=
  match args with
  | [priority, task] =>
    let prio := toUnsigned (atoi priority)
    if 31 < prio then
      { calls := []
        out := []
        err := text "Priority must be <= 31 (POSIX MQ limit).\n"
        status := 1 }
    else
      match f.mqOpen, f.mqSend with
      | some e, _ =>
        { calls := [.mqOpen]
          out := []
          err := text "mq_open: " ++ e ++ text "\n"
          status := 1 }
      | none, some e =>
        { calls := [.mqOpen, .mqSend (cstr task) prio]
          out := []
          err := text "mq_send: " ++ e ++ text "\n"
          status := 1 }
      | none, none =>
        { calls := [.mqOpen, .mqSend (cstr task) prio, .mqClose]
          out := text "Task sent with priority " ++ decimal prio ++ text ": " ++ cstr task ++
            text "\n"
          err := []
          status := 0 }
  | _ =>
    { calls := []
      out := []
      err := text "Usage: " ++ cstr argv0 ++ text " <priority> \"<task_description>\"\n"
      status := 1 }

variable {s argv0 task : List UInt8} {v p : Int} {f : Failures}

/-! ### What is done with the queue -/

theorem calls_of_refused (h : 31 < toUnsigned (atoi s)) :
    (dispatcherMain argv0 [s, task] f).calls = [] := by
  unfold dispatcherMain
  simp only
  rw [if_pos h]

theorem calls_of_passed (h : ¬ 31 < toUnsigned (atoi s)) :
    (dispatcherMain argv0 [s, task] f).calls = .mqOpen :: if f.mqOpen.isSome then [] else
      .mqSend (cstr task) (toUnsigned (atoi s)) :: if f.mqSend.isSome then [] else [.mqClose] := by
  unfold dispatcherMain
  simp only
  rw [if_neg h]
  cases f.mqOpen with
  | some e => rfl
  | none => cases f.mqSend <;> rfl

/-- **When `mq_send` is reached, and with what.** -/
theorem mqSend_mem_iff {t : List UInt8} {q : Nat} :
    Call.mqSend t q ∈ (dispatcherMain argv0 [s, task] f).calls ↔
      toUnsigned (atoi s) ≤ 31 ∧ f.mqOpen = none ∧ t = cstr task ∧ q = toUnsigned (atoi s) := by
  by_cases hprio : 31 < toUnsigned (atoi s)
  · rw [calls_of_refused hprio]
    constructor
    · intro h
      cases h
    · rintro ⟨hle, -⟩
      omega
  · rw [calls_of_passed hprio, and_iff_right (Nat.le_of_not_lt hprio)]
    cases f.mqOpen <;> cases f.mqSend <;> simp

/-! ### What the argument is read as -/

theorem prio_of_numeralAt {rest : List UInt8} (h : NumeralAt (cstr s) v rest) :
    toUnsigned (atoi s) = (clampLong v % 4294967296).toNat := by
  rw [toUnsigned, atoi, strtol_of_numeralAt h]
  show ((clampLong v).bmod 4294967296 % ((4294967296 : Nat) : Int)).toNat = _
  rw [Int.bmod_emod]
  rfl

theorem prio_of_not (h : ∀ v rest, ¬ NumeralAt (cstr s) v rest) : toUnsigned (atoi s) = 0 := by
  rw [toUnsigned, atoi, strtol_of_not h]
  rfl

/-- The low bits of the value, cut to a `long`, are above 31. -/
def TooLarge (v : Int) : Prop :=
  9223372036854775807 < v ∨ -9223372036854775808 ≤ v ∧ 31 < v % 4294967296

/-- **What the test refuses.** -/
theorem refused_iff : 31 < toUnsigned (atoi s) ↔
    ∃ v rest, NumeralAt (cstr s) v rest ∧ TooLarge v := by
  have hlow : ∀ v, 31 < (clampLong v % 4294967296).toNat ↔ TooLarge v := by
    intro v
    unfold clampLong TooLarge
    omega
  constructor
  · intro h
    by_contra hnone
    by_cases hat : ∃ v rest, NumeralAt (cstr s) v rest
    · obtain ⟨v, rest, hat⟩ := hat
      rw [prio_of_numeralAt hat, hlow] at h
      exact hnone ⟨v, rest, hat, h⟩
    · rw [prio_of_not (fun v rest hv => hat ⟨v, rest, hv⟩)] at h
      cases h
  · rintro ⟨v, rest, hat, hv⟩
    rw [prio_of_numeralAt hat, hlow]
    exact hv

/-- A decimal integer that is a priority. -/
def IsPriority (s : List UInt8) (p : Int) : Prop := Numeral s p ∧ 0 ≤ p ∧ p ≤ 31

/-! ### The main result -/

/-- The priority is what the argument says: it is sent if the argument is one, and otherwise
the queue is not even opened. -/
structure AsTyped (s : List UInt8) : Prop where
  sends : ∀ p, IsPriority (cstr s) p → ∀ argv0 task f t q,
    Call.mqSend t q ∈ (dispatcherMain argv0 [s, task] f).calls → (q : Int) = p
  reaches : ∀ p, IsPriority (cstr s) p → ∀ argv0 task f, f.mqOpen = none →
    Call.mqSend (cstr task) p.toNat ∈ (dispatcherMain argv0 [s, task] f).calls
  refuses : (∀ p, ¬ IsPriority (cstr s) p) → ∀ argv0 task f,
    (dispatcherMain argv0 [s, task] f).calls = []

theorem prio_of_isPriority (h : IsPriority (cstr s) p) : (toUnsigned (atoi s) : Int) = p := by
  obtain ⟨hnum, h1, h2⟩ := h
  rw [prio_of_numeralAt hnum.numeralAt]
  unfold clampLong
  omega

/-- A string that passes although it is no priority. -/
theorem not_asTyped (hnot : ∀ p, ¬ IsPriority (cstr s) p) (h : ¬ 31 < toUnsigned (atoi s)) :
    ¬ AsTyped s := by
  intro hs
  have hcalls := hs.refuses hnot [] [] { mqOpen := none, mqSend := none }
  rw [calls_of_passed h] at hcalls
  cases hcalls

/-- **Which arguments are taken as they are typed**: the priorities, and the strings that
begin with a numeral that is too large for the test. -/
theorem priority_as_typed_iff (s : List UInt8) : AsTyped s ↔
    (∃ p, IsPriority (cstr s) p) ∨ ∃ v rest, NumeralAt (cstr s) v rest ∧ TooLarge v := by
  constructor
  · intro hs
    by_cases hp : ∃ p, IsPriority (cstr s) p
    · exact Or.inl hp
    · refine Or.inr (refused_iff.1 ?_)
      by_contra h
      exact not_asTyped (fun p h' => hp ⟨p, h'⟩) h hs
  · intro hcond
    have hrefuses : (∀ p, ¬ IsPriority (cstr s) p) → 31 < toUnsigned (atoi s) :=
      fun hnot => refused_iff.2 (hcond.resolve_left (fun ⟨p, hp⟩ => hnot p hp))
    refine ⟨fun p hp argv0 task f t q hmem => ?_, fun p hp argv0 task f hopen => ?_,
      fun hnot argv0 task f => calls_of_refused (hrefuses hnot)⟩
    · rw [(mqSend_mem_iff.1 hmem).2.2.2, prio_of_isPriority hp]
    · have hprio := prio_of_isPriority hp
      obtain ⟨-, h1, h2⟩ := hp
      exact mqSend_mem_iff.2 ⟨by omega, hopen, rfl, by omega⟩

/-- No number, and a number whose low bits are 0. -/
theorem taken_for_zero : ¬ AsTyped (text "urgent") ∧ ¬ AsTyped (text "4294967296") := by
  constructor
  · refine not_asTyped ?_ (by decide +kernel)
    rintro p ⟨hnum, -⟩
    have hat := numeralAt_iff.1 hnum.numeralAt
    cases hat
  · refine not_asTyped ?_ (by decide +kernel)
    rintro p ⟨hnum, -, hp⟩
    have hat := numeralAt_iff.1 hnum.numeralAt
    have hread : readNumeral (cstr (text "4294967296")) = some (4294967296, []) := by
      decide +kernel
    rw [hread] at hat
    cases hat
    exact absurd hp (by decide)

end EmbeddedLinux.TaskQueue
