import EmbeddedLinux.ConditionVar.Handover
import EmbeddedLinux.Lib.Progress

/-!
# The end of the condition-variable program

In any run, also one in which the producer comes back too early, the consumer receives some of the
produced values, in order and each once.  But for wakeups without a signal, the run comes to an end
after a bounded number of steps.  Then the producer has ended, and either the consumer has received
all the values and has ended too, or it has missed some and waits for ever, whatever wakeups without
a signal are still to come (`ends_or_starves`).
-/

namespace EmbeddedLinux.ConditionVar

open Transition

/-- The step is not a wakeup without a signal. -/
def Calm (_ : State) (a : Action) : Prop := a ≠ .spurious

/-! ### What is received -/

/-- The cell holds one of the values that have not been received, and nobody waits while it is
full. -/
structure Taken (s : State) : Prop where
  sublist : (s.received ++ s.pending).Sublist s.produced
  waits : s.consumer = .waiting → s.dataReady = false

variable {s t : State}

theorem taken_effect {a : Action} (hs : Taken s) (he : Enabled s a) : Taken (effect s a) := by
  obtain ⟨hsub, hwaits⟩ := hs
  cases a with
  | produce v =>
    refine ⟨?_, fun e => ?_⟩
    · -- a value that was in the cell is skipped
      show (s.received ++ [v]).Sublist (s.produced ++ [v])
      exact ((List.sublist_append_left _ _).trans hsub).append (List.Sublist.refl [v])
    · change s.consumer.signal = .waiting at e
      cases hc : s.consumer <;> rw [hc] at e <;> cases e
  | wake => exact ⟨hsub, hwaits⟩
  | test =>
    rw [effect]
    split
    · rename_i hready
      rw [State.pending, if_pos hready] at hsub
      refine ⟨?_, fun _ => rfl⟩
      show ((s.received ++ [s.data]) ++ []).Sublist s.produced
      rw [List.append_nil]
      exact hsub
    · rename_i hready
      exact ⟨hsub, fun _ => by simpa using hready⟩
  | spurious => exact ⟨hsub, fun e => (by cases e)⟩

/-! ### The end of a run -/

/-- The counters, and what is received. -/
def Inv (s : State) : Prop := Counted s ∧ Taken s

theorem inv_initial : Inv initial := ⟨counted_initial, List.Sublist.refl [], fun e => by cases e⟩

theorem inv_step {a : Action} (hs : Inv s) (hn : step s a = some t) : Inv t := by
  obtain ⟨he, rfl⟩ := step_eq_some.1 hn
  exact ⟨counted_effect hs.1 he, taken_effect hs.2 he⟩

/-- The steps of the producer that are left, with those that its values give to the consumer. -/
def ProducerPc.left (made : Nat) : ProducerPc → Nat
  | producing => 4 * (rounds - made)
  | sleeping => 4 * (rounds - made) + 1
  | ended => 0

/-- The steps of the consumer that are left until it waits or has ended. -/
def ConsumerPc.left (dataReady : Bool) : ConsumerPc → Nat
  | locking | woken => dataReady.toNat + 1
  | waiting | ended => 0

def State.left (s : State) : Nat := s.producer.left s.made + s.consumer.left s.dataReady

theorem left_signal_le (c : ConsumerPc) (dataReady : Bool) :
    c.signal.left true ≤ c.left dataReady + 2 := by
  cases c with
  | locking | woken => exact Nat.succ_le_succ (Nat.le_add_left 1 _)
  | waiting => exact Nat.le_refl 2
  | ended => exact Nat.zero_le _

/-- Nothing but wakeups without a signal can happen. -/
def Final (s : State) : Prop :=
  s.producer = .ended ∧ (s.consumer = .ended ∨ s.consumer = .waiting)

theorem left_effect {a : Action} (hs : Counted s) (he : Enabled s a) (hcalm : Calm s a) :
    (effect s a).left < s.left := by
  cases a with
  | produce v =>
    have hp : s.producer = .producing := he
    have hlt := hs.making hp
    have hle := left_signal_le s.consumer s.dataReady
    rw [State.left, State.left, hp]
    show 4 * (rounds - (s.made + 1)) + 1 + s.consumer.signal.left true <
      4 * (rounds - s.made) + s.consumer.left s.dataReady
    omega
  | wake =>
    have hp : s.producer = .sleeping := he
    rw [State.left, State.left, hp]
    refine Nat.add_lt_add_right ?_ _
    show ProducerPc.left s.made (ite _ _ _) < 4 * (rounds - s.made) + 1
    split
    · exact Nat.lt_succ_self _
    · exact Nat.succ_pos _
  | test =>
    have hc : s.consumer.left s.dataReady = s.dataReady.toNat + 1 := by
      rcases he with e | e <;> rw [e] <;> rfl
    rw [State.left, State.left, hc, effect]
    split
    · rename_i hready
      rw [hready]
      refine Nat.add_lt_add_left ?_ _
      show ConsumerPc.left false (ite _ _ _) < 2
      split <;> decide
    · refine Nat.add_lt_add_left ?_ _
      exact Nat.succ_pos _
  | spurious => exact absurd rfl hcalm

/-- **The program makes progress.** -/
theorem progress : Progress step Calm Inv Final State.left := by
  refine ⟨fun s a t h _ hn => inv_step h hn, fun s a t h hok hn => ?_, fun s h hnot => ?_⟩
  · obtain ⟨he, rfl⟩ := step_eq_some.1 hn
    exact left_effect h.1 he hok
  · have hstep : ∀ a, Enabled s a → a ≠ .spurious → ∃ a t, Calm s a ∧ step s a = some t :=
      fun a he hne => ⟨a, _, hne, step_eq_some.2 ⟨he, rfl⟩⟩
    cases hp : s.producer with
    | producing => exact hstep (.produce 0) hp (fun e => by cases e)
    | sleeping => exact hstep .wake hp (fun e => by cases e)
    | ended =>
      cases hc : s.consumer with
      | locking => exact hstep .test (Or.inl hc) (fun e => by cases e)
      | woken => exact hstep .test (Or.inr hc) (fun e => by cases e)
      | waiting => exact absurd ⟨hp, Or.inr hc⟩ hnot
      | ended => exact absurd ⟨hp, Or.inl hc⟩ hnot

/-! ### Waiting for ever -/

/-- The producer has ended, the cell is empty, and the consumer has not ended. -/
structure Starving (s : State) (received : List Int) : Prop where
  producer : s.producer = .ended
  empty : s.dataReady = false
  consumer : s.consumer ≠ .ended
  received_eq : s.received = received

/-- No wakeup changes that. -/
theorem starving_step {received : List Int} {a : Action} (h : Starving s received)
    (hn : step s a = some t) : Starving t received := by
  obtain ⟨he, rfl⟩ := step_eq_some.1 hn
  obtain ⟨hp, hempty, hc, hreceived⟩ := h
  cases a with
  | produce v =>
    have hproducing : s.producer = .producing := he
    cases hproducing.symm.trans hp
  | wake =>
    have hsleeping : s.producer = .sleeping := he
    cases hsleeping.symm.trans hp
  | test =>
    rw [effect, if_neg (by simp [hempty])]
    exact ⟨hp, hempty, fun e => (by cases e), hreceived⟩
  | spurious => exact ⟨hp, hempty, fun e => (by cases e), hreceived⟩

/-! ### The main result -/

theorem left_le (s : State) : s.left ≤ 43 := by
  have hp : s.producer.left s.made ≤ 41 := by
    have hle : 4 * (rounds - s.made) ≤ 40 := Nat.mul_le_mul_left 4 (Nat.sub_le rounds _)
    cases s.producer with
    | producing => exact Nat.le_succ_of_le hle
    | sleeping => exact Nat.succ_le_succ hle
    | ended => exact Nat.zero_le _
  have hc : s.consumer.left s.dataReady ≤ 2 := by
    cases s.consumer with
    | locking | woken => exact Nat.succ_le_succ (Bool.toNat_le _)
    | waiting | ended => exact Nat.zero_le _
  exact Nat.add_le_add hp hc

/-- **How a run ends.**  In every state that is reached, what has been received are some of the
produced values, in order and each once, and no more than 43 steps other than wakeups without a
signal follow each other.  When no such step is possible, the producer has ended, and the
consumer has received every value and has ended, or it has missed some and will never receive
another one. -/
theorem ends_or_starves (hr : Reachable step Any initial s) :
    s.received.Sublist s.produced ∧
    (∀ as t, Run step Calm s as t → as.length ≤ 43) ∧
    ((∀ a, Calm s a → step s a = none) → s.producer = .ended ∧
      (s.consumer = .ended ∧ s.received = s.produced ∧ s.produced.length = rounds ∨
        s.consumer = .waiting ∧ s.received.length < s.produced.length ∧
          ∀ t, Reachable step Any s t → t.received = s.received ∧ t.consumer ≠ .ended)) := by
  have h : Inv s := hr.invariant inv_initial (fun _ _ _ h _ hn => inv_step h hn)
  obtain ⟨hcounted, htaken⟩ := h
  have hsub := (List.sublist_append_left _ _).trans htaken.sublist
  refine ⟨hsub, fun as t hrun => ?_, fun hstuck => ?_⟩
  · exact (progress.length_le ⟨hcounted, htaken⟩ hrun).trans (left_le s)
  · obtain ⟨hp, hc⟩ := progress.final_of_stuck ⟨hcounted, htaken⟩ hstuck
    have hmade := hcounted.made_eq.trans (hcounted.done hp)
    refine ⟨hp, ?_⟩
    obtain hc | hc := hc
    · have hgot := hcounted.got_eq.trans (hcounted.all hc)
      exact Or.inl ⟨hc, hsub.eq_of_length (hgot.trans hmade.symm), hmade⟩
    · have hgot := hcounted.got_eq
      have hlt := hcounted.taking (by rw [hc]; simp)
      have hempty := htaken.waits hc
      refine Or.inr ⟨hc, by omega, fun t ht => ?_⟩
      have hstarving : Starving t s.received :=
        ht.invariant ⟨hp, hempty, by rw [hc]; simp, rfl⟩ (fun _ _ _ h _ hn => starving_step h hn)
      exact ⟨hstarving.received_eq, hstarving.consumer⟩

/-- The producer ends before the consumer has the mutex: one of the ten values is received. -/
theorem ends_or_starves_last : ∃ s,
    Run step Any initial
      ((List.replicate 10 [.produce 69, .wake]).flatten ++ [.test, .test]) s ∧
    s.produced.length = 10 ∧ s.received = [69] ∧ s.received.Sublist s.produced ∧
    ∀ t, Reachable step Any s t → t.received = [69] := by
  let s : State :=
    { data := 69, dataReady := false, producer := .ended, made := 10, consumer := .waiting
      got := 1, produced := List.replicate 10 69, received := [69] }
  have hr : Run step Any initial
      ((List.replicate 10 [.produce 69, .wake]).flatten ++ [.test, .test]) s := exec_run rfl
  obtain ⟨hsub, -, hends⟩ := ends_or_starves ⟨_, hr⟩
  refine ⟨s, hr, rfl, rfl, hsub, fun t ht => ?_⟩
  have hstuck : ∀ a, Calm s a → step s a = none := by
    intro a hcalm
    cases a with
    | produce v | wake | test => rfl
    | spurious => exact absurd rfl hcalm
  obtain ⟨-, ⟨hended, -⟩ | ⟨-, -, hever⟩⟩ := hends hstuck
  · cases hended
  · exact (hever t ht).1

end EmbeddedLinux.ConditionVar
