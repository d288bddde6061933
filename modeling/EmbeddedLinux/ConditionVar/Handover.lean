import EmbeddedLinux.Lib.Transition

/-!
# The condition-variable program

`producer` puts ten values into `data`, one after the other, and `consumer` takes ten.
A locked section is one step.  A thread inside `pthread_cond_wait` has released the mutex;
it is woken by a signal that is given while it waits, or for no reason, and then it takes
the mutex again and tests the flag again.  `sleep` may last as long as it likes, so it
is only a place between two steps.

The producer does not look at `data_ready`.  So a value is lost as soon as the producer
comes back before the consumer has taken the last one (`overwrites_lose`), and only
then: `every_value_received`.
-/

namespace EmbeddedLinux.ConditionVar

open Transition

/-- The bound of both loops. -/
abbrev rounds : Nat := 10

/-- Where `producer` is. -/
inductive ProducerPc
  /-- at `pthread_mutex_lock`, with a new value -/
  | producing
  | sleeping
  | ended
  deriving DecidableEq

/-- Where `consumer` is. -/
inductive ConsumerPc
  /-- at `pthread_mutex_lock` -/
  | locking
  /-- inside `pthread_cond_wait`, not woken -/
  | waiting
  /-- inside `pthread_cond_wait`, woken, without the mutex -/
  | woken
  | ended
  deriving DecidableEq

/-- `data` and `data_ready`, the two threads with their loop counters, and, read by no
step, the values that were produced and received. -/
structure State where
  data : Int
  dataReady : Bool
  producer : ProducerPc
  made : Nat
  consumer : ConsumerPc
  got : Nat
  produced : List Int
  received : List Int

def initial : State :=
  { data := 0, dataReady := false, producer := .producing, made := 0, consumer := .locking
    got := 0, produced := [], received := [] }

inductive Action
  /-- the locked section of `producer`; `newData` is what `rand() % 100` has given -/
  | produce (newData : Int)
  /-- `sleep` returns -/
  | wake
  /-- `consumer` has the mutex and tests the flag -/
  | test
  /-- a wakeup without a signal -/
  | spurious

/-- `pthread_cond_signal`: a thread that waits is woken, and otherwise nothing is kept. -/
def ConsumerPc.signal : ConsumerPc → ConsumerPc
  | .waiting => .woken
  | pc => pc

def Enabled (s : State) : Action → Prop
  | .produce _ => s.producer = .producing
  | .wake => s.producer = .sleeping
  | .test => s.consumer = .locking ∨ s.consumer = .woken
  | .spurious => s.consumer = .waiting

instance (s : State) : (a : Action) → Decidable (Enabled s a)
  | .produce _ | .wake | .spurious => inferInstanceAs (Decidable (_ = _))
  | .test => inferInstanceAs (Decidable (_ ∨ _))

def effect (s : State) : Action → State
  | .produce newData =>
    { s with
      data := newData
      dataReady := true
      producer := .sleeping
      made := s.made + 1
      consumer := s.consumer.signal
      produced := s.produced ++ [newData] }
  | .wake => { s with producer := if s.made < rounds then .producing else .ended }
  | .test =>
    if s.dataReady then
      { s with
        dataReady := false
        got := s.got + 1
        consumer := if s.got + 1 < rounds then .locking else .ended
        received := s.received ++ [s.data] }
    else { s with consumer := .waiting }
  | .spurious => { s with consumer := .woken }

def step (s : State) (a : Action) : Option State :=
  if Enabled s a then some (effect s a) else none

theorem step_eq_some {s t : State} {a : Action} :
    step s a = some t ↔ Enabled s a ∧ effect s a = t := by
  rw [step, Option.ite_none_right_eq_some, Option.some_inj]

/-! ### What holds on every run -/

/-- The counters and the places of the two threads. -/
structure Counted (s : State) : Prop where
  made_eq : s.produced.length = s.made
  got_eq : s.received.length = s.got
  making : s.producer = .producing → s.made < rounds
  done : s.producer = .ended → s.made = rounds
  made_le : s.made ≤ rounds
  taking : s.consumer ≠ .ended → s.got < rounds
  all : s.consumer = .ended → s.got = rounds

theorem counted_initial : Counted initial := by
  refine ⟨rfl, rfl, ?_, ?_, ?_, ?_, ?_⟩ <;> decide

theorem counted_effect {s : State} {a : Action} (hs : Counted s) (he : Enabled s a) :
    Counted (effect s a) := by
  obtain ⟨h1, h2, h3, h4, h5, h6, h7⟩ := hs
  cases a with
  | produce v =>
    have hlt := h3 he
    refine ⟨?_, h2, ?_, ?_, hlt, ?_, ?_⟩
    · show (s.produced ++ [v]).length = s.made + 1
      rw [List.length_append, h1, List.length_singleton]
    · intro e
      cases e
    · intro e
      cases e
    · intro e
      apply h6
      intro e'
      apply e
      show s.consumer.signal = _
      rw [e']
      rfl
    · intro e
      apply h7
      change s.consumer.signal = _ at e
      cases hc : s.consumer <;> rw [hc] at e <;> cases e
  | wake =>
    refine ⟨h1, h2, fun e => ?_, fun e => ?_, h5, h6, h7⟩
    · change (if s.made < rounds then _ else _) = ProducerPc.producing at e
      split at e
      · assumption
      · cases e
    · change (if s.made < rounds then _ else _) = ProducerPc.ended at e
      split at e
      · cases e
      · show s.made = rounds
        omega
  | test =>
    have hlt : s.got < rounds := by
      apply h6
      rcases he with e | e <;> rw [e] <;> decide
    rw [effect]
    split
    · refine ⟨h1, ?_, h3, h4, h5, fun e => ?_, fun e => ?_⟩
      · show (s.received ++ [s.data]).length = s.got + 1
        rw [List.length_append, h2, List.length_singleton]
      · show s.got + 1 < rounds
        by_contra hn
        exact e (if_neg hn)
      · show s.got + 1 = rounds
        by_contra hn
        have : (if s.got + 1 < rounds then ConsumerPc.locking else .ended) = .ended := e
        rw [if_pos (by omega)] at this
        cases this
    · refine ⟨h1, h2, h3, h4, h5, fun _ => hlt, fun e => ?_⟩
      cases e
  | spurious =>
    refine ⟨h1, h2, h3, h4, h5, fun _ => h6 ?_, fun e => ?_⟩
    · rw [show s.consumer = _ from he]
      decide
    · cases e

theorem counted_run {s : State} (hr : Reachable step Any initial s) : Counted s := by
  refine hr.invariant counted_initial (fun t a u ht _ hn => ?_)
  obtain ⟨he, rfl⟩ := step_eq_some.mp hn
  exact counted_effect ht he

/-! ### The producer in turn -/

/-- The producer stores a value only when the last one has been taken. -/
def InTurn (s : State) : Action → Prop
  | .produce _ => s.dataReady = false
  | _ => True

instance (s : State) : (a : Action) → Decidable (InTurn s a)
  | .produce _ => inferInstanceAs (Decidable (_ = _))
  | .wake | .test | .spurious => inferInstanceAs (Decidable True)

/-- What is in the cell. -/
def State.pending (s : State) : List Int := if s.dataReady then [s.data] else []

/-- The cell holds the one value that is missing, and nobody waits while it is full. -/
structure Handed (s : State) : Prop where
  produced_eq : s.produced = s.received ++ s.pending
  waits : s.consumer = .waiting → s.dataReady = false

theorem handed_effect {s : State} {a : Action} (hs : Handed s) (he : Enabled s a)
    (ho : InTurn s a) : Handed (effect s a) := by
  obtain ⟨h1, h2⟩ := hs
  cases a with
  | produce v =>
    have hempty : s.pending = [] := by
      rw [State.pending, show s.dataReady = false from ho]
      rfl
    refine ⟨?_, fun e => ?_⟩
    · show s.produced ++ [v] = s.received ++ [v]
      rw [h1, hempty, List.append_nil]
    · change s.consumer.signal = .waiting at e
      cases hc : s.consumer <;> rw [hc] at e <;> cases e
  | wake => exact ⟨h1, h2⟩
  | test =>
    rw [effect]
    split
    · rename_i hready
      refine ⟨?_, fun _ => rfl⟩
      show s.produced = (s.received ++ [s.data]) ++ []
      rw [h1, State.pending, if_pos hready, List.append_nil]
    · rename_i hready
      refine ⟨h1, fun _ => ?_⟩
      simpa using hready
  | spurious =>
    refine ⟨h1, fun e => ?_⟩
    cases e

theorem handed_run {s : State} (hr : Reachable step InTurn initial s) : Handed s := by
  refine hr.invariant ⟨rfl, fun _ => rfl⟩ (fun t a u ht ho hn => ?_)
  obtain ⟨he, rfl⟩ := step_eq_some.mp hn
  exact handed_effect ht he ho

/-- The consumer waits for a value that will not come. -/
def Starved (s : State) : Prop :=
  s.producer = .ended ∧ s.consumer = .waiting ∧ s.received.length < s.produced.length

/-! ### The producer out of turn -/

/-- At least `k` values have been overwritten. -/
def Missing (k : Nat) (s : State) : Prop :=
  s.received.length + s.pending.length + k ≤ s.produced.length

/-- What is missing stays missing. -/
theorem missing_effect {k : Nat} {s : State} {a : Action} (hs : Missing k s) :
    Missing k (effect s a) := by
  unfold Missing at *
  cases a with
  | produce v =>
    show s.received.length + 1 + k ≤ (s.produced ++ [v]).length
    rw [List.length_append, List.length_singleton]
    omega
  | wake => exact hs
  | test =>
    rw [effect]
    split
    · rename_i hready
      rw [State.pending, if_pos hready] at hs
      show (s.received ++ [s.data]).length + 0 + k ≤ s.produced.length
      rw [List.length_append]
      exact hs
    · exact hs
  | spurious => exact hs

/-- A value that is stored over another one makes that one missing. -/
theorem missing_overwrite {s : State} (hs : Missing 0 s) (hready : s.dataReady = true) (v : Int) :
    Missing 1 (effect s (.produce v)) := by
  unfold Missing at *
  rw [State.pending, if_pos hready, List.length_singleton] at hs
  show s.received.length + 1 + 1 ≤ (s.produced ++ [v]).length
  rw [List.length_append, List.length_singleton]
  omega

theorem missing_run {s : State} (hr : Reachable step Any initial s) : Missing 0 s := by
  refine hr.invariant (P := Missing 0) le_rfl (fun t a u ht _ hn => ?_)
  obtain ⟨-, rfl⟩ := step_eq_some.mp hn
  exact missing_effect ht

/-- The producer runs to its end. -/
theorem producer_ends {s : State} (hs : Counted s) (hl : Missing 1 s) :
    ∃ as t, Run step Any s as t ∧ t.producer = .ended ∧ Counted t ∧ Missing 1 t := by
  have hwake : ∀ s : State, s.producer = .sleeping → Run step Any s [.wake] (effect s .wake) :=
    fun s h => .single trivial (step_eq_some.mpr ⟨h, rfl⟩)
  induction hn : rounds - s.made generalizing s with
  | zero =>
    have hmade : s.made = rounds := by
      have := hs.made_le
      omega
    cases hp : s.producer with
    | producing => exact absurd (hs.making hp) (by omega)
    | sleeping =>
      refine ⟨_, _, hwake s hp, ?_, counted_effect hs hp, missing_effect hl⟩
      exact if_neg (by omega)
    | ended => exact ⟨[], s, .nil s, hp, hs, hl⟩
  | succ n ih =>
    -- one more round, from its locked section on
    have hround : ∀ s : State, Counted s → Missing 1 s → s.producer = .producing →
        rounds - s.made = n + 1 →
        ∃ as t, Run step Any s as t ∧ t.producer = .ended ∧ Counted t ∧ Missing 1 t := by
      intro s hs hl hp hn
      have he : Enabled s (.produce 0) := hp
      obtain ⟨as, t, hr, ht⟩ := ih (counted_effect hs he) (missing_effect hl)
        (by show rounds - (s.made + 1) = n; omega)
      exact ⟨_, t, hr.cons (a := Action.produce 0) trivial (step_eq_some.mpr ⟨he, rfl⟩), ht⟩
    cases hp : s.producer with
    | producing => exact hround s hs hl hp hn
    | sleeping =>
      obtain ⟨as, t, hr, ht⟩ := hround (effect s .wake) (counted_effect hs hp)
        (missing_effect hl) (if_pos (by omega)) hn
      exact ⟨_, t, (hwake s hp).append hr, ht⟩
    | ended => exact absurd (hs.done hp) (by omega)

/-- The consumer takes what is in the cell, and waits. -/
theorem consumer_starves {s : State} (hs : Counted s) (hl : Missing 1 s)
    (hp : s.producer = .ended) : ∃ as t, Run step Any s as t ∧ Starved t := by
  have hwaits : ∀ s : State, Counted s → Missing 1 s → s.producer = .ended →
      (s.consumer = .locking ∨ s.consumer = .woken) → s.dataReady = false →
      ∃ as t, Run step Any s as t ∧ Starved t := by
    intro s _ hl hp hc hready
    refine ⟨[.test], _, .single trivial (step_eq_some.mpr ⟨hc, rfl⟩), ?_⟩
    rw [effect, hready]
    refine ⟨hp, rfl, ?_⟩
    exact Nat.lt_of_le_of_lt (Nat.le_add_right _ _) hl
  have hgot : s.got + s.pending.length < rounds := by
    have h1 := hs.made_eq
    have h2 := hs.got_eq
    have h3 := hs.made_le
    unfold Missing at hl
    omega
  have htakes : (s.consumer = .locking ∨ s.consumer = .woken) →
      ∃ as t, Run step Any s as t ∧ Starved t := by
    intro hc
    cases hready : s.dataReady with
    | false => exact hwaits s hs hl hp hc hready
    | true =>
      have he : Enabled s .test := hc
      have ht : effect s .test = _ := if_pos hready
      have hlock : (effect s .test).consumer = .locking := by
        rw [ht]
        rw [State.pending, if_pos hready] at hgot
        exact if_pos hgot
      obtain ⟨as, t, hr, hst⟩ := hwaits (effect s .test) (counted_effect hs he)
        (missing_effect hl) (by rw [ht]; exact hp) (Or.inl hlock) (by rw [ht])
      exact ⟨_, t, hr.cons (a := Action.test) trivial (step_eq_some.mpr ⟨he, rfl⟩), hst⟩
  cases hc : s.consumer with
  | locking => exact htakes (Or.inl hc)
  | woken => exact htakes (Or.inr hc)
  | waiting =>
    exact ⟨[], s, .nil s, hp, hc, Nat.lt_of_le_of_lt (Nat.le_add_right _ _) hl⟩
  | ended =>
    have := hs.all hc
    omega

/-! ### The results -/

/-- **Out of turn, a value is lost**: from every state in which the producer is about to
store a value over one that has not been taken, the program can come to an end in which
the consumer waits forever. -/
theorem overwrites_lose {s : State} (hr : Reachable step Any initial s)
    (hp : s.producer = .producing) (hready : s.dataReady = true) :
    ∃ as t, Run step Any s as t ∧ Starved t := by
  have hs := counted_run hr
  have he : Enabled s (.produce 0) := hp
  have hl := missing_overwrite (missing_run hr) hready 0
  obtain ⟨as, t, hrt, hend, ht, hlt⟩ := producer_ends (counted_effect hs he) hl
  obtain ⟨bs, u, hru, hu⟩ := consumer_starves ht hlt hend
  exact ⟨_, u, (hrt.cons (a := Action.produce 0) trivial
    (step_eq_some.mpr ⟨he, rfl⟩)).append hru, hu⟩

/-- **Every value is received once, in order**, on a run in which the producer stores a
value only when the last one has been taken: at every moment the received values are
the first of the produced ones, and the consumer does not wait for a value that
will not come.  Every other run can still lose a value. -/
theorem every_value_received (s : State) :
    (Reachable step InTurn initial s → s.received <+: s.produced ∧ ¬ Starved s) ∧
    ∀ v, Reachable step Any initial s → Enabled s (.produce v) → ¬ InTurn s (.produce v) →
      ∃ t, Reachable step Any s t ∧ Starved t := by
  constructor
  · intro hr
    have hs := handed_run hr
    refine ⟨⟨s.pending, hs.produced_eq.symm⟩, fun ⟨_, hw, hlt⟩ => ?_⟩
    have hempty : s.pending = [] := by
      rw [State.pending, hs.waits hw]
      rfl
    rw [hs.produced_eq, hempty, List.append_nil] at hlt
    exact Nat.lt_irrefl _ hlt
  · intro v hr he hturn
    obtain ⟨as, t, hrt, ht⟩ := overwrites_lose hr he (by simpa [InTurn] using hturn)
    exact ⟨t, ⟨as, hrt⟩, ht⟩

/-- Two values, each taken before the next is stored. -/
theorem every_value_received_two :
    ∃ s, exec step initial [.produce 69, .test, .wake, .produce 71, .test] = some s ∧
      s.received = [69, 71] ∧ s.received <+: s.produced ∧ ¬ Starved s := by
  have hr : Reachable step InTurn initial _ :=
    ⟨[.produce 69, .test, .wake, .produce 71, .test], exec_guarded rfl⟩
  exact ⟨_, rfl, rfl, (every_value_received _).1 hr⟩

/-- The producer comes back before the consumer has been scheduled at all: the first value
is overwritten, and what is received next is not what was produced first. -/
theorem first_value_lost :
    ∃ s, Run step Any initial [.produce 69, .wake, .produce 71, .test] s ∧
      s.produced = [69, 71] ∧ s.received = [71] ∧ ¬ s.received <+: s.produced :=
  ⟨_, exec_run rfl, rfl, rfl, by decide⟩

end EmbeddedLinux.ConditionVar
