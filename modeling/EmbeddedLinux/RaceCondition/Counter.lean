import EmbeddedLinux.Lib.CString
import EmbeddedLinux.Lib.Interference
import Mathlib.Algebra.BigOperators.Fin
import Mathlib.Algebra.Order.BigOperators.Group.Finset

/-!
# The shared counter

`main` starts `numThreads` threads, each of which adds 1 to `counter` `increments` times, and joins
them.  `counter++` is a load, an addition and a store; the mutex is held from before the
load until after the store.

`counter` is an `int`, and so is what is printed; here they are integers without a bound, which is
the same as long as the product fits (`no_lost_increment`).

`stores` counts the stores of each thread, and no step reads it.  The invariant is that `counter` is
their sum, at every moment, also between the steps of an increment.  It needs that the thread
between its load and its store has loaded what `counter` still is, which is where the lock comes
in.
-/

namespace EmbeddedLinux.RaceCondition

open CString Interference Transition

/-- `INT_MAX` -/
def intMax : Int := 2147483647

/-- The threads: `main`, and those it starts. -/
inductive ThreadId (numThreads : Nat)
  | main
  | worker (w : Fin numThreads)
  deriving DecidableEq

structure Memory (numThreads : Nat) where
  counter : Int
  /-- the owner of `counter_mutex` -/
  counterMutex : Option (ThreadId numThreads)
  /-- `pthread_create` has started the thread -/
  created : Fin numThreads → Bool
  /-- the thread has returned -/
  returned : Fin numThreads → Bool
  /-- the process has ended -/
  exited : Bool
  out : List UInt8
  stores : Fin numThreads → Nat

/-- Where a thread is. -/
inductive Pc
  /-- `main`, at the loops over the threads -/
  | create (i : Nat)
  | join (i : Nat)
  | printExpected
  | printActual
  /-- `increment_counter` -/
  | start
  | test (i : Nat)
  | lock (i : Nat)
  | load (i : Nat)
  | add (i : Nat) (x : Int)
  | store (i : Nat) (x : Int)
  | unlock (i : Nat)
  | done
  /-- after `exit(1)` -/
  | failed

variable {numThreads : Nat}

/-- A step of `main`.  The input is whether `pthread_create` succeeds. -/
def mainStep (increments : Nat) (created : Bool) (m : Memory numThreads) :
    Pc → Option (Memory numThreads × Pc)
  | .create i =>
    if h : i < numThreads then
      if created then
        some ({ m with created := Function.update m.created ⟨i, h⟩ true }, .create (i + 1))
      else some ({ m with exited := true }, .failed)
    else some (m, .join 0)
  | .join i =>
    if h : i < numThreads then
      -- `pthread_join` waits for the thread
      if m.returned ⟨i, h⟩ then some (m, .join (i + 1)) else none
    else some (m, .printExpected)
  | .printExpected =>
    some ({ m with
      out := m.out ++ text "Expected counter value: " ++ decimal (numThreads * increments) ++
        text "\n" }, .printActual)
  | .printActual =>
    some ({ m with
      out := m.out ++ text "Actual counter value  : " ++ decimal m.counter ++ text "\n"
      exited := true }, .done)
  | _ => none

/-- A step of `increment_counter`. -/
def incrementCounter (increments : Nat) (w : Fin numThreads) (m : Memory numThreads) :
    Pc → Option (Memory numThreads × Pc)
  | .start => if m.created w then some (m, .test 0) else none
  | .test i =>
    if i < increments then some (m, .lock i)
    else some ({ m with returned := Function.update m.returned w true }, .done)
  | .lock i =>
    if m.counterMutex = none then some ({ m with counterMutex := some (.worker w) }, .load i)
    else none
  | .load i => some (m, .add i m.counter)
  | .add i x => some (m, .store i (x + 1))
  | .store i x =>
    some ({ m with
      counter := x
      stores := Function.update m.stores w (m.stores w + 1) }, .unlock i)
  | .unlock i => some ({ m with counterMutex := none }, .test (i + 1))
  | _ => none

def step (increments : Nat) (t : ThreadId numThreads) (e : Bool) (m : Memory numThreads) (pc : Pc) :
    Option (Memory numThreads × Pc) :=
  if m.exited then none
  else
    match t with
    | .main => mainStep increments e m pc
    | .worker w => incrementCounter increments w m pc

def initial (numThreads : Nat) : State (ThreadId numThreads) (Memory numThreads) Pc where
  mem :=
    { counter := 0
      counterMutex := none
      created := fun _ => false
      returned := fun _ => false
      exited := false
      out := []
      stores := fun _ => 0 }
  pc
    | .main => .create 0
    | .worker _ => .start

/-! ### The invariant -/

/-- The thread has the mutex. -/
def Pc.holds : Pc → Bool
  | .load _ | .add _ _ | .store _ _ | .unlock _ => true
  | _ => false

/-- What a thread in `increment_counter` has done so far, and what it has loaded. -/
def Progress (increments : Nat) (w : Fin numThreads) (m : Memory numThreads) : Pc → Prop
  | .start => m.stores w = 0
  | .test i => m.stores w = i ∧ i ≤ increments
  | .lock i | .load i => m.stores w = i ∧ i < increments
  | .add i x => m.stores w = i ∧ i < increments ∧ x = m.counter
  | .store i x => m.stores w = i ∧ i < increments ∧ x = m.counter + 1
  | .unlock i => m.stores w = i + 1 ∧ i < increments
  | .done => m.stores w = increments
  | _ => True

structure WorkerOk (increments : Nat) (w : Fin numThreads) (pc : Pc) (m : Memory numThreads) :
    Prop where
  mutex : pc.holds = true → m.counterMutex = some (.worker w)
  returned : m.returned w = true → pc = .done
  progress : Progress increments w m pc

/-- `main` has joined the threads below `i`. -/
def MainOk (pc : Pc) (m : Memory numThreads) : Prop :=
  match pc with
  | .join i => ∀ w : Fin numThreads, w.val < i → m.returned w = true
  | .printExpected | .printActual | .done => ∀ w, m.returned w = true
  | _ => True

def Assertion (increments : Nat) : ThreadId numThreads → Pc → Memory numThreads → Prop
  | .main, pc, m => MainOk pc m
  | .worker w, pc, m => WorkerOk increments w pc m

/-- **The counter is the number of completed stores.** -/
structure Counted (increments : Nat) (m : Memory numThreads) : Prop where
  sum : m.counter = ((∑ w, m.stores w : Nat) : Int)
  le : ∀ w, m.stores w ≤ increments
  returned : ∀ w, m.returned w = true → m.stores w = increments

/-! ### What a step leaves as it is -/

/-- `main` touches nothing of the other threads. -/
theorem mainStep_frame {increments : Nat} {e : Bool} {m m' : Memory numThreads} {pc pc' : Pc}
    (h : mainStep increments e m pc = some (m', pc')) :
    m'.counter = m.counter ∧ m'.counterMutex = m.counterMutex ∧ m'.stores = m.stores ∧
      m'.returned = m.returned := by
  unfold mainStep at h
  repeat' split at h
  all_goals cases h <;> exact ⟨rfl, rfl, rfl, rfl⟩

/-- What a thread leaves to another one. -/
structure Frame (u : Fin numThreads) (m m' : Memory numThreads) : Prop where
  stores : m'.stores u = m.stores u
  returned : m'.returned u = m.returned u
  mutex : m.counterMutex = some (.worker u) →
    m'.counterMutex = some (.worker u) ∧ m'.counter = m.counter

theorem WorkerOk.frame {increments : Nat} {u : Fin numThreads} {pc : Pc} {m m' : Memory numThreads}
    (h : WorkerOk increments u pc m) (hf : Frame u m m') : WorkerOk increments u pc m' := by
  obtain ⟨hmutex, hreturned, hprogress⟩ := h
  refine ⟨fun hpc => (hf.mutex (hmutex hpc)).1, fun hr => hreturned (hf.returned ▸ hr), ?_⟩
  cases pc <;> simp only [Progress, hf.stores] at hprogress ⊢ <;> try exact hprogress
  · rw [(hf.mutex (hmutex rfl)).2]
    exact hprogress
  · rw [(hf.mutex (hmutex rfl)).2]
    exact hprogress

/-- The thread with the mutex is the one that changes `counter`. -/
theorem incrementCounter_frame {increments : Nat} {w u : Fin numThreads} {m m' : Memory numThreads}
    {pc pc' : Pc} (hw : WorkerOk increments w pc m) (hne : u ≠ w)
    (h : incrementCounter increments w m pc = some (m', pc')) : Frame u m m' := by
  have hother : pc.holds = true → m.counterMutex ≠ some (.worker u) := by
    intro hpc hu
    rw [hw.mutex hpc] at hu
    cases hu
    exact hne rfl
  cases pc with
  | start | test i | load i | add i x =>
    simp only [incrementCounter] at h
    try split at h
    all_goals cases h
    all_goals exact ⟨rfl, by simp [hne], fun hu => ⟨hu, rfl⟩⟩
  | lock i =>
    simp only [incrementCounter] at h
    split at h
    · rename_i hfree
      cases h
      refine ⟨rfl, rfl, fun hu => ?_⟩
      rw [hfree] at hu
      cases hu
    · cases h
  | store i x =>
    cases h
    exact ⟨Function.update_of_ne hne _ _, rfl, fun hu => absurd hu (hother rfl)⟩
  | unlock i =>
    cases h
    exact ⟨rfl, rfl, fun hu => absurd hu (hother rfl)⟩
  | _ => cases h

/-- A thread that has returned has returned. -/
theorem incrementCounter_returned {increments : Nat} {w u : Fin numThreads}
    {m m' : Memory numThreads} {pc pc' : Pc}
    (h : incrementCounter increments w m pc = some (m', pc')) (hu : m.returned u = true) :
    m'.returned u = true := by
  unfold incrementCounter at h
  repeat' split at h
  all_goals cases h <;> try exact hu
  by_cases huw : u = w
  · rw [huw]
    exact Function.update_self ..
  · exact (Function.update_of_ne huw _ _).trans hu

/-! ### The steps keep the invariant -/

/-- One more store. -/
theorem sum_store (stores : Fin numThreads → Nat) (w : Fin numThreads) :
    ∑ u, Function.update stores w (stores w + 1) u = ∑ u, stores u + 1 := by
  have hbump : ∀ u, Function.update stores w (stores w + 1) u =
      stores u + if u = w then 1 else 0 := by
    intro u
    by_cases h : u = w
    · subst h
      simp
    · simp [h]
  simp only [hbump, Finset.sum_add_distrib, Finset.sum_ite_eq', Finset.mem_univ, if_true]

theorem Counted.store {increments : Nat} {w : Fin numThreads} {m : Memory numThreads}
    (hm : Counted increments m) {i : Nat} {x : Int}
    (hw : WorkerOk increments w (.store i x) m) :
    Counted increments { m with
      counter := x
      stores := Function.update m.stores w (m.stores w + 1) } := by
  obtain ⟨hi, hlt, hx⟩ := hw.progress
  refine ⟨?_, ?_, ?_⟩
  · show x = _
    rw [hx, hm.sum, sum_store]
    push_cast
    rfl
  · intro u
    show Function.update m.stores w (m.stores w + 1) u ≤ increments
    by_cases hu : u = w
    · subst hu
      rw [Function.update_self]
      omega
    · rw [Function.update_of_ne hu]
      exact hm.le u
  · intro u hr
    have hu : u ≠ w := by
      rintro rfl
      cases hw.returned hr
    exact (Function.update_of_ne hu _ _).trans (hm.returned u hr)

theorem incrementCounter_own {increments : Nat} {w : Fin numThreads} {m m' : Memory numThreads}
    {pc pc' : Pc} (hm : Counted increments m) (hw : WorkerOk increments w pc m)
    (h : incrementCounter increments w m pc = some (m', pc')) :
    Counted increments m' ∧ WorkerOk increments w pc' m' := by
  obtain ⟨hmutex, hreturned, hprogress⟩ := hw
  have hrun : pc ≠ .done → m.returned w = true → pc' = .done :=
    fun hpc hr => absurd (hreturned hr) hpc
  cases pc with
  | start =>
    simp only [incrementCounter] at h
    split at h
    · cases h
      exact ⟨hm, fun h => (by cases h), hrun (by simp), hprogress, Nat.zero_le _⟩
    · cases h
  | test i =>
    obtain ⟨hi, hle⟩ := hprogress
    simp only [incrementCounter] at h
    split at h
    · rename_i hlt
      cases h
      exact ⟨hm, fun h => (by cases h), hrun (by simp), hi, hlt⟩
    · rename_i hge
      cases h
      have hall : m.stores w = increments := by omega
      refine ⟨⟨hm.sum, hm.le, fun u hr => ?_⟩, fun h => (by cases h), fun _ => rfl, hall⟩
      by_cases hu : u = w
      · rw [hu]
        exact hall
      · exact hm.returned u ((Function.update_of_ne hu _ _).symm.trans hr)
  | lock i =>
    simp only [incrementCounter] at h
    split at h
    · cases h
      exact ⟨⟨hm.sum, hm.le, hm.returned⟩, fun _ => rfl, hrun (by simp), hprogress⟩
    · cases h
  | load i =>
    cases h
    exact ⟨hm, hmutex, hrun (by simp), hprogress.1, hprogress.2, rfl⟩
  | add i x =>
    cases h
    obtain ⟨hi, hlt, hx⟩ := hprogress
    exact ⟨hm, hmutex, hrun (by simp), hi, hlt, congrArg (· + 1) hx⟩
  | store i x =>
    cases h
    have hstores : Function.update m.stores w (m.stores w + 1) w = i + 1 := by
      rw [Function.update_self, hprogress.1]
    exact ⟨hm.store ⟨hmutex, hreturned, hprogress⟩, hmutex, hrun (by simp), hstores, hprogress.2.1⟩
  | unlock i =>
    cases h
    obtain ⟨hi, hlt⟩ := hprogress
    exact ⟨⟨hm.sum, hm.le, hm.returned⟩, fun h => (by cases h), hrun (by simp), hi, hlt⟩
  | _ => cases h

theorem mainStep_own {increments : Nat} {e : Bool} {m m' : Memory numThreads} {pc pc' : Pc}
    (hmain : MainOk pc m) (h : mainStep increments e m pc = some (m', pc')) : MainOk pc' m' := by
  cases pc with
  | create i =>
    simp only [mainStep] at h
    split at h
    · split at h
      all_goals
        cases h
        exact trivial
    · cases h
      exact fun w hw => absurd hw (Nat.not_lt_zero _)
  | join i =>
    simp only [mainStep] at h
    split at h
    · rename_i hi
      split at h
      · rename_i hr
        cases h
        intro w hw
        by_cases hwi : w.val = i
        · rw [show w = ⟨i, hi⟩ from Fin.ext hwi]
          exact hr
        · exact hmain w (by omega)
      · cases h
    · rename_i hi
      cases h
      exact fun w => hmain w (by omega)
  | printExpected | printActual =>
    cases h
    exact hmain
  | _ => cases h

/-- **The proof outline of the program.** -/
theorem outline (numThreads increments : Nat) :
    Outline (T := ThreadId numThreads) (step increments) (fun _ _ _ _ => True)
      (Counted increments) (Assertion increments) where
  own t e m pc m' pc' hm ha _ h := by
    unfold step at h
    split at h
    · cases h
    cases t with
    | main =>
      obtain ⟨hc, -, hs, hr⟩ := mainStep_frame h
      refine ⟨⟨?_, ?_, ?_⟩, mainStep_own ha h⟩
      · rw [hc, hs]
        exact hm.sum
      · rw [hs]
        exact hm.le
      · rw [hs, hr]
        exact hm.returned
    | worker w => exact incrementCounter_own hm ha h
  others t e m pc m' pc' u k hne hm ha hu _ h := by
    unfold step at h
    split at h
    · cases h
    cases t with
    | main =>
      obtain ⟨hc, hmutex, hs, hr⟩ := mainStep_frame h
      cases u with
      | main => exact absurd rfl hne
      | worker v =>
        refine WorkerOk.frame hu ⟨by rw [hs], by rw [hr], fun hv => ?_⟩
        rw [hmutex, hc]
        exact ⟨hv, rfl⟩
    | worker w =>
      cases u with
      | main =>
        have hret : ∀ v, m.returned v = true → m'.returned v = true :=
          fun v => incrementCounter_returned h
        cases k with
        | join i => exact fun v hv => hret v (hu v hv)
        | printExpected | printActual | done => exact fun v => hret v (hu v)
        | _ => exact trivial
      | worker v =>
        have hvw : v ≠ w := fun e => hne (congrArg ThreadId.worker e)
        exact WorkerOk.frame hu (incrementCounter_frame ha hvw h)

/-! ### The main result -/

theorem holds_initial (numThreads increments : Nat) :
    Holds (Counted increments) (Assertion increments) (initial numThreads) := by
  refine ⟨⟨?_, fun w => Nat.zero_le _, fun w h => (by cases h)⟩, fun t => ?_⟩
  · simp [initial]
  · cases t with
    | main => exact trivial
    | worker w => exact ⟨fun h => (by cases h), fun h => (by cases h), rfl⟩

/-- All threads have been joined. -/
def Joined (s : State (ThreadId numThreads) (Memory numThreads) Pc) : Prop :=
  s.pc .main = .printExpected ∨ s.pc .main = .printActual ∨ s.pc .main = .done

theorem Counted.stores_le {increments : Nat} {m : Memory numThreads} (hm : Counted increments m) :
    ∑ w, m.stores w ≤ numThreads * increments := by
  have hall : ∑ _w : Fin numThreads, increments = numThreads * increments := by simp
  rw [← hall]
  exact Finset.sum_le_sum (fun w _ => hm.le w)

/-- **No increment is lost.**  In every state that is reached, `counter` is the number of completed
stores, no addition has overflowed or is about to, and if the threads have been joined,
`counter` is the product. -/
theorem no_lost_increment {numThreads increments : Nat}
    (hmax : (numThreads * increments : Nat) ≤ intMax)
    {s : State (ThreadId numThreads) (Memory numThreads) Pc}
    (hr : Reachable (next (step increments)) Any (initial numThreads) s) :
    s.mem.counter = ((∑ w, s.mem.stores w : Nat) : Int) ∧ s.mem.counter ≤ intMax ∧
      (∀ w i x, s.pc (.worker w) = .add i x → x + 1 ≤ intMax) ∧
      (Joined s → s.mem.counter = numThreads * increments) := by
  obtain ⟨hm, ha⟩ := (outline numThreads increments).any (holds_initial numThreads increments) hr
  have hall : ∑ _w : Fin numThreads, increments = numThreads * increments := by simp
  have hle := hm.stores_le
  refine ⟨hm.sum, ?_, ?_, ?_⟩
  · have := hm.sum
    omega
  · intro w i x hpc
    have hw : WorkerOk increments w (s.pc (.worker w)) s.mem := ha (.worker w)
    rw [hpc] at hw
    obtain ⟨hi, hlt, hx⟩ := hw.progress
    -- this thread has an increment to come
    have hlt : ∑ w, s.mem.stores w < numThreads * increments := by
      rw [← hall]
      exact Finset.sum_lt_sum (fun w _ => hm.le w) ⟨w, Finset.mem_univ w, by omega⟩
    have := hm.sum
    omega
  · intro hj
    have hmain : MainOk (s.pc .main) s.mem := ha .main
    have hret : ∀ w, s.mem.returned w = true := by
      rcases hj with h | h | h
      all_goals
        rw [h] at hmain
        exact hmain
    rw [hm.sum, Finset.sum_congr rfl (fun w _ => hm.returned w (hret w)), hall]
    push_cast
    rfl

/-- Two threads with one increment each; the first one loses its processor within its section. -/
theorem no_lost_increment_two :
    ∃ s, Reachable (next (step 1)) Any (initial 2) s ∧ Joined s ∧ s.mem.counter = 2 := by
  let main := fun n => List.replicate n ((ThreadId.main : ThreadId 2), true)
  let worker := fun (w : Fin 2) n => List.replicate n (ThreadId.worker w, true)
  have hr : Reachable (next (step 1)) Any (initial 2) _ :=
    ⟨main 3 ++ worker 0 4 ++ worker 1 2 ++ worker 0 4 ++ worker 1 6 ++ main 3, exec_run rfl⟩
  obtain ⟨-, -, -, hjoined⟩ := no_lost_increment (by decide) hr
  exact ⟨_, hr, Or.inl rfl, hjoined (Or.inl rfl)⟩

end EmbeddedLinux.RaceCondition
